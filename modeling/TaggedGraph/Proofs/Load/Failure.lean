import TaggedGraph.Proofs.Load.Simulation
import TaggedGraph.Proofs.Postorder

namespace TaggedGraph.Load

open Traversal Event

section
variable (visit : NodeId → LoadM Object) (session : Session) (nodes : NodeGraph)

theorem yields_newCell (n : NodeId) (c : Cell) (s : LoadState) :
    Yields (newCell n c) s s.objects.size (s.make n c) :=
  rfl

theorem fails_convertContent {publish : Object → LoadM Unit}
    (hp : ∀ o s e s', ¬ Fails (publish o) s e s') (n : NodeId) (ct : Content) (s : LoadState)
    (e : Halt) (s' : LoadState) : Fails (convertContent visit publish n ct) s e s' ↔
      ∃ s₁, Yields (publish (s.begin n ct).1) (s.begin n ct).2 () s₁ ∧
        Fails (fill visit s.objects.size ct 0 ct.children) s₁ e s' := by
  cases ct with
  | scalar v =>
    simp only [convertContent, fails_bind, hp, not_fails_pure, Content.children, fill, and_false,
      exists_false, or_self]
  | sequence items =>
    simp only [convertContent, fails_bind_of_yields (yields_newCell n _ s), fails_bind, hp,
      not_fails_pure, fillList_eq visit _ items, and_false, exists_false, or_false, false_or]
    constructor
    · rintro ⟨_, s₁, h⟩
      exact ⟨s₁, h⟩
    · rintro ⟨s₁, h⟩
      exact ⟨(), s₁, h⟩
  | mapping entries =>
    simp only [convertContent, fails_bind_of_yields (yields_newCell n _ s), fails_bind, hp,
      not_fails_pure, fillMap_eq visit _ entries 0 entries.entries rfl, and_false, exists_false,
      or_false, false_or]
    constructor
    · rintro ⟨_, s₁, h⟩
      exact ⟨s₁, h⟩
    · rintro ⟨s₁, h⟩
      exact ⟨(), s₁, h⟩

theorem fails_fill_cons (id : ObjectId) (ct : Content) (index : Nat) (n : NodeId) (r : List NodeId)
    (s : LoadState) (e : Halt) (s' : LoadState) :
    Fails (fill visit id ct index (n :: r)) s e s' ↔ Fails (visit n) s e s' ∨ ∃ o s₁,
      Yields (visit n) s o s₁ ∧
        Fails (fill visit id ct (index + 1) r) (s₁.put id ct index o) e s' := by
  simp only [fill, fails_bind, not_fails_modify, false_or, yields_modify]
  constructor
  · rintro (h | ⟨o, s₁, hv, _, _, rfl, h⟩)
    · exact .inl h
    · exact .inr ⟨o, s₁, hv, h⟩
  · rintro (h | ⟨o, s₁, hv, h⟩)
    · exact .inl h
    · exact .inr ⟨o, s₁, hv, (), _, rfl, h⟩

theorem fails_runConverter {α : Type} (c : LoadedConverter Behaviour) (t : TagUri)
    (steps : GraphM α) (s : LoadState) (e : Halt) (s' : LoadState) :
    Fails (runConverter c t steps) s e s' ↔ ∃ message objects,
      Fails steps s.objects message objects ∧
        e = .failed (.converterFailed (some t) c.className message) ∧ s' = { s with objects } := by
  rw [runConverter, fails_get_bind]
  unfold Fails
  generalize steps.run s.objects = p
  obtain ⟨r, objects⟩ := p
  cases r with
  | ok a =>
    constructor
    · rintro ⟨⟩
    · rintro ⟨_, _, ⟨⟩, -⟩
  | error message =>
    constructor
    · rintro ⟨⟩
      exact ⟨message, objects, rfl, rfl, rfl⟩
    · rintro ⟨_, _, ⟨⟩, rfl, rfl⟩
      rfl

/-- A failing call of a converter leaves its steps in the object graph. -/
theorem fails_callConverter (c : LoadedConverter Behaviour) (t : TagUri) (raw : Object)
    (s : LoadState) (e : Halt) (s' : LoadState) :
    Fails (callConverter session c t raw) s e s' ↔ ∃ message objects,
      Fails (c.converter.behaviour.fromTree session.context raw t) s.objects message objects ∧
        e = .failed (.converterFailed (some t) c.className message) ∧
        s' = { s with objects, calls := s.calls ++ [.fromTree c t raw s.objects] } := by
  simp only [callConverter, fails_bind, not_fails_modify, yields_modify, fails_runConverter,
    false_or]
  constructor
  · rintro ⟨_, _, rfl, h | ⟨answer, _, -, h⟩⟩
    · exact h
    · cases answer <;> cases h
  · exact fun h => ⟨(), _, rfl, .inl h⟩

theorem fails_convertNew_raw (n : NodeId) (hc : session.converterAt nodes n = none)
    (s : LoadState) (e : Halt) (s' : LoadState) :
    Fails (convertNew session nodes visit n) s e s' ↔
      Fails (fill visit s.objects.size (nodes.content n) 0 (nodes.children n))
        ((s.begin n (nodes.content n)).2.record n (s.begin n (nodes.content n)).1) e s' := by
  have hcontent (s' : LoadState) :
      Fails (convertContent visit (fun raw => modify (·.record n raw)) n (nodes.content n)) s e s' ↔
        Fails (fill visit s.objects.size (nodes.content n) 0 (nodes.children n))
          ((s.begin n (nodes.content n)).2.record n (s.begin n (nodes.content n)).1) e s' := by
    rw [fails_convertContent visit fun _ _ _ _ => not_fails_modify _ _ _ _]
    simp only [yields_modify, exists_eq_left]
    rfl
  unfold convertNew
  cases ht : nodes.tag n with
  | none => exact hcontent s'
  | some t =>
    have hc : session.registry.converterForTag t = none := by
      simpa [Session.converterAt, ht] using hc
    simp only [hc, fails_bind, not_fails_modify, not_fails_pure, hcontent, and_false, exists_false,
      or_false]

theorem fails_convertNew_converted (n : NodeId) (t : TagUri) (c : LoadedConverter Behaviour)
    (ht : nodes.tag n = some t) (hc : session.registry.converterForTag t = some c)
    (s : LoadState) (e : Halt) (s' : LoadState) :
    Fails (convertNew session nodes visit n) s e s' ↔
      Fails (fill visit s.objects.size (nodes.content n) 0 (nodes.children n))
        ((s.enter n).begin n (nodes.content n)).2 e s' ∨
      ∃ s₂, Yields (fill visit s.objects.size (nodes.content n) 0 (nodes.children n))
        ((s.enter n).begin n (nodes.content n)).2 () s₂ ∧
        Fails (callConverter session c t ((s.enter n).begin n (nodes.content n)).1) s₂ e s' := by
  unfold convertNew
  simp only [ht, hc, fails_bind, not_fails_modify, not_fails_pure, yields_modify, false_or,
    fails_convertContent visit fun _ _ _ _ => not_fails_pure _ _ _ _, yields_convertContent,
    and_false, exists_false, or_false]
  constructor
  · rintro ⟨_, _, rfl, ⟨_, ⟨-, rfl⟩, h⟩ | ⟨_, s₂, ⟨rfl, _, ⟨-, rfl⟩, hf⟩, h⟩⟩
    · exact .inl h
    · exact .inr ⟨s₂, hf, h⟩
  · rintro (h | ⟨s₂, hf, h⟩)
    · exact ⟨(), _, rfl, .inl ⟨_, rfl, h⟩⟩
    · exact ⟨(), _, rfl, .inr ⟨_, s₂, ⟨rfl, _, rfl, hf⟩, h⟩⟩

theorem fails_convert (depth : Nat) (n : NodeId) (s : LoadState) (e : Halt) (s' : LoadState) :
    Fails (convert session nodes (depth + 1) n) s e s' ↔
      ¬ ((s.done.lookup n).isSome ∨ n ∈ s.active) ∧
        Fails (convertNew session nodes (convert session nodes depth) n) s e s' := by
  rw [Fails, run_convert]
  split
  · rename_i hmet
    exact iff_of_false (not_fails_pure (s.result n) s e s') fun h => h.1 hmet
  · rename_i hmet
    exact (and_iff_right hmet).symm

end

variable {session : Session} {nodes : NodeGraph} {s s' : LoadState} {es : List (Event NodeId)}
  {e : Halt}

/-- The nodes of the graph that are still to be met. -/
abbrev unmet (nodes : NodeGraph) (es : List (Event NodeId)) : Nat :=
  remaining nodes.size fun n => enter n ∈ es

theorem unmet_enter {n : NodeId} (hn : enter n ∉ es) (hr : nodes.children n ≠ []) :
    unmet nodes (es ++ [enter n]) < unmet nodes es :=
  remaining_lt _ (fun i hi => List.mem_append_left _ hi) (NodeGraph.lt_size_of_children hr) hn
    (by simp)

/-- How many of these nodes are still to be met. -/
def unmetIn (vertices : Finset NodeId) (es : List (Event NodeId)) : Nat :=
  remainingIn vertices fun n => enter n ∈ es

theorem unmetIn_le_card (vertices : Finset NodeId) (es : List (Event NodeId)) :
    unmetIn vertices es ≤ vertices.card :=
  remainingIn_le_card vertices

theorem unmetIn_le {vertices : Finset NodeId} {es' : List (Event NodeId)} (h : es <+: es') :
    unmetIn vertices es' ≤ unmetIn vertices es :=
  remainingIn_le vertices fun _ hm => h.subset hm

theorem unmetIn_enter {vertices : Finset NodeId} {n : NodeId} (hn : n ∈ vertices)
    (he : enter n ∉ es) : unmetIn vertices (es ++ [enter n]) < unmetIn vertices es :=
  remainingIn_lt vertices (fun _ hm => List.mem_append_left _ hm) hn he (by simp)

variable (session nodes) in
/-- The converter of node `n`, which ends, is called in the state `s` and fails. -/
def CallFails (s : LoadState) (es : List (Event NodeId)) (n : NodeId) (e : Halt)
    (s' : LoadState) : Prop :=
  ∃ c t raw message objects, Calls session nodes s es n c t raw ∧
    Fails (c.converter.behaviour.fromTree session.context raw t) s.objects message objects ∧
    e = .failed (.converterFailed (some t) c.className message) ∧
    s' = { s with objects, calls := s.calls ++ [.fromTree c t raw s.objects] }

variable (session nodes) in
/-- From `s` the steps of the traversal are taken up to a node whose converter fails. The events
until that node is left begin `full`. -/
def FailsOnTheWay (s : LoadState) (es full : List (Event NodeId)) (e : Halt) (s' : LoadState) :
    Prop :=
  ∃ s₁ es₁ n, Steps session nodes (s, es) (s₁, es₁) ∧ es₁ ++ [leave n] <+: full ∧
    CallFails session nodes s₁ es₁ n e s'

theorem FailsOnTheWay.weaken {full full' : List (Event NodeId)}
    (h : FailsOnTheWay session nodes s es full e s') (hfull : full <+: full') :
    FailsOnTheWay session nodes s es full' e s' := by
  obtain ⟨s₁, es₁, n, hsteps, hp, hcall⟩ := h
  exact ⟨s₁, es₁, n, hsteps, hp.trans hfull, hcall⟩

theorem FailsOnTheWay.after {s₀ : LoadState} {es₀ full : List (Event NodeId)}
    (h : FailsOnTheWay session nodes s es full e s')
    (hsteps : Steps session nodes (s₀, es₀) (s, es)) :
    FailsOnTheWay session nodes s₀ es₀ full e s' := by
  obtain ⟨s₁, es₁, n, hrest, hp, hcall⟩ := h
  exact ⟨s₁, es₁, n, hsteps.trans hrest, hp, hcall⟩

theorem fill_fails {depth : Nat}
    (hv : ∀ n s es e s', Tracks session nodes s es → unmet nodes es < depth →
      Fails (convert session nodes depth n) s e s' →
      FailsOnTheWay session nodes s es (walk nodes.children depth es n) e s')
    (n : NodeId) (id : ObjectId) (r : List NodeId) (index : Nat) (s : LoadState)
    (es : List (Event NodeId)) (h : Filling session nodes s es n id index r)
    (hd : r ≠ [] → unmet nodes es < depth)
    (hfill : Fails (fill (convert session nodes depth) id (nodes.content n) index r) s e s') :
    FailsOnTheWay session nodes s es
      (walkChildren (walk nodes.children depth) n index r es) e s' := by
  induction r generalizing index s es with
  | nil => exact absurd hfill (not_fails_pure _ _ _ _)
  | cons c r ih =>
    have hgo := goesOn_walk nodes.children depth
    rcases (fails_fill_cons _ _ _ _ _ _ _ _ _).1 hfill with hfail | ⟨o, s₁, hvisit, hfail⟩
    · apply (hv c s es e s' h.tracks (hd (by simp)) hfail).weaken
      have hrest := (goesOn_walkChildren hgo n r (index + 1)
        (walk nodes.children depth es c ++ [refer n index c])).isPrefix
      exact (List.prefix_append _ _).trans hrest
    · obtain ⟨hsteps, rfl, hec⟩ := convert_steps depth c s es o s₁ h.tracks hvisit
      obtain ⟨hstep, hnext⟩ := h.next hsteps (hgo es c) hec
      refine (ih (index + 1) _ _ hnext (fun _ => ?_) hfail).after (hsteps.tail hstep)
      refine Nat.lt_of_le_of_lt (remaining_le _ fun i hi => ?_) (hd (by simp))
      exact List.mem_append_left _ ((hgo es c).mem hi)

/-- A conversion that may go deep enough fails only if a converter does. -/
theorem convert_fails (depth : Nat) (n : NodeId) (s : LoadState) (es : List (Event NodeId))
    (e : Halt) (s' : LoadState) (ht : Tracks session nodes s es) (hd : unmet nodes es < depth)
    (h : Fails (convert session nodes depth n) s e s') :
    FailsOnTheWay session nodes s es (walk nodes.children depth es n) e s' := by
  induction depth generalizing n s es e s' with
  | zero => exact absurd hd (Nat.not_lt_zero _)
  | succ depth ih =>
    obtain ⟨hmet, h⟩ := (fails_convert session nodes depth n s e s').1 h
    have hn : enter n ∉ es := fun hn => hmet ((ht.met_iff n).2 hn)
    rw [walk, if_neg hn]
    have hdepth (hr : nodes.children n ≠ []) : unmet nodes (es ++ [enter n]) < depth := by
      have := unmet_enter hn hr
      omega
    have hgo := goesOn_walk nodes.children depth
    by_cases hc : session.converterAt nodes n = none
    · rw [fails_convertNew_raw _ _ _ _ hc] at h
      have hstep : Step session nodes (s, es) _ := .enterRaw hn hc
      have hstart := Filling.start ht hn hstep (s.begin_built n _)
      apply FailsOnTheWay.weaken _ (List.prefix_append _ _)
      exact (fill_fails ih n _ _ 0 _ _ hstart hdepth h).after (.single hstep)
    · obtain ⟨c, hat⟩ := Option.ne_none_iff_exists'.1 hc
      obtain ⟨t, htag, hconv⟩ := Option.bind_eq_some_iff.1 hat
      have hstep : Step session nodes (s, es) _ := .enterConverted hn hc
      have hstart := Filling.start ht hn hstep ((s.enter n).begin_built n _)
      rcases (fails_convertNew_converted _ _ _ n t c htag hconv _ _ _).1 h with h | ⟨s₂, hfill, h⟩
      · apply FailsOnTheWay.weaken _ (List.prefix_append _ _)
        exact (fill_fails ih n _ _ 0 _ _ hstart hdepth h).after (.single hstep)
      · obtain ⟨hsteps, hend⟩ := fill_steps (convert_steps depth) hgo n _ _ 0 _ _ s₂ hstart hfill
        obtain ⟨message, objects, hfail, rfl, rfl⟩ := (fails_callConverter _ _ _ _ _ _ _).1 h
        have hraw := ((s.enter n).isRaw_begin n (nodes.content n)).mono fun b => hsteps.mem_built
        have hcalls : Calls session nodes s₂ _ n c t _ := ⟨hend.ends, htag, hconv, hraw⟩
        exact ⟨s₂, _, n, (Relation.ReflTransGen.single hstep).trans hsteps, List.prefix_rfl, c, t,
          _, message, objects, hcalls, hfail, rfl, rfl⟩

end TaggedGraph.Load
