import TaggedGraph.Proofs.Load.Tracks
import TaggedGraph.Proofs.Load.Program

namespace TaggedGraph.Load

open Traversal Event

variable {session : Session} {nodes : NodeGraph} {s s' : LoadState} {es es' : List (Event NodeId)}

theorem Steps.tracks (h : Steps session nodes (s, es) (s', es')) (ht : Tracks session nodes s es) :
    Tracks session nodes s' es' :=
  h.keeps (J := Tracks session nodes) (fun _ _ _ _ hstep => Tracks.step hstep) ht

theorem Step.mem_built {b : NodeId × ObjectId} (h : Step session nodes (s, es) (s', es'))
    (hb : b ∈ s.built) : b ∈ s'.built := by
  cases h with
  | enterRaw => exact LoadState.mem_built_begin _ _ _ hb
  | enterConverted => exact LoadState.mem_built_begin _ _ _ hb
  | refer => rwa [LoadState.built_put]
  | leaveRaw =>
    rw [LoadState.noted_eq]
    exact hb
  | leaveConverted => exact hb

theorem Steps.mem_built {b : NodeId × ObjectId} (h : Steps session nodes (s, es) (s', es'))
    (hb : b ∈ s.built) : b ∈ s'.built :=
  h.keeps (J := fun s _ => b ∈ s.built) (fun _ _ _ _ hstep => hstep.mem_built) hb

theorem Step.lookup_done {n : NodeId} {o : Object} (h : Step session nodes (s, es) (s', es'))
    (ht : Tracks session nodes s es) (hn : s.done.lookup n = some o) :
    s'.done.lookup n = some o := by
  have hs : Settled session nodes es n := (ht.done n).1 (by simp [hn])
  cases h with
  | @enterRaw _ _ m hm hc =>
    have hne : n ≠ m := by
      rintro rfl
      exact hm ((settled_of_none hc).1 hs)
    simp [LoadState.lookup_record, hne, hn]
  | enterConverted => simpa using hn
  | refer => simpa using hn
  | leaveRaw => simpa using hn
  | @leaveConverted _ _ m c t raw answer objects hcalls =>
    have hne : n ≠ m := by
      rintro rfl
      exact hcalls.not_settled hs
    simp [LoadState.lookup_record, hne, LoadState.answered, hn]

theorem Steps.lookup_done {n : NodeId} {o : Object} (h : Steps session nodes (s, es) (s', es'))
    (ht : Tracks session nodes s es) (hn : s.done.lookup n = some o) : s'.done.lookup n = some o :=
  (h.keeps (J := fun s es => Tracks session nodes s es ∧ s.done.lookup n = some o)
    (fun _ _ _ _ hstep h => ⟨h.1.step hstep, hstep.lookup_done h.1 h.2⟩) ⟨ht, hn⟩).2

variable (session nodes) in
/-- Node `n` has given the list or map `id` its children up to `index`; those of `r` are to come. -/
structure Filling (s : LoadState) (es : List (Event NodeId)) (n : NodeId) (id : ObjectId)
    (index : Nat) (r : List NodeId) : Prop where
  tracks : Tracks session nodes s es
  built : r ≠ [] → (n, id) ∈ s.built
  entered : enter n ∈ es
  not_left : leave n ∉ es
  rest : (nodes.children n).drop index = r
  refers : ∀ i d, refer n i d ∈ es ↔ i < index ∧ (nodes.children n)[i]? = some d

section
variable {n c : NodeId} {id : ObjectId} {index : Nat} {r : List NodeId} {s₁ : LoadState}
  {es₁ : List (Event NodeId)}

theorem Filling.start (ht : Tracks session nodes s es) (hn : enter n ∉ es)
    (hstep : Step session nodes (s, es) (s₁, es ++ [enter n]))
    (hb : nodes.children n ≠ [] → (n, id) ∈ s₁.built) :
    Filling session nodes s₁ (es ++ [enter n]) n id 0 (nodes.children n) where
  tracks := ht.step hstep
  built := hb
  entered := by simp
  not_left := by simpa using fun h => hn (ht.trace.left n h)
  rest := rfl
  refers i d := by simpa using fun h => hn (ht.trace.refers n i d h).1

theorem Filling.getElem? (h : Filling session nodes s es n id index (c :: r)) :
    (nodes.children n)[index]? = some c := by
  rw [← List.head?_drop, h.rest]
  rfl

theorem Filling.next (h : Filling session nodes s es n id index (c :: r))
    (hsteps : Steps session nodes (s, es) (s₁, es₁)) (hgo : GoesOn (fun _ => False) es es₁)
    (hec : enter c ∈ es₁) :
    Step session nodes (s₁, es₁)
      (s₁.put id (nodes.content n) index (s₁.result c), es₁ ++ [refer n index c]) ∧
    Filling session nodes (s₁.put id (nodes.content n) index (s₁.result c))
      (es₁ ++ [refer n index c]) n id (index + 1) r := by
  have hc := h.getElem?
  have hb := hsteps.mem_built (h.built (by simp))
  have hl : leave n ∉ es₁ := fun hl => h.not_left (hgo.leaves n h.entered hl)
  have hr (i : Nat) (d : NodeId) :
      refer n i d ∈ es₁ ↔ i < index ∧ (nodes.children n)[i]? = some d := by
    rw [← h.refers]
    exact ⟨hgo.refers n i d h.entered not_false, hgo.mem⟩
  have hstep : Step session nodes (s₁, es₁)
      (s₁.put id (nodes.content n) index (s₁.result c), es₁ ++ [refer n index c]) :=
    .refer hb hc (hgo.mem h.entered) hl hr hec
  refine ⟨hstep, (hsteps.tracks h.tracks).step hstep, fun _ => by rwa [LoadState.built_put],
    by simp [hgo.mem h.entered], by simpa using hl, ?_, fun i d => ?_⟩
  · rw [← List.tail_drop, h.rest, List.tail_cons]
  · exact refers_snoc hc hr i d

theorem Filling.ends (h : Filling session nodes s es n id index []) : Ends nodes es n where
  entered := h.entered
  not_left := h.not_left
  refers i d hi := by
    have := List.drop_eq_nil_iff.1 h.rest
    have := (List.getElem?_eq_some_iff.1 hi).1
    exact (h.refers i d).2 ⟨by omega, hi⟩

end

variable {visit : NodeId → LoadM Object} {go : List (Event NodeId) → NodeId → List (Event NodeId)}

theorem fill_steps
    (hv : ∀ n s es o s', Tracks session nodes s es → Yields (visit n) s o s' →
      Steps session nodes (s, es) (s', go es n) ∧ o = s'.result n ∧ enter n ∈ go es n)
    (hgo : ∀ es n, GoesOn (fun _ => False) es (go es n)) (n : NodeId) (id : ObjectId)
    (r : List NodeId) (index : Nat) (s : LoadState) (es : List (Event NodeId)) (s' : LoadState)
    (h : Filling session nodes s es n id index r)
    (hfill : Yields (fill visit id (nodes.content n) index r) s () s') :
    Steps session nodes (s, es) (s', walkChildren go n index r es) ∧
      Filling session nodes s' (walkChildren go n index r es) n id (index + r.length) [] := by
  induction r generalizing index s es with
  | nil =>
    obtain ⟨-, rfl⟩ := (yields_pure _ _ _ _).1 hfill
    exact ⟨.refl, h⟩
  | cons c r ih =>
    simp only [fill, yields_bind, yields_modify] at hfill
    obtain ⟨o, s₁, hvisit, _, s₂, rfl, hfill⟩ := hfill
    obtain ⟨hsteps, rfl, hec⟩ := hv c s es o s₁ h.tracks hvisit
    obtain ⟨hstep, hnext⟩ := h.next hsteps (hgo es c) hec
    obtain ⟨hrest, hend⟩ := ih (index + 1) _ _ hnext hfill
    rw [List.length_cons, Nat.add_comm r.length, ← Nat.add_assoc]
    exact ⟨(hsteps.tail hstep).trans hrest, hend⟩

theorem convert_steps (depth : Nat) (n : NodeId) (s : LoadState) (es : List (Event NodeId))
    (o : Object) (s' : LoadState) (ht : Tracks session nodes s es)
    (h : Yields (convert session nodes depth n) s o s') :
    Steps session nodes (s, es) (s', walk nodes.children depth es n) ∧ o = s'.result n ∧
      enter n ∈ walk nodes.children depth es n := by
  induction depth generalizing n s es o s' with
  | zero => exact absurd h (not_yields_throw _ _ _ _)
  | succ depth ih =>
    rw [yields_convert] at h
    by_cases hn : enter n ∈ es
    · -- a node that was met before has a result, or is given as pending
      rw [if_pos ((ht.met_iff n).2 hn)] at h
      obtain ⟨rfl, rfl⟩ := h
      simp only [walk, if_pos hn]
      exact ⟨.refl, trivial, hn⟩
    rw [if_neg (fun h => hn ((ht.met_iff n).1 h))] at h
    simp only [walk, if_neg hn]
    have hgo := goesOn_walk nodes.children depth
    have hfilled := fill_steps (fun n s es o s' ht h => ih n s es o s' ht h) hgo n
    by_cases hc : session.converterAt nodes n = none
    · rw [yields_convertNew_raw _ _ _ _ hc] at h
      obtain ⟨rfl, s₂, hfill, rfl⟩ := h
      have hstep : Step session nodes (s, es) _ := .enterRaw hn hc
      have hstart := Filling.start ht hn hstep (s.begin_built n _)
      obtain ⟨hsteps, hend⟩ := hfilled _ _ 0 _ _ s₂ hstart hfill
      refine ⟨((Relation.ReflTransGen.single hstep).trans hsteps).tail (.leaveRaw hend.ends hc), ?_,
        by simp [hend.entered]⟩
      have hdone := hsteps.lookup_done (n := n) hstart.tracks
        (by rw [LoadState.lookup_record, if_pos rfl])
      simp [LoadState.result, hdone]
    · obtain ⟨t, c, htag, hconv⟩ : ∃ t c, nodes.tag n = some t ∧
          session.registry.converterForTag t = some c := by
        obtain ⟨c, hc⟩ := Option.ne_none_iff_exists'.1 hc
        obtain ⟨t, ht, hc⟩ := Option.bind_eq_some_iff.1 hc
        exact ⟨t, c, ht, hc⟩
      rw [yields_convertNew_converted _ _ _ n t c htag hconv] at h
      obtain ⟨s₂, answer, objects, hfill, hcall, rfl, rfl⟩ := h
      have hstep : Step session nodes (s, es) _ := .enterConverted hn hc
      have hstart := Filling.start ht hn hstep ((s.enter n).begin_built n _)
      obtain ⟨hsteps, hend⟩ := hfilled _ _ 0 _ _ s₂ hstart hfill
      have hraw := ((s.enter n).isRaw_begin n (nodes.content n)).mono fun b => hsteps.mem_built
      refine ⟨((Relation.ReflTransGen.single hstep).trans hsteps).tail
        (.leaveConverted ⟨hend.ends, htag, hconv, hraw⟩ hcall), ?_, by simp [hend.entered]⟩
      simp [LoadState.result, LoadState.lookup_record]

end TaggedGraph.Load
