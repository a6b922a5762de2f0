import TaggedGraph.Proofs.Load.Step

namespace TaggedGraph.Load
open Traversal Event

def fill (visit : NodeId → LoadM Object) (id : ObjectId) (ct : Content) :
    (index : Nat) → List NodeId → LoadM Unit
  | _, [] => return
  | index, n :: r => do
    let o ← visit n
    modify fun s => s.put id ct index o
    fill visit id ct (index + 1) r

variable (visit : NodeId → LoadM Object) (id : ObjectId)

theorem fillList_eq (items : List NodeId) (index : Nat) (r : List NodeId) :
    fillList visit id index r = fill visit id (.sequence items) index r := by
  induction r generalizing index with
  | nil => rfl
  | cons n r ih =>
    simp only [fillList, fill, ih]
    rfl

theorem fillMap_eq (entries : OrderedMap NodeId) (index : Nat) (r : List (String × NodeId))
    (hr : entries.entries.drop index = r) :
    fillMap visit id r = fill visit id (.mapping entries) index (r.map Prod.snd) := by
  induction r generalizing index with
  | nil => rfl
  | cons e r ih =>
    obtain ⟨key, n⟩ := e
    have hk : entries.keys.getD index "" = key := by
      have : entries.entries[index]? = some (key, n) := by
        rw [← List.head?_drop, hr]; rfl
      simp [OrderedMap.keys, this]
    have ht : entries.entries.drop (index + 1) = r := by
      rw [← List.tail_drop, hr, List.tail_cons]
    simp only [fillMap, fill, ih (index + 1) ht, List.map_cons, LoadState.put, Content.slot, hk]
    rfl

theorem yields_convertContent (publish : Object → LoadM Unit) (n : NodeId) (ct : Content)
    (s : LoadState) (o : Object) (s' : LoadState) :
    Yields (convertContent visit publish n ct) s o s' ↔
      o = (s.begin n ct).1 ∧ ∃ s₁, Yields (publish o) (s.begin n ct).2 () s₁ ∧
        Yields (fill visit s.objects.size ct 0 ct.children) s₁ () s' := by
  cases ct with
  | scalar v => 
    simp only [convertContent, yields_bind, yields_pure, LoadState.begin, Content.children, fill]
    constructor
    · rintro ⟨_, s₁, hp, rfl, rfl⟩
      exact ⟨rfl, s', hp, trivial, rfl⟩
    · rintro ⟨rfl, s₁, hp, -, rfl⟩
      exact ⟨(), s', hp, rfl, rfl⟩
  | sequence items =>
    simp only [convertContent, newCell, yields_bind, yields_pure, yields_get, yields_set,
      LoadState.begin, Content.children, fillList_eq visit _ items]
    constructor
    · rintro ⟨id, s₀, ⟨_, _, ⟨rfl, rfl⟩, _, _, rfl, rfl, rfl⟩, _, s₁, hp, _, s₂, hf, rfl, rfl⟩
      exact ⟨rfl, s₁, hp, hf⟩
    · rintro ⟨rfl, s₁, hp, hf⟩
      exact ⟨_, _, ⟨_, _, ⟨rfl, rfl⟩, (), _, rfl, rfl, rfl⟩, (), s₁, hp, (), s', hf, rfl, rfl⟩
  | mapping entries =>
    simp only [convertContent, newCell, yields_bind, yields_pure, yields_get, yields_set,
      LoadState.begin, Content.children, fillMap_eq visit _ entries 0 entries.entries rfl]
    constructor
    · rintro ⟨id, s₀, ⟨_, _, ⟨rfl, rfl⟩, _, _, rfl, rfl, rfl⟩, _, s₁, hp, _, s₂, hf, rfl, rfl⟩
      exact ⟨rfl, s₁, hp, hf⟩
    · rintro ⟨rfl, s₁, hp, hf⟩
      exact ⟨_, _, ⟨_, _, ⟨rfl, rfl⟩, (), _, rfl, rfl, rfl⟩, (), s₁, hp, (), s', hf, rfl, rfl⟩

variable (session : Session) (nodes : NodeGraph)

theorem yields_runConverter {α : Type} (c : LoadedConverter Behaviour) (t : TagUri)
    (steps : GraphM α) (s : LoadState) (a : α) (s' : LoadState) :
    Yields (runConverter c t steps) s a s' ↔
      ∃ objects, Yields steps s.objects a objects ∧ s' = { s with objects } := by
  refine yields_iff_of_run
    (fun message => .failed (.converterFailed (some t) c.className message)) ?_ a s'
  rw [runConverter, run_get_bind]
  generalize steps.run s.objects = p
  obtain ⟨r, objects⟩ := p
  cases r <;> rfl

theorem yields_callConverter (c : LoadedConverter Behaviour) (t : TagUri) (raw : Object)
    (s : LoadState) (o : Object) (s' : LoadState) :
    Yields (callConverter session c t raw) s o s' ↔ ∃ answer objects,
      Yields (c.converter.behaviour.fromTree session.context raw t) s.objects answer objects ∧
        o = answer.object ∧ s' = s.answered c t raw answer objects := by
  simp only [callConverter, yields_bind, yields_modify, yields_runConverter]
  constructor
  · rintro ⟨_, _, rfl, answer, _, ⟨objects, hcall, rfl⟩, h⟩
    refine ⟨answer, objects, hcall, ?_⟩
    cases answer <;> cases h <;> exact ⟨rfl, rfl⟩
  · rintro ⟨answer, objects, hcall, rfl, rfl⟩
    refine ⟨(), _, rfl, answer, _, ⟨objects, hcall, rfl⟩, ?_⟩
    cases answer <;> rfl

theorem yields_convertNew_raw (n : NodeId) (hc : session.converterAt nodes n = none)
    (s : LoadState) (o : Object) (s' : LoadState) :
    Yields (convertNew session nodes visit n) s o s' ↔
      o = (s.begin n (nodes.content n)).1 ∧ ∃ s₂,
        Yields (fill visit s.objects.size (nodes.content n) 0 (nodes.children n))
          ((s.begin n (nodes.content n)).2.record n o) () s₂ ∧ s' = s₂.noted session nodes n := by
  unfold convertNew LoadState.noted
  cases ht : nodes.tag n with
  | none =>
    simp only [yields_convertContent, yields_modify]
    constructor
    · rintro ⟨rfl, _, rfl, hf⟩
      exact ⟨rfl, s', hf, rfl⟩
    · rintro ⟨rfl, _, hf, rfl⟩
      exact ⟨rfl, _, rfl, hf⟩
  | some t =>
    have hc : session.registry.converterForTag t = none := by
      simpa [Session.converterAt, ht] using hc
    simp only [hc, yields_bind, yields_convertContent, yields_modify, yields_pure]
    constructor
    · rintro ⟨_, s₂, ⟨rfl, _, rfl, hf⟩, _, _, rfl, rfl, rfl⟩
      exact ⟨rfl, s₂, hf, rfl⟩
    · rintro ⟨rfl, s₂, hf, rfl⟩
      exact ⟨_, s₂, ⟨rfl, _, rfl, hf⟩, (), _, rfl, rfl, rfl⟩

theorem yields_convertNew_converted (n : NodeId) (t : TagUri) (c : LoadedConverter Behaviour)
    (ht : nodes.tag n = some t) (hc : session.registry.converterForTag t = some c)
    (s : LoadState) (o : Object) (s' : LoadState) :
    Yields (convertNew session nodes visit n) s o s' ↔ ∃ s₂ answer objects,
      Yields (fill visit s.objects.size (nodes.content n) 0 (nodes.children n))
        ((s.enter n).begin n (nodes.content n)).2 () s₂ ∧
      Yields (c.converter.behaviour.fromTree session.context
        ((s.enter n).begin n (nodes.content n)).1 t) s₂.objects answer objects ∧
      o = answer.object ∧ s' = ((s₂.answered c t ((s.enter n).begin n (nodes.content n)).1 answer
        objects).leave n).record n answer.object := by
  unfold convertNew
  simp only [ht, hc, yields_bind, yields_convertContent, yields_modify, yields_pure,
    yields_callConverter]
  constructor
  · rintro ⟨_, _, rfl, _, s₂, ⟨rfl, _, ⟨-, rfl⟩, hf⟩, _, _, ⟨answer, objects, hcall, rfl, rfl⟩, _,
      _, rfl, rfl, rfl⟩
    exact ⟨s₂, answer, objects, hf, hcall, rfl, rfl⟩
  · rintro ⟨s₂, answer, objects, hf, hcall, rfl, rfl⟩
    exact ⟨(), _, rfl, _, s₂, ⟨rfl, _, ⟨trivial, rfl⟩, hf⟩, _, _,
      ⟨answer, objects, hcall, rfl, rfl⟩, (), _, rfl, rfl, rfl⟩

theorem run_convert (depth : Nat) (n : NodeId) (s : LoadState) :
    (convert session nodes (depth + 1) n).run s =
      if (s.done.lookup n).isSome ∨ n ∈ s.active then (.ok (s.result n), s)
      else (convertNew session nodes (convert session nodes depth) n).run s := by
  rw [convert, run_get_bind, LoadState.result]
  cases s.done.lookup n with
  | some o => exact (if_pos (Or.inl rfl)).symm
  | none =>
    by_cases ha : n ∈ s.active
    · rw [if_pos ha]
      exact (if_pos (Or.inr ha)).symm
    · rw [if_neg ha, if_neg (by simpa using ha)]

theorem yields_convert (depth : Nat) (n : NodeId) (s : LoadState) (o : Object) (s' : LoadState) :
    Yields (convert session nodes (depth + 1) n) s o s' ↔
      if (s.done.lookup n).isSome ∨ n ∈ s.active then o = s.result n ∧ s' = s
      else Yields (convertNew session nodes (convert session nodes depth) n) s o s' := by
  rw [Yields, run_convert]
  split
  · exact yields_pure (s.result n) s o s'
  · rfl

end TaggedGraph.Load
