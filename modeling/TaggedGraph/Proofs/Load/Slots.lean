import TaggedGraph.Proofs.Load.Heaps

namespace TaggedGraph

namespace Load

open Traversal Event

variable (session : Session) (nodes : NodeGraph)

instance (es : List (Event NodeId)) (n : NodeId) : Decidable (Settled session nodes es n) :=
  inferInstanceAs
    (Decidable (if (session.converterAt nodes n).isSome then leave n ∈ es else enter n ∈ es))

/-- What a reference to node `c` was given after the events `pre`: the result of `c` if there was
one, else a pending reference. -/
def given (s : LoadState) (pre : List (Event NodeId)) (c : NodeId) : Object :=
  if Settled session nodes pre c then s.result c else .pending c

/-- What that reference holds now: the result of the node it was pending for, if that node had none
when the reference was given. -/
def held (s : LoadState) (pre : List (Event NodeId)) (c : NodeId) : Object :=
  match given session nodes s pre c with
  | .pending m => if Settled session nodes pre m then .pending m else s.result m
  | o => o

/-- Every list or map that was built holds one value for each reference made so far, and those
references wait whose node may still get a result. -/
structure Slots (s : LoadState) (es : List (Event NodeId)) : Prop where
  bound : ∀ b ∈ s.built, b.2 < s.objects.size
  node_inj : ∀ b ∈ s.built, ∀ b' ∈ s.built, b.1 = b'.1 → b = b'
  id_inj : ∀ b ∈ s.built, ∀ b' ∈ s.built, b.2 = b'.2 → b = b'
  made : ∀ n, enter n ∈ es → ∃ raw, s.IsRaw n (nodes.content n) raw
  entered : ∀ b ∈ s.built, enter b.1 ∈ es
  cell : ∀ b ∈ s.built, ∃ vs, (nodes.content b.1).Holds vs (s.objects.read b.2) ∧
    (∀ i, i < vs.length ↔ ∃ c, refer b.1 i c ∈ es) ∧
    ∀ pre i c, pre ++ [refer b.1 i c] <+: es → vs[i]? = some (held session nodes s pre c)
  waiting : ∀ w, w ∈ s.waiting ↔ ∃ b ∈ s.built, ∃ pre i c, pre ++ [refer b.1 i c] <+: es ∧
    w.2 = (nodes.content b.1).slot b.2 i ∧ given session nodes s pre c = .pending w.1 ∧
    (Settled session nodes pre w.1 ∨ s.done.lookup w.1 = none)

variable {session nodes} {s s' : LoadState} {es : List (Event NodeId)}

theorem result_congr (hd : s'.done = s.done) (n : NodeId) : s'.result n = s.result n := by
  rw [LoadState.result, hd, LoadState.result]

theorem given_congr (hd : s'.done = s.done) (pre : List (Event NodeId)) (c : NodeId) :
    given session nodes s' pre c = given session nodes s pre c := by
  rw [given, result_congr hd, given]

theorem held_congr (hd : s'.done = s.done) (pre : List (Event NodeId)) (c : NodeId) :
    held session nodes s' pre c = held session nodes s pre c := by
  simp only [held, given_congr hd, result_congr hd]

theorem Slots.congr (h : Slots session nodes s es) (hd : s'.done = s.done) (hb : s'.built = s.built)
    (hw : s'.waiting = s.waiting) (hsize : s.objects.size ≤ s'.objects.size)
    (hread : ∀ b ∈ s.built, s'.objects.read b.2 = s.objects.read b.2) :
    Slots session nodes s' es where
  bound b hb' := Nat.lt_of_lt_of_le (h.bound b (hb ▸ hb')) hsize
  node_inj := hb ▸ h.node_inj
  id_inj := hb ▸ h.id_inj
  made n hn := by
    obtain ⟨raw, hr⟩ := h.made n hn
    exact ⟨raw, hr.mono fun b hb' => hb ▸ hb'⟩
  entered := hb ▸ h.entered
  cell b hb' := by
    rw [hb] at hb'
    simpa only [hread b hb', held_congr hd] using h.cell b hb'
  waiting w := by simp only [hw, hb, given_congr hd, hd, h.waiting w]

theorem Slots.snoc_leave (h : Slots session nodes s es) (n : NodeId) :
    Slots session nodes s (es ++ [leave n]) where
  bound := h.bound
  node_inj := h.node_inj
  id_inj := h.id_inj
  made m hm := h.made m (by simpa using hm)
  entered b hb := by simpa using h.entered b hb
  cell b hb := by simpa [split_concat] using h.cell b hb
  waiting w := by simpa [split_concat] using h.waiting w

theorem Slots.exists_built (h : Slots session nodes s es) {n : NodeId} (he : enter n ∈ es)
    (hn : ∀ v, nodes.content n ≠ .scalar v) : ∃ id, (n, id) ∈ s.built := by
  obtain ⟨raw, hraw⟩ := h.made n he
  cases hct : nodes.content n with
  | scalar v => exact absurd hct (hn v)
  | sequence | mapping =>
    rw [hct] at hraw
    obtain ⟨id, hb, -⟩ := hraw
    exact ⟨id, hb⟩

theorem begin_cases (s : LoadState) (n : NodeId) (ct : Content) :
    (∃ v, ct = .scalar v ∧ s.begin n ct = (ofScalar v, s)) ∨
      ∃ c, ct.Holds [] c ∧ s.begin n ct = (.ref s.objects.size, s.make n c) := by
  cases ct with
  | scalar v => exact .inl ⟨v, rfl, rfl⟩
  | sequence => exact .inr ⟨_, ⟨rfl, Nat.zero_le _⟩, rfl⟩
  | mapping => exact .inr ⟨_, ⟨∅, rfl, by simp; rfl, Nat.zero_le _⟩, rfl⟩

theorem Slots.make {n : NodeId} {c : Cell} (h : Slots session nodes s es)
    (ht : Traced nodes.children es) (hn : enter n ∉ es) (hc : (nodes.content n).Holds [] c)
    (hmade : ∀ m, enter m ∈ es ++ [enter n] → ∃ raw, (s.make n c).IsRaw m (nodes.content m) raw) :
    Slots session nodes (s.make n c) (es ++ [enter n]) := by
  have hold (b : NodeId × ObjectId) (hb : b ∈ s.built) : b.1 ≠ n :=
    fun he => hn (he ▸ h.entered b hb)
  have hr (i : Nat) (d : NodeId) : refer n i d ∉ es := fun h => hn (ht.refers n i d h).1
  have hnew (pre : List (Event NodeId)) (i : Nat) (d : NodeId) : ¬ pre ++ [refer n i d] <+: es :=
    fun h => hr i d (mem_of_split h)
  constructor
  case bound =>
    intro b hb
    simp only [LoadState.make, Heap.size_alloc]
    rcases List.mem_cons.1 hb with rfl | hb
    · exact Nat.lt_succ_self _
    · exact Nat.lt_succ_of_lt (h.bound b hb)
  case node_inj =>
    intro b hb b' hb' he
    rcases List.mem_cons.1 hb with rfl | hb <;> rcases List.mem_cons.1 hb' with rfl | hb'
    · rfl
    · exact absurd he.symm (hold b' hb')
    · exact absurd he (hold b hb)
    · exact h.node_inj b hb b' hb' he
  case id_inj =>
    intro b hb b' hb' he
    rcases List.mem_cons.1 hb with rfl | hb <;> rcases List.mem_cons.1 hb' with rfl | hb'
    · rfl
    · exact absurd he (Nat.ne_of_gt (h.bound b' hb'))
    · exact absurd he (Nat.ne_of_lt (h.bound b hb))
    · exact h.id_inj b hb b' hb' he
  case made => exact hmade
  case entered =>
    intro b hb
    rcases List.mem_cons.1 hb with rfl | hb
    · simp
    · simp [h.entered b hb]
  case cell =>
    intro b hb
    rcases List.mem_cons.1 hb with rfl | hb
    · refine ⟨[], ?_, by simp [hr], fun pre i d hp => ?_⟩
      · simpa [LoadState.make, Heap.read_alloc_self] using hc
      · exact absurd (by simpa [split_concat] using hp) (hnew pre i d)
    · have := h.cell b hb
      simpa [split_concat, held_congr, LoadState.make, Heap.read_alloc_of_lt _ _ _ (h.bound b hb)]
  case waiting =>
    intro w
    apply (h.waiting w).trans
    constructor
    · rintro ⟨b, hb, pre, i, d, hp, hw⟩
      exact ⟨b, List.mem_cons_of_mem _ hb, pre, i, d, split_concat.2 (.inr hp), hw⟩
    · rintro ⟨b, hb, pre, i, d, hp, hw⟩
      have hp : pre ++ [refer b.1 i d] <+: es := by simpa [split_concat] using hp
      rcases List.mem_cons.1 hb with rfl | hb
      · exact absurd hp (hnew pre i d)
      · exact ⟨b, hb, pre, i, d, hp, hw⟩

theorem Slots.begin {n : NodeId} (h : Slots session nodes s es) (ht : Traced nodes.children es)
    (hn : enter n ∉ es) :
    Slots session nodes (s.begin n (nodes.content n)).2 (es ++ [enter n]) := by
  have hmade (m : NodeId) (hm : enter m ∈ es ++ [enter n]) :
      ∃ raw, (s.begin n (nodes.content n)).2.IsRaw m (nodes.content m) raw := by
    rcases List.mem_append.1 hm with hm | hm
    · obtain ⟨raw, hr⟩ := h.made m hm
      exact ⟨raw, hr.mono fun b => LoadState.mem_built_begin s n _⟩
    · cases List.mem_singleton.1 hm
      exact ⟨_, s.isRaw_begin n _⟩
  rcases begin_cases s n (nodes.content n) with ⟨v, -, hb⟩ | ⟨c, hc, hb⟩
  · rw [hb] at hmade ⊢
    refine ⟨h.bound, h.node_inj, h.id_inj, hmade, fun b hb => by simp [h.entered b hb],
      fun b hb => ?_, fun w => ?_⟩
    · simpa [split_concat] using h.cell b hb
    · simpa [split_concat] using h.waiting w
  · rw [hb] at hmade ⊢
    exact h.make ht hn hc hmade

theorem lookup_record_of_ne {n m : NodeId} (hm : m ≠ n) (o : Object) :
    (s.record n o).done.lookup m = s.done.lookup m := by
  rw [LoadState.lookup_record, if_neg hm]

theorem result_record (n : NodeId) (o : Object) (m : NodeId) :
    (s.record n o).result m = if m = n then o else s.result m := by
  rw [LoadState.result, LoadState.lookup_record]
  split <;> rfl

section
variable {pre : List (Event NodeId)} {n : NodeId}

theorem given_record (hs : ¬ Settled session nodes pre n) (o : Object) (c : NodeId) :
    given session nodes (s.record n o) pre c = given session nodes s pre c := by
  unfold given
  by_cases hc : Settled session nodes pre c
  · have hne : c ≠ n := fun he => hs (he ▸ hc)
    rw [if_pos hc, if_pos hc, result_record, if_neg hne]
  · rw [if_neg hc, if_neg hc]

theorem held_record (hs : ¬ Settled session nodes pre n) (o : Object) (c : NodeId) :
    held session nodes (s.record n o) pre c =
      if given session nodes s pre c = .pending n then o else held session nodes s pre c := by
  unfold held
  rw [given_record hs]
  cases given session nodes s pre c with
  | pending m =>
    by_cases hm : m = n
    · simp [hm, hs, result_record]
    · simp [hm, result_record]
  | _ => simp

end

section
variable {n : NodeId} (h : Slots session nodes s es) (ht : Traced nodes.children es)
  (hn : s.done.lookup n = none)
  (hs : ∀ pre p i c, pre ++ [refer p i c] <+: es → ¬ Settled session nodes pre n) (o : Object)
include h

/-- The slots of `b` that wait for `n` are those of its references that are pending for `n`. -/
theorem Slots.of_waiting {b : NodeId × ObjectId} (hb : b ∈ s.built) {w : NodeId × Slot}
    (hw : w ∈ s.waiting.filter (·.1 = n)) (hc : w.2.container = b.2) :
    ∃ pre i c, pre ++ [refer b.1 i c] <+: es ∧ w.2 = (nodes.content b.1).slot b.2 i ∧
      given session nodes s pre c = .pending n := by
  obtain ⟨hw, he⟩ := List.mem_filter.1 hw
  obtain ⟨b', hb', pre, i, c, hp, hslot, hg, -⟩ := (h.waiting w).1 hw
  -- the list or map that a slot is in tells its node
  obtain rfl := h.id_inj b' hb' b hb (by rw [← hc, hslot, Content.container_slot])
  exact ⟨pre, i, c, hp, hslot, by simpa using of_decide_eq_true he ▸ hg⟩

include ht hn in
/-- A slot waits for `n` just if its own reference is pending for `n`: no two references of a node
share a slot. -/
theorem Slots.mem_waiting_iff {b : NodeId × ObjectId} (hb : b ∈ s.built)
    {pre : List (Event NodeId)} {i : Nat} {c : NodeId} (hp : pre ++ [refer b.1 i c] <+: es) :
    (nodes.content b.1).slot b.2 i ∈ (s.waiting.filter (·.1 = n)).map Prod.snd ↔
      given session nodes s pre c = .pending n := by
  constructor
  · intro hmem
    obtain ⟨w, hw, hslot⟩ := List.mem_map.1 hmem
    obtain ⟨pre', j, d, hp', hslot', hg'⟩ :=
      h.of_waiting hb hw (by rw [hslot, Content.container_slot])
    have hc := (ht.refers _ _ _ (mem_of_split hp)).2.2
    have hd := (ht.refers _ _ _ (mem_of_split hp')).2.2
    have hi : i < (nodes.content b.1).children.length := (List.getElem?_eq_some_iff.1 hc).1
    have hj : j < (nodes.content b.1).children.length := (List.getElem?_eq_some_iff.1 hd).1
    obtain rfl : i = j := (nodes.content b.1).slot_inj hi hj (hslot.symm.trans hslot')
    obtain rfl : c = d := Option.some.inj (hc.symm.trans hd)
    obtain rfl := ht.once _ _ _ _ _ hp hp'
    exact hg'
  · intro hg
    apply List.mem_map.2
    refine ⟨(n, (nodes.content b.1).slot b.2 i), List.mem_filter.2 ⟨?_, by simp⟩, rfl⟩
    exact (h.waiting _).2 ⟨b, hb, pre, i, c, hp, rfl, hg, .inr hn⟩

include hs

include ht hn in
theorem Slots.cell_record {b : NodeId × ObjectId} (hb : b ∈ s.built) :
    ∃ vs, (nodes.content b.1).Holds vs ((s.record n o).objects.read b.2) ∧
      (∀ i, i < vs.length ↔ ∃ c, refer b.1 i c ∈ es) ∧
      ∀ pre i c, pre ++ [refer b.1 i c] <+: es →
        vs[i]? = some (held session nodes (s.record n o) pre c) := by
  obtain ⟨vs, hvs, hlen, hheld⟩ := h.cell b hb
  -- the slots that wait for `n` now hold `o`, the others what they held
  have hfilled := hvs.fillAll o (s.waiting.filter (·.1 = n)) vs s.objects (h.bound b hb)
  obtain ⟨vs', hvs', hlen', hall⟩ := hfilled fun w hw hc => by
    obtain ⟨pre, i, c, hp, hslot, -⟩ := h.of_waiting hb hw hc
    exact ⟨i, (hlen i).2 ⟨c, mem_of_split hp⟩, hslot⟩
  refine ⟨vs', hvs', by simpa [hlen'] using hlen, fun pre i c hp => ?_⟩
  have hi := (hlen i).2 ⟨c, mem_of_split hp⟩
  have hwaits := h.mem_waiting_iff ht hn hb hp
  rw [held_record (hs _ _ _ _ hp)]
  by_cases hg : given session nodes s pre c = .pending n
  · rw [if_pos hg]
    exact (hall i hi).1 (hwaits.2 hg)
  · rw [if_neg hg, (hall i hi).2 fun hmem => hg (hwaits.1 hmem), hheld pre i c hp]

theorem Slots.waiting_record (w : NodeId × Slot) :
    w ∈ (s.record n o).waiting ↔ ∃ b ∈ s.built, ∃ pre i c, pre ++ [refer b.1 i c] <+: es ∧
      w.2 = (nodes.content b.1).slot b.2 i ∧
      given session nodes (s.record n o) pre c = .pending w.1 ∧
      (Settled session nodes pre w.1 ∨ (s.record n o).done.lookup w.1 = none) := by
  have hw : w ∈ (s.record n o).waiting ↔ w ∈ s.waiting ∧ w.1 ≠ n := by
    simp [LoadState.record]
  rw [hw, h.waiting w]
  constructor
  · rintro ⟨⟨b, hb, pre, i, c, hp, hslot, hg, hset⟩, hne⟩
    refine ⟨b, hb, pre, i, c, hp, hslot, ?_, ?_⟩
    · rwa [given_record (hs _ _ _ _ hp)]
    · rwa [lookup_record_of_ne hne]
  · rintro ⟨b, hb, pre, i, c, hp, hslot, hg, hset⟩
    rw [given_record (hs _ _ _ _ hp)] at hg
    have hne : w.1 ≠ n := by
      intro he
      rw [he, LoadState.lookup_record, if_pos rfl] at hset
      exact hset.elim (hs _ _ _ _ hp) (Option.some_ne_none o)
    rw [lookup_record_of_ne hne] at hset
    exact ⟨⟨b, hb, pre, i, c, hp, hslot, hg, hset⟩, hne⟩

include ht hn in
theorem Slots.record : Slots session nodes (s.record n o) es where
  bound b hb := by
    have := h.bound b hb
    exact (size_fillAll o _ s.objects).symm ▸ this
  node_inj := h.node_inj
  id_inj := h.id_inj
  made m hm := by
    obtain ⟨raw, hr⟩ := h.made m hm
    exact ⟨raw, hr.mono fun b hb => hb⟩
  entered := h.entered
  cell _ hb := h.cell_record ht hn hs o hb
  waiting := h.waiting_record hs o

end

theorem mem_waiting_await (s : LoadState) (o : Object) (slot : Slot) (w : NodeId × Slot) :
    w ∈ (s.await o slot).waiting ↔ w ∈ s.waiting ∨ o = .pending w.1 ∧ w.2 = slot := by
  obtain ⟨m, slot'⟩ := w
  cases o <;> simp [LoadState.await, eq_comm]

theorem objects_put (s : LoadState) (id : ObjectId) (ct : Content) (i : Nat) (o : Object) :
    (s.put id ct i o).objects = (ct.slot id i).extend o s.objects := by
  rw [LoadState.put, LoadState.await_eq]

theorem given_now (ht : Tracks session nodes s es) (c : NodeId) :
    given session nodes s es c = s.result c := by
  unfold given
  split
  · rfl
  · rename_i hc
    exact (ht.result_eq hc).symm

theorem held_now (ht : Tracks session nodes s es) (c : NodeId) :
    held session nodes s es c = s.result c := by
  unfold held
  rw [given_now ht]
  split
  · rename_i m hm
    split
    · exact hm.symm
    · rename_i hs
      rw [hm, ht.result_eq hs]
  · rfl

section
variable {n c : NodeId} {id : ObjectId} {index : Nat} (h : Slots session nodes s es)
  (ht : Tracks session nodes s es) (hb : (n, id) ∈ s.built)
  (hc : (nodes.children n)[index]? = some c)
  (hr : ∀ i d, refer n i d ∈ es ↔ i < index ∧ (nodes.children n)[i]? = some d)
include h ht hb

include hc hr in
theorem Slots.cell_put_self :
    ∃ vs, (nodes.content n).Holds vs
        ((s.put id (nodes.content n) index (s.result c)).objects.read id) ∧
      (∀ i, i < vs.length ↔ ∃ d, refer n i d ∈ es ++ [refer n index c]) ∧
      ∀ pre i d, pre ++ [refer n i d] <+: es ++ [refer n index c] →
        vs[i]? = some (held session nodes s pre d) := by
  have hindex : index < (nodes.children n).length := (List.getElem?_eq_some_iff.1 hc).1
  obtain ⟨vs, hvs, hlen, hheld⟩ := h.cell _ hb
  -- the slots are filled in the order of the children
  have hnext := count_refers (Nat.le_of_lt hindex) hr hlen
  subst hnext
  refine ⟨vs ++ [s.result c], ?_, fun i => ?_, fun pre i d hp => ?_⟩
  · rw [objects_put]
    exact hvs.extend (h.bound _ hb) hindex _
  · rw [List.length_append, List.length_singleton]
    constructor
    · intro hi
      by_cases hlt : i < vs.length
      · obtain ⟨d, hd⟩ := (hlen i).1 hlt
        exact ⟨d, by simp [hd]⟩
      · obtain rfl : i = vs.length := by omega
        exact ⟨c, by simp⟩
    · intro ⟨d, hd⟩
      rcases List.mem_append.1 hd with hd | hd
      · have := (hlen i).2 ⟨d, hd⟩
        omega
      · cases List.mem_singleton.1 hd
        omega
  · rcases split_concat.1 hp with ⟨rfl, he⟩ | hp
    · cases he
      simp [held_now ht]
    · have hi := (hlen i).2 ⟨d, mem_of_split hp⟩
      rw [List.getElem?_append_left hi, hheld pre i d hp]

theorem Slots.waiting_put (w : NodeId × Slot) :
    w ∈ (s.put id (nodes.content n) index (s.result c)).waiting ↔
      ∃ b ∈ s.built, ∃ pre i d, pre ++ [refer b.1 i d] <+: es ++ [refer n index c] ∧
        w.2 = (nodes.content b.1).slot b.2 i ∧ given session nodes s pre d = .pending w.1 ∧
        (Settled session nodes pre w.1 ∨ s.done.lookup w.1 = none) := by
  have hw : w ∈ (s.put id (nodes.content n) index (s.result c)).waiting ↔
      w ∈ s.waiting ∨ s.result c = .pending w.1 ∧ w.2 = (nodes.content n).slot id index :=
    mem_waiting_await _ _ _ _
  rw [hw]
  constructor
  · rintro (hw | ⟨hres, hslot⟩)
    · obtain ⟨b, hb, pre, i, d, hp, hw⟩ := (h.waiting w).1 hw
      exact ⟨b, hb, pre, i, d, split_concat.2 (.inr hp), hw⟩
    · refine ⟨(n, id), hb, es, index, c, List.prefix_rfl, hslot, ?_, ?_⟩
      · rw [given_now ht, hres]
      · by_cases hs : Settled session nodes es w.1
        · exact .inl hs
        · exact .inr (ht.lookup_none hs)
  · intro ⟨b, hb', pre, i, d, hp, hslot, hgiven, hset⟩
    rcases split_concat.1 hp with ⟨rfl, he⟩ | hp
    · injection he with h1 h2 h3
      obtain rfl := h.node_inj b hb' (n, id) hb h1
      subst h2 h3
      exact .inr ⟨(given_now ht _).symm.trans hgiven, hslot⟩
    · exact .inl ((h.waiting w).2 ⟨b, hb', pre, i, d, hp, hslot, hgiven, hset⟩)

include hc hr in
theorem Slots.put :
    Slots session nodes (s.put id (nodes.content n) index (s.result c))
      (es ++ [refer n index c]) := by
  have hdone := s.done_put (nodes.content n) id index (s.result c)
  constructor
  case bound =>
    intro b hb
    rw [LoadState.built_put] at hb
    rw [objects_put, Slot.size_extend]
    exact h.bound b hb
  case node_inj =>
    rw [LoadState.built_put]
    exact h.node_inj
  case id_inj =>
    rw [LoadState.built_put]
    exact h.id_inj
  case made =>
    intro m hm
    obtain ⟨raw, hraw⟩ := h.made m (by simpa using hm)
    exact ⟨raw, hraw.mono fun b hb => by rwa [LoadState.built_put]⟩
  case entered =>
    intro b hb
    rw [LoadState.built_put] at hb
    simp [h.entered b hb]
  case cell =>
    intro b hb'
    rw [LoadState.built_put] at hb'
    simp only [held_congr hdone]
    by_cases he : b = (n, id)
    · rw [he]
      exact h.cell_put_self ht hb hc hr
    · have hne : b.1 ≠ n := fun hn => he (h.node_inj b hb' _ hb hn)
      have hid : id ≠ b.2 := fun hid => he (h.id_inj b hb' _ hb hid.symm)
      have hread := Slot.read_extend_of_ne (s.result c) s.objects
        ((nodes.content n).slot id index) (by simpa using hid)
      rw [objects_put, hread]
      simpa [split_concat, hne] using h.cell b hb'
  case waiting =>
    intro w
    simp only [LoadState.built_put, LoadState.done_put, given_congr hdone]
    exact h.waiting_put ht hb w

end

theorem Settled.mono {es' : List (Event NodeId)} {n : NodeId} (h : Settled session nodes es n)
    (hes : es <+: es') : Settled session nodes es' n := by
  by_cases hc : session.converterAt nodes n = none
  · rw [settled_of_none hc] at h ⊢
    exact hes.subset h
  · rw [settled_of_ne_none hc] at h ⊢
    exact hes.subset h

theorem Slots.step {es' : List (Event NodeId)} (hstep : Step session nodes (s, es) (s', es'))
    (ht : Tracks session nodes s es)
    (hspares : ∀ call, s'.calls = s.calls ++ [call] → call.Spares session.context s.built)
    (h : Slots session nodes s es) : Slots session nodes s' es' := by
  have htr := ht.trace
  cases hstep with
  | @enterRaw _ _ n hn hc =>
    have hs : ¬ Settled session nodes es n := fun hs => hn (ht.enter_of_settled hs)
    refine (h.begin htr hn).record (htr.snoc_enter n) ?_ ?_ _
    · rw [LoadState.done_begin]
      exact ht.lookup_none hs
    · intro pre p i c hp hpre
      have hp : pre ++ [refer p i c] <+: es := by simpa [split_concat] using hp
      exact hs (hpre.mono ((List.prefix_append _ _).trans hp))
  | @enterConverted _ _ n hn hc =>
    -- only the list of active nodes changes before the node is begun
    have henter : Slots session nodes (s.enter n) es :=
      h.congr rfl rfl rfl (Nat.le_refl _) fun _ _ => rfl
    exact henter.begin htr hn
  | refer hb hc he hn hr hec => exact h.put ht hb hc hr
  | @leaveRaw _ _ n hends hc =>
    have hnoted : Slots session nodes (s.noted session nodes n) es := by
      rw [LoadState.noted_eq]
      exact h.congr rfl rfl rfl (Nat.le_refl _) fun _ _ => rfl
    exact hnoted.snoc_leave n
  | @leaveConverted _ _ n c t raw answer objects hn hcall =>
    have hs := hn.not_settled
    have hafter : (LoadCall.fromTree c t raw s.objects).after session.context = objects :=
      congrArg Prod.snd hcall
    obtain ⟨hsize, hread⟩ := hspares (.fromTree c t raw s.objects) rfl
    rw [hafter] at hsize hread
    -- the converter has changed no list or map, then the slots that wait are filled
    have hanswer : Slots session nodes ((s.answered c t raw answer objects).leave n) es :=
      h.congr rfl rfl rfl hsize fun b hb => hread b hb (h.bound b hb)
    refine (hanswer.record htr ?_ ?_ _).snoc_leave _
    · exact ht.lookup_none hs
    · intro pre p i c hp hpre
      exact hs (hpre.mono ((List.prefix_append _ _).trans hp))

theorem Slots.nil (objects : ObjectGraph) (warnings : Warnings) :
    Slots session nodes (LoadState.start objects warnings) [] := by
  constructor <;> simp [LoadState.start]

theorem Tracks.nil (objects : ObjectGraph) (warnings : Warnings) :
    Tracks session nodes (LoadState.start objects warnings) [] := by
  refine ⟨fun n => ?_, fun n => ?_, .nil⟩ <;> simp [LoadState.start, Settled]

/-- What holds of the slots after the steps from the start. -/
theorem Steps.slots {objects : ObjectGraph} {warnings : Warnings} {es' : List (Event NodeId)}
    (h : Steps session nodes (LoadState.start objects warnings, []) (s', es'))
    (hspares : ∀ call ∈ s'.calls, call.Spares session.context s'.built) :
    Slots session nodes s' es' := by
  -- what was built and called so far is a part of what is built and called in the end
  have key := h.keeps (J := fun s es => Tracks session nodes s es ∧
    ((∀ b ∈ s.built, b ∈ s'.built) → (∀ call ∈ s.calls, call ∈ s'.calls) →
      Slots session nodes s es)) ?_ ?_
  · exact key.2 (fun _ hb => hb) fun _ hcall => hcall
  · intro s es t es'' hstep ⟨ht, hslots⟩
    refine ⟨ht.step hstep, fun hbuilt hcalls => ?_⟩
    have hb : ∀ b ∈ s.built, b ∈ s'.built := fun b hbs => hbuilt b (hstep.mem_built hbs)
    have hc : ∀ call ∈ s.calls, call ∈ s'.calls := fun c hcs => hcalls c (hstep.calls_grow c hcs)
    refine (hslots hb hc).step hstep ht fun call hcall => ?_
    exact (hspares call (hcalls call (by simp [hcall]))).mono hb
  · exact ⟨.nil _ _, fun _ _ => .nil _ _⟩

end Load

end TaggedGraph
