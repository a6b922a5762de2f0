import TaggedGraph.Proofs.Load.Step

namespace TaggedGraph

namespace LoadState

variable (s : LoadState) (n : NodeId) (ct : Content)

@[simp] theorem done_begin : (s.begin n ct).2.done = s.done := by cases ct <;> rfl
@[simp] theorem active_begin : (s.begin n ct).2.active = s.active := by cases ct <;> rfl
@[simp] theorem deferred_begin : (s.begin n ct).2.deferred = s.deferred := by cases ct <;> rfl
@[simp] theorem calls_begin : (s.begin n ct).2.calls = s.calls := by cases ct <;> rfl
@[simp] theorem waiting_begin : (s.begin n ct).2.waiting = s.waiting := by cases ct <;> rfl
@[simp] theorem active_record (o : Object) : (s.record n o).active = s.active := rfl
@[simp] theorem done_enter : (s.enter n).done = s.done := rfl
@[simp] theorem active_enter : (s.enter n).active = n :: s.active := rfl
@[simp] theorem done_leave : (s.leave n).done = s.done := rfl

theorem mem_built_begin {b : NodeId × ObjectId} (hb : b ∈ s.built) :
    b ∈ (s.begin n ct).2.built := by
  cases ct with
  | scalar => exact hb
  | sequence | mapping => exact List.mem_cons_of_mem _ hb

theorem begin_built (h : ct.children ≠ []) : (n, s.objects.size) ∈ (s.begin n ct).2.built := by
  cases ct with
  | scalar => exact absurd rfl h
  | sequence | mapping => exact List.mem_cons_self

theorem isRaw_begin : (s.begin n ct).2.IsRaw n ct (s.begin n ct).1 := by
  cases ct with
  | scalar => rfl
  | sequence | mapping => exact ⟨s.objects.size, List.mem_cons_self, rfl⟩

variable {s n ct} in
theorem IsRaw.mono {s' : LoadState} {raw : Object} (h : s.IsRaw n ct raw)
    (hs : ∀ b, b ∈ s.built → b ∈ s'.built) : s'.IsRaw n ct raw := by
  cases ct with
  | scalar => exact h
  | sequence | mapping =>
    obtain ⟨id, hb, rfl⟩ := h
    exact ⟨id, hs _ hb, rfl⟩

theorem mem_active_leave (x : NodeId) : x ∈ (s.leave n).active ↔ x ∈ s.active ∧ x ≠ n := by
  simp [leave]

theorem lookup_record (o : Object) (x : NodeId) :
    (s.record n o).done.lookup x = if x = n then some o else s.done.lookup x := by
  by_cases hx : x = n
  · simp [record, hx]
  · simp [record, List.lookup_cons, beq_eq_false_iff_ne.2 hx, hx]

theorem await_eq (o : Object) (slot : Slot) :
    s.await o slot = { s with waiting := (s.await o slot).waiting } := by
  cases o <;> rfl

@[simp] theorem done_put (id : ObjectId) (i : Nat) (o : Object) :
    (s.put id ct i o).done = s.done := by
  rw [put, await_eq]

@[simp] theorem active_put (id : ObjectId) (i : Nat) (o : Object) :
    (s.put id ct i o).active = s.active := by
  rw [put, await_eq]

@[simp] theorem built_put (id : ObjectId) (i : Nat) (o : Object) :
    (s.put id ct i o).built = s.built := by
  rw [put, await_eq]

theorem noted_eq (session : Session) (nodes : NodeGraph) :
    s.noted session nodes n = { s with
      unresolved := (s.noted session nodes n).unresolved
      warnings := (s.noted session nodes n).warnings } := by
  unfold noted noteUnresolved
  split
  · split <;> rfl
  · rfl

@[simp] theorem done_noted (session : Session) (nodes : NodeGraph) :
    (s.noted session nodes n).done = s.done := by
  rw [noted_eq]

@[simp] theorem active_noted (session : Session) (nodes : NodeGraph) :
    (s.noted session nodes n).active = s.active := by
  rw [noted_eq]

@[simp] theorem calls_record (o : Object) : (s.record n o).calls = s.calls := rfl
@[simp] theorem calls_enter : (s.enter n).calls = s.calls := rfl

@[simp] theorem calls_put (id : ObjectId) (i : Nat) (o : Object) :
    (s.put id ct i o).calls = s.calls := by
  rw [put, await_eq]

@[simp] theorem calls_noted (session : Session) (nodes : NodeGraph) :
    (s.noted session nodes n).calls = s.calls := by
  rw [noted_eq]

@[simp] theorem deferred_record (o : Object) : (s.record n o).deferred = s.deferred := rfl
@[simp] theorem deferred_enter : (s.enter n).deferred = s.deferred := rfl

@[simp] theorem deferred_put (id : ObjectId) (i : Nat) (o : Object) :
    (s.put id ct i o).deferred = s.deferred := by
  rw [put, await_eq]

@[simp] theorem deferred_noted (session : Session) (nodes : NodeGraph) :
    (s.noted session nodes n).deferred = s.deferred := by
  rw [noted_eq]

end LoadState

namespace Load

open Traversal Event

variable (session : Session) (nodes : NodeGraph)

/-- The tables of a load tell which nodes have been entered and which have their results. -/
structure Tracks (s : LoadState) (es : List (Event NodeId)) : Prop where
  done : ∀ n, (s.done.lookup n).isSome ↔ Settled session nodes es n
  active : ∀ n, n ∈ s.active ↔ enter n ∈ es ∧ ¬ Settled session nodes es n
  trace : Traced nodes.children es

variable {session nodes} {s : LoadState} {es : List (Event NodeId)}

theorem Calls.converterAt_eq {n : NodeId} {c : LoadedConverter Behaviour} {t : TagUri}
    {raw : Object} (h : Calls session nodes s es n c t raw) :
    session.converterAt nodes n = some c := by
  simp [Session.converterAt, h.tag, h.converter]

theorem Calls.converterAt_ne_none {n : NodeId} {c : LoadedConverter Behaviour} {t : TagUri}
    {raw : Object} (h : Calls session nodes s es n c t raw) :
    session.converterAt nodes n ≠ none := by
  simp [h.converterAt_eq]

theorem settled_of_none {n : NodeId} (h : session.converterAt nodes n = none) :
    Settled session nodes es n ↔ enter n ∈ es := by
  simp [Settled, h]

theorem settled_of_ne_none {n : NodeId} (h : session.converterAt nodes n ≠ none) :
    Settled session nodes es n ↔ leave n ∈ es := by
  simp [Settled, Option.isSome_iff_ne_none.2 h]

theorem Calls.not_settled {n : NodeId} {c : LoadedConverter Behaviour} {t : TagUri} {raw : Object}
    (h : Calls session nodes s es n c t raw) : ¬ Settled session nodes es n := by
  rw [settled_of_ne_none h.converterAt_ne_none]
  exact h.ends.not_left

theorem settled_enter (n x : NodeId) : Settled session nodes (es ++ [enter n]) x ↔
    Settled session nodes es x ∨ x = n ∧ session.converterAt nodes n = none := by
  by_cases hx : session.converterAt nodes x = none
  · have hn : x = n → session.converterAt nodes n = none := fun h => h ▸ hx
    rw [settled_of_none hx, settled_of_none hx]
    simpa using or_congr_right (and_iff_left_of_imp hn).symm
  · have hn : ¬ (x = n ∧ session.converterAt nodes n = none) := fun ⟨h, hc⟩ => hx (h ▸ hc)
    rw [settled_of_ne_none hx, settled_of_ne_none hx]
    simp [hn]

theorem settled_leave (n x : NodeId) : Settled session nodes (es ++ [leave n]) x ↔
    Settled session nodes es x ∨ x = n ∧ session.converterAt nodes n ≠ none := by
  by_cases hx : session.converterAt nodes x = none
  · have hn : ¬ (x = n ∧ session.converterAt nodes n ≠ none) := fun ⟨h, hc⟩ => hc (h ▸ hx)
    rw [settled_of_none hx, settled_of_none hx]
    simpa using fun h hc => (hn ⟨h, hc⟩).elim
  · have hn : x = n → session.converterAt nodes n ≠ none := fun h => h ▸ hx
    rw [settled_of_ne_none hx, settled_of_ne_none hx]
    simpa using or_congr_right (and_iff_left_of_imp hn).symm

theorem settled_refer (n i c x : Nat) :
    Settled session nodes (es ++ [refer n i c]) x ↔ Settled session nodes es x := by
  simp [Settled]

theorem Tracks.step {s' : LoadState} {es' : List (Event NodeId)}
    (hstep : Step session nodes (s, es) (s', es')) (h : Tracks session nodes s es) :
    Tracks session nodes s' es' := by
  obtain ⟨hd, ha, htr⟩ := h
  cases hstep with
  | @enterRaw _ _ n hn hc =>
    refine ⟨fun x => ?_, fun x => ?_, htr.snoc_enter n⟩
    · rw [LoadState.lookup_record, LoadState.done_begin, settled_enter, ← hd]
      by_cases hx : x = n <;> simp [hx, hc]
    · rw [LoadState.active_record, LoadState.active_begin, ha, settled_enter]
      by_cases hx : x = n <;> simp [hx, hn, hc]
  | @enterConverted _ _ n hn hc =>
    have hs : ¬ Settled session nodes es n := by
      rw [settled_of_ne_none hc]
      exact fun h => hn (htr.left n h)
    refine ⟨fun x => ?_, fun x => ?_, htr.snoc_enter n⟩
    · rw [LoadState.done_begin, LoadState.done_enter, settled_enter, hd]
      simp [hc]
    · rw [LoadState.active_begin, LoadState.active_enter, List.mem_cons, ha, settled_enter]
      by_cases hx : x = n <;> simp [hx, hs, hc]
  | refer hb hc he hn hr hec =>
    refine ⟨fun x => ?_, fun x => ?_, htr.snoc_refer he hec hc (by simp [hr])⟩
    · rw [LoadState.done_put, settled_refer, hd]
    · rw [LoadState.active_put, settled_refer, ha]
      simp
  | leaveRaw hends hc =>
    refine ⟨fun x => ?_, fun x => ?_, htr.snoc_leave hends.entered hends.refers⟩
    · rw [LoadState.done_noted, settled_leave, hd]
      simp [hc]
    · rw [LoadState.active_noted, settled_leave, ha]
      simp [hc]
  | @leaveConverted _ _ n c t raw answer objects hcalls =>
    have hc := hcalls.converterAt_ne_none
    refine ⟨fun x => ?_, fun x => ?_, htr.snoc_leave hcalls.ends.entered hcalls.ends.refers⟩
    · rw [LoadState.lookup_record, settled_leave, ← hd]
      by_cases hx : x = n <;> simp [hx, hc, LoadState.answered]
    · rw [LoadState.active_record, LoadState.mem_active_leave, settled_leave]
      simp only [LoadState.answered, ha]
      by_cases hx : x = n
      · simp only [hx, hc, ne_eq, not_true, not_false_eq_true, and_false, and_true, or_true]
      · simp [hx]

theorem Tracks.enter_of_settled (h : Tracks session nodes s es) {n : NodeId}
    (hn : Settled session nodes es n) : enter n ∈ es := by
  by_cases hc : session.converterAt nodes n = none
  · exact (settled_of_none hc).1 hn
  · exact h.trace.left n ((settled_of_ne_none hc).1 hn)

/-- The tables know exactly the nodes that were met. -/
theorem Tracks.met_iff (h : Tracks session nodes s es) (n : NodeId) :
    (s.done.lookup n).isSome ∨ n ∈ s.active ↔ enter n ∈ es := by
  rw [h.done, h.active]
  constructor
  · rintro (hn | hn)
    · exact h.enter_of_settled hn
    · exact hn.1
  · intro hn
    by_cases hs : Settled session nodes es n
    · exact .inl hs
    · exact .inr ⟨hn, hs⟩

theorem Tracks.lookup_none {n : NodeId} (h : Tracks session nodes s es)
    (hn : ¬ Settled session nodes es n) : s.done.lookup n = none :=
  Option.not_isSome_iff_eq_none.1 fun hs => hn ((h.done n).1 hs)

theorem Tracks.result_eq {n : NodeId} (h : Tracks session nodes s es)
    (hn : ¬ Settled session nodes es n) : s.result n = .pending n := by
  rw [LoadState.result, h.lookup_none hn]
  rfl

end Load

end TaggedGraph
