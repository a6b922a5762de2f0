import TaggedGraph.Proofs.Save.Step

namespace TaggedGraph

open Traversal Event

namespace SaveState

variable (s : SaveState) (id : ObjectId) (src : Source) (o : Object)

@[simp] theorem memo_meet : (s.meet o).memo = s.memo := by
  unfold meet
  split <;> rfl

@[simp] theorem sources_meet : (s.meet o).sources = s.sources := by
  unfold meet
  split <;> rfl

@[simp] theorem objects_meet : (s.meet o).objects = s.objects := by
  unfold meet
  split <;> rfl

@[simp] theorem calls_meet : (s.meet o).calls = s.calls := by
  unfold meet
  split <;> rfl

@[simp] theorem memo_put (i : Nat) (m : NodeId) : (s.put id src i m).memo = s.memo := rfl

@[simp] theorem sources_put (i : Nat) (m : NodeId) : (s.put id src i m).sources = s.sources := rfl

variable {s id o} in
theorem put_meet {n : NodeId} (hn : s.memo.lookup id = some n) (i : Nat) (m : NodeId) :
    (s.meet o).put id src i m =
      { s.meet o with nodes := src.put n m i (s.meet o).nodes } := by
  have hid : (s.meet o).nodeId (.ref id) = n := by simp [nodeId, hn]
  rw [put, hid]

theorem links_congr {s s' : SaveState} (h : s'.sources = s.sources) (p : Object) :
    s'.links p = s.links p := by
  cases p <;> simp [links, h]

variable {s id src} in
theorem links_eq (h : s.sources.lookup id = some src) : s.links (.ref id) = src.parts := by
  simp [links, h]

theorem links_of_scalar (h : o.scalar?.isSome) : s.links o = [] := by
  cases o <;> simp [links, Object.scalar?] at h ⊢

theorem lookup_memo_enter (objects : ObjectGraph) (calls : List Call) (x : ObjectId) :
    (s.enter id src objects calls).memo.lookup x =
      if x = id then some s.nodes.size else s.memo.lookup x := by
  by_cases hx : x = id
  · simp [enter, hx]
  · simp [enter, List.lookup_cons, beq_eq_false_iff_ne.2 hx, hx]

theorem lookup_sources_enter (objects : ObjectGraph) (calls : List Call) (x : ObjectId) :
    (s.enter id src objects calls).sources.lookup x =
      if x = id then some src else s.sources.lookup x := by
  by_cases hx : x = id
  · simp [enter, hx]
  · simp [enter, List.lookup_cons, beq_eq_false_iff_ne.2 hx, hx]

theorem links_enter_of_ne (objects : ObjectGraph) (calls : List Call) {p : Object}
    (hp : p ≠ .ref id) : (s.enter id src objects calls).links p = s.links p := by
  cases p with
  | ref x =>
    have hx : x ≠ id := fun he => hp (he ▸ rfl)
    simp [links, lookup_sources_enter, hx]
  | _ => rfl

end SaveState

namespace Save

/-- The tables of a save tell which lists, maps and instances have been entered. -/
structure Tracks (s : SaveState) (es : List (Event Object)) : Prop where
  memo : ∀ id, (s.memo.lookup id).isSome ↔ enter (.ref id) ∈ es
  sources : ∀ id, (s.sources.lookup id).isSome ↔ enter (.ref id) ∈ es
  pending : ∀ m, enter (.pending m) ∉ es
  scalar : ∀ o : Object, o.scalar?.isSome → enter o ∈ es → leave o ∈ es
  trace : Traced s.links es

variable {session : Session} {s s' : SaveState} {es es' : List (Event Object)}

section
variable {id : ObjectId} (h : Tracks s es)
include h

theorem Tracks.exists_memo (he : enter (.ref id) ∈ es) : ∃ n, s.memo.lookup id = some n :=
  Option.isSome_iff_exists.1 ((h.memo id).2 he)

theorem Tracks.exists_source (he : enter (.ref id) ∈ es) : ∃ src, s.sources.lookup id = some src :=
  Option.isSome_iff_exists.1 ((h.sources id).2 he)

theorem Tracks.memo_none (he : enter (.ref id) ∉ es) : s.memo.lookup id = none :=
  Option.not_isSome_iff_eq_none.1 fun hs => he ((h.memo id).1 hs)

theorem Tracks.source_none (he : enter (.ref id) ∉ es) : s.sources.lookup id = none :=
  Option.not_isSome_iff_eq_none.1 fun hs => he ((h.sources id).1 hs)

end

theorem mem_meet_refer {o p d : Object} {i : Nat} : refer p i d ∈ meet o es ↔ refer p i d ∈ es := by
  unfold meet
  split <;> simp

theorem mem_meet_enter {o p : Object} :
    enter p ∈ meet o es ↔ enter p ∈ es ∨ o.scalar?.isSome ∧ p = o := by
  unfold meet
  split
  · rename_i h
    simp [h.1]
  · rename_i h
    constructor
    · exact .inl
    · rintro (hp | ⟨ho, rfl⟩)
      · exact hp
      · exact Classical.byContradiction fun hp => h ⟨ho, hp⟩

theorem mem_meet_leave {o p : Object} :
    leave p ∈ meet o es ↔ leave p ∈ es ∨ o.scalar?.isSome ∧ enter o ∉ es ∧ p = o := by
  unfold meet
  split
  · rename_i h
    simp [h.1, h.2]
  · rename_i h
    refine (or_iff_left ?_).symm
    rintro ⟨ho, he, -⟩
    exact h ⟨ho, he⟩

theorem enter_meet_of_none {o p : Object} (hp : p.scalar? = none) :
    enter p ∈ meet o es ↔ enter p ∈ es := by
  rw [mem_meet_enter]
  apply or_iff_left
  rintro ⟨ho, rfl⟩
  simp [hp] at ho

@[simp] theorem enter_ref_meet {o : Object} {x : ObjectId} :
    enter (.ref x) ∈ meet o es ↔ enter (.ref x) ∈ es :=
  enter_meet_of_none rfl

@[simp] theorem enter_pending_meet {o : Object} {m : NodeId} :
    enter (.pending m) ∈ meet o es ↔ enter (.pending m) ∈ es :=
  enter_meet_of_none rfl

theorem prefix_meet (o : Object) (es : List (Event Object)) : es <+: meet o es := by
  unfold meet
  split
  · rw [List.append_assoc]
    exact List.prefix_append _ _
  · exact List.prefix_rfl

theorem Traced.meet {o : Object} (h : Traced s.links es) : Traced s.links (meet o es) := by
  unfold Save.meet
  split
  · rename_i ho
    apply (h.snoc_enter o).snoc_leave (by simp)
    intro i c hc
    rw [s.links_of_scalar o ho.1] at hc
    cases hc
  · exact h

theorem Tracks.step (hstep : Step session (s, es) (s', es')) (h : Tracks s es) : Tracks s' es' := by
  obtain ⟨hmemo, hsources, hpending, hscalar, htr⟩ := h
  cases hstep with
  | @enter _ _ id src objects calls hn hreads =>
    refine ⟨fun x => ?_, fun x => ?_, fun m => by simpa using hpending m, fun p hp h => ?_, ?_⟩
    · rw [SaveState.lookup_memo_enter]
      by_cases hx : x = id <;> simp [hx, hmemo]
    · rw [SaveState.lookup_sources_enter]
      by_cases hx : x = id <;> simp [hx, hsources]
    · have hne : p ≠ .ref id := by
        rintro rfl
        cases hp
      simpa using hscalar p hp (by simpa [hne] using h)
    · refine (htr.congr fun p hp => ?_).snoc_enter _
      exact s.links_enter_of_ne id src objects calls fun he => hn (he ▸ hp)
  | @refer _ _ id src index o hnext =>
    -- what objects are made from is settled when they are entered
    have hlinks (p : Object) : ((s.meet o).put id src index (s.nodeId o)).links p = s.links p :=
      SaveState.links_congr (by simp) p
    refine ⟨fun x => ?_, fun x => ?_, fun m hm => ?_, fun p hp h => ?_, ?_⟩
    · simp [hmemo]
    · simp [hsources]
    · exact hpending m (by simpa using hm)
    · have hin : enter p ∈ Save.meet o es := by simpa using h
      rw [mem_meet_enter] at hin
      refine List.mem_append_left _ (mem_meet_leave.2 ?_)
      by_cases hes : enter p ∈ es
      · exact .inl (hscalar p hp hes)
      · obtain ⟨ho, rfl⟩ := hin.resolve_left hes
        exact .inr ⟨ho, hes, rfl⟩
    · have hmeet : Traced s.links (Save.meet o es) := Traced.meet htr
      have he := (prefix_meet o es).subset hnext.entered
      refine (hmeet.congr fun p _ => hlinks p).snoc_refer he ?_ ?_ ?_
      · rw [mem_meet_enter]
        cases hv : o.scalar? with
        | none => exact .inl (hnext.met hv)
        | some v => simp
      · rw [hlinks, SaveState.links_eq hnext.source, hnext.part]
      · rw [mem_meet_refer, hnext.refers]
        omega
  | leave he hl hr =>
    exact ⟨by simpa using hmemo, by simpa using hsources, by simpa using hpending,
      fun p hp h => by simpa using Or.inl (hscalar p hp (by simpa using h)), htr.snoc_leave he hr⟩

end Save

end TaggedGraph
