import TaggedGraph.Proofs.RoundTrip.Wraps
import TaggedGraph.Proofs.Save.Program
import TaggedGraph.Proofs.Save.Tracks

namespace TaggedGraph.Save

open Traversal

variable {session : Session} {s s' s'' : SaveState}

theorem Reads.unique {id : ObjectId} {src src' : Source} {objects objects' : ObjectGraph}
    {calls calls' : List Call} (h : Reads session s id src objects calls)
    (h' : Reads session s id src' objects' calls') :
    src' = src ∧ objects' = objects ∧ calls' = calls := by
  cases h with
  | list hcell =>
    cases h' with
    | list hcell' =>
      cases hcell.symm.trans hcell'
      exact ⟨rfl, rfl, rfl⟩
    | map hcell' => cases hcell.symm.trans hcell'
    | answer hcell' => cases hcell.symm.trans hcell'
  | map hcell =>
    cases h' with
    | list hcell' => cases hcell.symm.trans hcell'
    | map hcell' =>
      cases hcell.symm.trans hcell'
      exact ⟨rfl, rfl, rfl⟩
    | answer hcell' => cases hcell.symm.trans hcell'
  | answer hcell hc htag hcall =>
    cases h' with
    | list hcell' => cases hcell.symm.trans hcell'
    | map hcell' => cases hcell.symm.trans hcell'
    | answer hcell' hc' htag' hcall' =>
      cases hcell.symm.trans hcell'
      cases hc.symm.trans hc'
      subst htag htag'
      obtain ⟨rfl, rfl⟩ := hcall.unique hcall'
      exact ⟨rfl, rfl, rfl⟩

/-- From `s` to `s'` objects get nodes, and no cells change. -/
structure Grows (s s' : SaveState) : Prop where
  memo : ∀ i, (s.memo.lookup i).isSome → (s'.memo.lookup i).isSome
  objects : Fixes (· < s.objects.size) s.objects s'.objects

theorem Grows.trans (h : Grows s s') (h' : Grows s' s'') : Grows s s'' where
  memo i hi := h'.memo i (h.memo i hi)
  objects := h.objects.grow h'.objects

theorem grows_nodes (s : SaveState) (nodes : NodeGraph) : Grows s { s with nodes } :=
  ⟨fun _ hi => hi, Fixes.refl _ _⟩

theorem grows_enter {id : ObjectId} {objects : ObjectGraph}
    (h : Fixes (· < s.objects.size) s.objects objects) (src : Source) (calls : List Call) :
    Grows s (s.enter id src objects calls) where
  memo i hi := by
    rw [SaveState.lookup_memo_enter]
    split
    · rfl
    · exact hi
  objects := h

theorem meet_eq (s : SaveState) (o : Object) : s.meet o = { s with nodes := (s.meet o).nodes } := by
  unfold SaveState.meet
  split <;> rfl

abbrev unsaved (g : ObjectGraph) (s : SaveState) : Nat :=
  remaining g.size fun i => (s.memo.lookup i).isSome

theorem unsaved_enter {g : ObjectGraph} {id : ObjectId} (hid : id < g.size)
    (hmemo : s.memo.lookup id = none) {src : Source} {objects : ObjectGraph} {calls : List Call} :
    unsaved g (s.enter id src objects calls) < unsaved g s := by
  apply remaining_lt _ _ hid
  · simp [hmemo]
  · simp [SaveState.lookup_memo_enter]
  · intro i hi
    rw [SaveState.lookup_memo_enter]
    split
    · rfl
    · exact hi

/-- What holds of the state and of the objects that are visited stays true when one is entered, and
holds of its parts then. -/
structure Upholds (session : Session) (F : SaveState → Prop) (K : SaveState → Object → Prop) :
    Prop where
  nodes : ∀ {s} (nodes : NodeGraph), F s → F { s with nodes }
  grow : ∀ {s s' o}, K s o → Grows s s' → K s' o
  enter : ∀ {s id src objects calls}, F s → K s (.ref id) → s.memo.lookup id = none →
    Reads session s id src objects calls →
    Fixes (· < s.objects.size) s.objects objects ∧ F (s.enter id src objects calls) ∧
      ∀ o ∈ src.parts, K (s.enter id src objects calls) o

variable {F : SaveState → Prop} {K : SaveState → Object → Prop}

theorem fill_upholds (h : Upholds session F K) {visit : Object → SaveM NodeId}
    (hv : ∀ o s m s', F s → K s o → Yields (visit o) s m s' → F s' ∧ Grows s s') (n : NodeId)
    (src : Source) (r : List Object) (index : Nat) (s s' : SaveState) (hF : F s)
    (hr : ∀ o ∈ r, K s o) (hfill : Yields (fill visit n src index r) s () s') :
    F s' ∧ Grows s s' := by
  induction r generalizing index s with
  | nil =>
    obtain ⟨-, rfl⟩ := (yields_pure _ _ _ _).1 hfill
    exact ⟨hF, grows_nodes s' s'.nodes⟩
  | cons o r ih =>
    simp only [fill, modifyNodes, yields_bind, yields_modify] at hfill
    obtain ⟨m, s₁, hvisit, _, _, rfl, hfill⟩ := hfill
    obtain ⟨hF₁, hgrow⟩ := hv o s m s₁ hF (hr o List.mem_cons_self) hvisit
    have hgrow₁ := hgrow.trans (grows_nodes s₁ (src.put n m index s₁.nodes))
    obtain ⟨hF', hgrow'⟩ := ih (index + 1) _ (h.nodes _ hF₁)
      (fun o ho => h.grow (hr o (List.mem_cons_of_mem _ ho)) hgrow₁) hfill
    exact ⟨hF', hgrow₁.trans hgrow'⟩

theorem convert_upholds (h : Upholds session F K) (depth : Nat) (o : Object) (s : SaveState)
    (m : NodeId) (s' : SaveState) (hF : F s) (hK : K s o)
    (hconvert : Yields (convert session depth o) s m s') : F s' ∧ Grows s s' := by
  induction depth generalizing o s m s' with
  | zero => exact absurd hconvert (not_yields_throw _ _ _ _)
  | succ depth ih =>
    cases hv : o.scalar? with
    | some v =>
      obtain ⟨-, rfl⟩ := (yields_convert_scalar session depth o (by simp [hv]) s m s').1 hconvert
      rw [meet_eq]
      exact ⟨h.nodes _ hF, grows_nodes s _⟩
    | none =>
      cases o with
      | pending x => exact absurd hconvert (not_yields_convert_pending session _ x s m s')
      | ref id =>
        rw [yields_convert_ref] at hconvert
        by_cases hmemo : (s.memo.lookup id).isSome
        · rw [if_pos hmemo] at hconvert
          obtain ⟨-, rfl⟩ := hconvert
          exact ⟨hF, grows_nodes s' s'.nodes⟩
        rw [if_neg hmemo, yields_convertNew] at hconvert
        obtain ⟨-, src, objects, calls, hreads, hfill⟩ := hconvert
        obtain ⟨hfixes, hF₁, hparts⟩ :=
          h.enter hF hK (Option.not_isSome_iff_eq_none.1 hmemo) hreads
        obtain ⟨hF', hgrow⟩ := fill_upholds h ih _ src src.parts 0 _ s' hF₁ hparts hfill
        exact ⟨hF', (grows_enter hfixes src calls).trans hgrow⟩
      | _ => cases hv

section
variable (session F K) in
/-- What is visited can be converted: a primitive, or an object that can be entered and whose parts
cost less. -/
structure Affords (cost : SaveState → Object → Nat) : Prop where
  cases : ∀ {s o}, F s → K s o → o.scalar?.isSome ∨ ∃ id, o = .ref id
  reads : ∀ {s id}, F s → K s (.ref id) → s.memo.lookup id = none → ∃ src objects calls,
    Reads session s id src objects calls ∧
      ∀ o ∈ src.parts, cost (s.enter id src objects calls) o < cost s (.ref id)
  grow : ∀ {s s' o}, Grows s s' → cost s' o ≤ cost s o

variable {cost : SaveState → Object → Nat}

theorem fill_succeeds (h : Upholds session F K) (ha : Affords session F K cost) {depth : Nat}
    (hv : ∀ o s, F s → K s o → cost s o < depth → ∃ m s', Yields (convert session depth o) s m s')
    (n : NodeId) (src : Source) (r : List Object) (index : Nat) (s : SaveState) (hF : F s)
    (hr : ∀ o ∈ r, K s o ∧ cost s o < depth) :
    ∃ s', Yields (fill (convert session depth) n src index r) s () s' := by
  induction r generalizing index s with
  | nil => exact ⟨s, (yields_pure _ _ _ _).2 ⟨rfl, rfl⟩⟩
  | cons o r ih =>
    obtain ⟨hK, hcost⟩ := hr o List.mem_cons_self
    obtain ⟨m, s₁, hvisit⟩ := hv o s hF hK hcost
    obtain ⟨hF₁, hgrow⟩ := convert_upholds h depth o s m s₁ hF hK hvisit
    have hgrow₁ := hgrow.trans (grows_nodes s₁ (src.put n m index s₁.nodes))
    obtain ⟨s', hfill⟩ := ih (index + 1) _ (h.nodes _ hF₁) fun p hp => by
      obtain ⟨hK, hcost⟩ := hr p (List.mem_cons_of_mem _ hp)
      exact ⟨h.grow hK hgrow₁, Nat.lt_of_le_of_lt (ha.grow hgrow₁) hcost⟩
    refine ⟨s', ?_⟩
    simp only [fill, modifyNodes, yields_bind, yields_modify]
    exact ⟨m, s₁, hvisit, (), _, rfl, hfill⟩

theorem convert_succeeds (h : Upholds session F K) (ha : Affords session F K cost) (depth : Nat)
    (o : Object) (s : SaveState) (hF : F s) (hK : K s o) (hcost : cost s o < depth) :
    ∃ m s', Yields (convert session depth o) s m s' := by
  induction depth generalizing o s with
  | zero => exact absurd hcost (Nat.not_lt_zero _)
  | succ depth ih =>
    rcases ha.cases hF hK with hv | ⟨id, rfl⟩
    · exact ⟨_, _, (yields_convert_scalar session depth o hv s _ _).2 ⟨rfl, rfl⟩⟩
    simp only [yields_convert_ref]
    by_cases hmemo : (s.memo.lookup id).isSome
    · simp only [if_pos hmemo]
      exact ⟨_, _, rfl, rfl⟩
    simp only [if_neg hmemo, yields_convertNew]
    have hmemo := Option.not_isSome_iff_eq_none.1 hmemo
    obtain ⟨src, objects, calls, hreads, hparts⟩ := ha.reads hF hK hmemo
    obtain ⟨-, hF₁, hK₁⟩ := h.enter hF hK hmemo hreads
    obtain ⟨s', hfill⟩ := fill_succeeds h ha ih s.nodes.size src src.parts 0 _ hF₁ fun p hp => by
      have := hparts p hp
      exact ⟨hK₁ p hp, by omega⟩
    exact ⟨_, s', rfl, src, objects, calls, hreads, hfill⟩

end

end TaggedGraph.Save
