import TaggedGraph.Object.Basic

namespace TaggedGraph.ObjectGraph

/-- What can be reached from `root` has a cell. -/
def Closed (g : ObjectGraph) (root : Object) : Prop :=
  ∀ id, g.Reachable root (.ref id) → id < g.size

/-- Nothing that can be reached is pending. -/
def Complete (g : ObjectGraph) (root : Object) : Prop :=
  ∀ o, g.Reachable root o → o.isPending = false

/-- No instance can be reached. -/
def Raw (g : ObjectGraph) (root : Object) : Prop :=
  ∀ o, g.Reachable root o → g.native? o = none

/-- No instance holds another one. -/
def HoldsRaw (g : ObjectGraph) (root : Object) : Prop :=
  ∀ id type payload, g.Reachable root (.ref id) → g.read id = .native type payload →
    g.native? payload = none

def Acyclic (g : ObjectGraph) (root : Object) : Prop :=
  ∀ o p, g.Reachable root o → p ∈ g.parts o → ¬ g.Reachable p o

variable {g : ObjectGraph} {root : Object} {id : ObjectId} {type : NativeType} {payload : Object}

theorem native?_ref (h : g.read id = .native type payload) :
    g.native? (.ref id) = some (type, payload) := by
  simp [native?, cell?, h]

theorem exists_of_native? {o : Object} (h : g.native? o = some (type, payload)) :
    ∃ id, o = .ref id ∧ g.read id = .native type payload := by
  cases o with
  | ref id =>
    refine ⟨id, rfl, ?_⟩
    cases hc : g.read id <;> simp [native?, cell?, hc] at h
    rw [h.1, h.2]
  | _ => cases h

theorem parts_native (h : g.read id = .native type payload) : g.parts (.ref id) = [payload] := by
  simp [parts, h, Cell.parts]

theorem lt_size_of_mem_parts {o : Object} (h : o ∈ (g.read id).parts) : id < g.size := by
  apply Nat.lt_of_not_le
  intro hle
  rw [Heap.read_of_size_le g id hle] at h
  cases h

theorem lt_size_of_native (h : g.read id = .native type payload) : id < g.size :=
  lt_size_of_mem_parts (o := payload) (by simp [h, Cell.parts])

theorem Raw.ne_native (hraw : g.Raw root) (hid : g.Reachable root (.ref id)) :
    g.read id ≠ .native type payload := by
  intro hcell
  have hnone := hraw _ hid
  rw [native?_ref hcell] at hnone
  cases hnone

theorem Reachable.trans {o p q : Object} (h : g.Reachable o p) (h' : g.Reachable p q) :
    g.Reachable o q := by
  induction h' with
  | refl => exact h
  | step _ hq ih => exact ih.step hq

theorem Reachable.eq_of_primitive {o : Object} (h : g.Reachable root o) (hroot : root.id? = none) :
    o = root := by
  induction h with
  | refl => rfl
  | step _ hq ih =>
    rw [ih] at hq
    cases root with
    | ref => cases hroot
    | _ => cases hq

theorem Reachable.held (h : g.Reachable root (.ref id))
    (hcell : g.read id = .native type payload) : g.Reachable root payload :=
  h.step (by simp [parts_native hcell])

/-- What holds of the start and of all parts in the heap holds of all that can be reached. -/
theorem forall_reachable {P : Object → Prop} (hroot : P root)
    (h : ∀ i < g.size, ∀ o ∈ (g.read i).parts, P o) (o : Object) (ho : g.Reachable root o) :
    P o := by
  induction ho with
  | refl => exact hroot
  | @step p q _ hq _ =>
    cases p with
    | ref i =>
      by_cases hi : i < g.size
      · exact h i hi q hq
      · rw [parts, Heap.read_of_size_le g i (Nat.not_lt.1 hi)] at hq
        cases hq
    | _ => cases hq

theorem closed_of_lt (hroot : ∀ j ∈ root.id?, j < g.size)
    (h : ∀ i < g.size, ∀ o ∈ (g.read i).parts, ∀ j ∈ o.id?, j < g.size) : g.Closed root :=
  fun id hid => forall_reachable hroot h _ hid id rfl

/-- If every part comes after its object in the heap, there are no cycles. -/
theorem acyclic_of_lt (hclosed : g.Closed root)
    (h : ∀ i < g.size, ∀ o ∈ (g.read i).parts, ∀ j ∈ o.id?, i < j) : g.Acyclic root := by
  have hle (o q : Object) (ho : g.Reachable root o) (hq : g.Reachable o q) (j : ObjectId)
      (hj : q = .ref j) : ∃ i, o = .ref i ∧ i ≤ j := by
    induction hq generalizing j with
    | refl => exact ⟨j, hj, Nat.le_refl j⟩
    | @step p q hp hq ih =>
      subst hj
      cases p with
      | ref k =>
        obtain ⟨i, hi, hik⟩ := ih k rfl
        have hk : k < g.size := hclosed k (ho.trans hp)
        exact ⟨i, hi, Nat.le_trans hik (Nat.le_of_lt (h k hk _ hq j rfl))⟩
      | _ => cases hq
  intro o p ho hp hback
  cases o with
  | ref i =>
    obtain ⟨j, rfl, hji⟩ := hle p _ (ho.step hp) hback i rfl
    exact absurd (h i (hclosed i ho) _ hp j rfl) (Nat.not_lt.2 hji)
  | _ => cases hp

end TaggedGraph.ObjectGraph
