import Mathlib.Data.List.Monad
import Mathlib.Data.Option.Basic
import TaggedGraph.Node.Json
import TaggedGraph.Object.Json
import TaggedGraph.Proofs.Save.Step

namespace TaggedGraph

theorem OrderedMap.mapM_entries {α β : Type} (m : OrderedMap α) (f : α → Option β) :
    (m.entries.mapM fun e => do return (e.1, ← f e.2)) = (m.values.mapM f).map (m.keys.zip ·) := by
  unfold values keys
  generalize m.entries = l
  induction l with
  | nil => rfl
  | cons e r ih =>
    rw [List.mapM_cons, ih, List.map_cons, List.map_cons, List.mapM_cons]
    cases f e.2 <;> cases (r.map Prod.snd).mapM f <;> rfl

namespace EncodeM

variable {α β : Type} {id : Nat} {path : List Nat} {m : EncodeM α}

/-- What the steps push they pop again. -/
def Balanced (m : EncodeM α) : Prop :=
  ∀ path, m.run path = (m.run' path).map (·, path)

theorem balanced_failure : Balanced (failure : EncodeM α) := fun _ => rfl

theorem balanced_pure (a : α) : Balanced (pure a : EncodeM α) := fun _ => rfl

theorem balanced_lift (r : Option α) : Balanced (liftM r : EncodeM α) := by
  intro path
  cases r <;> rfl

theorem run'_lift (r : Option α) : (liftM r : EncodeM α).run' path = r := by
  cases r <;> rfl

theorem run_bind (hm : m.Balanced) (f : α → EncodeM β) :
    (m >>= f).run path = (m.run' path).bind fun a => (f a).run path := by
  rw [StateT.run_bind, hm path]
  cases m.run' path <;> rfl

theorem run'_bind (hm : m.Balanced) (f : α → EncodeM β) :
    (m >>= f).run' path = (m.run' path).bind fun a => (f a).run' path := by
  change ((m >>= f).run path).map Prod.fst = _
  rw [run_bind hm]
  cases m.run' path <;> rfl

theorem Balanced.bind {f : α → EncodeM β} (hm : m.Balanced) (hf : ∀ a, (f a).Balanced) :
    (m >>= f).Balanced := by
  intro path
  rw [run_bind hm, run'_bind hm]
  cases m.run' path with
  | none => rfl
  | some a => exact hf a path

theorem Balanced.map (hm : m.Balanced) (f : α → β) : (do return f (← m) : EncodeM β).Balanced :=
  hm.bind fun _ => balanced_pure _

theorem run'_map (hm : m.Balanced) (f : α → β) :
    (do return f (← m) : EncodeM β).run' path = (m.run' path).map f := by
  rw [run'_bind hm, Option.map_eq_bind]
  rfl

section
variable {f : α → EncodeM β} (hf : ∀ a, (f a).Balanced)
include hf

theorem Balanced.mapM (as : List α) : (as.mapM f).Balanced := by
  induction as with
  | nil => exact balanced_pure []
  | cons a as ih =>
    rw [List.mapM_cons]
    exact (hf a).bind fun b => ih.bind fun bs => balanced_pure _

theorem run'_mapM (as : List α) : (as.mapM f).run' path = as.mapM fun a => (f a).run' path := by
  induction as with
  | nil => rfl
  | cons a as ih =>
    rw [List.mapM_cons, List.mapM_cons, run'_bind (hf a)]
    refine congrArg _ (funext fun b => ?_)
    rw [run'_bind (Balanced.mapM hf as), ih]
    rfl

theorem Balanced.mapM_entries (m : OrderedMap α) :
    (m.entries.mapM fun e : String × α => do return (e.1, ← f e.2)).Balanced :=
  Balanced.mapM (fun e => (hf e.2).map _) m.entries

theorem run'_mapM_entries (m : OrderedMap α) :
    (m.entries.mapM fun e : String × α => do return (e.1, ← f e.2)).run' path =
      (m.values.mapM fun a => (f a).run' path).map (m.keys.zip ·) := by
  have hentry (e : String × α) : (do return (e.1, ← f e.2) : EncodeM (String × β)).Balanced :=
    (hf e.2).map _
  rw [run'_mapM hentry, ← OrderedMap.mapM_entries]
  exact congrArg m.entries.mapM (funext fun e => run'_bind (hf e.2) _)

end

theorem run'_array {f : α → EncodeM Json} (hf : ∀ a, (f a).Balanced) (as : List α) :
    (do return .array (← as.mapM f) : EncodeM Json).run' path =
      (as.mapM fun a => (f a).run' path).map .array := by
  rw [run'_map (.mapM hf as), run'_mapM hf]

theorem run'_object {f : α → EncodeM Json} (hf : ∀ a, (f a).Balanced) (m : OrderedMap α) :
    (do return .ofEntries (← m.entries.mapM fun e => do return (e.1, ← f e.2)) :
        EncodeM Json).run' path =
      (m.values.mapM fun a => (f a).run' path).map fun vs => .ofEntries (m.keys.zip vs) := by
  rw [run'_map (.mapM_entries hf m), run'_mapM_entries hf, Option.map_map]
  rfl

theorem run_visit (id : Nat) (m : EncodeM α) (path : List Nat) : (visit id m).run path =
    if id ∈ path then none else (m.run (id :: path)).map fun r => (r.1, r.2.tail) := by
  by_cases h : id ∈ path
  · simp [visit, h]
  · cases hm : m.run (id :: path) <;> simp [visit, h, hm]

theorem run'_visit_of_mem (h : id ∈ path) (m : EncodeM α) : (visit id m).run' path = none := by
  change ((visit id m).run path).map Prod.fst = none
  rw [run_visit, if_pos h]
  rfl

theorem run'_visit_of_not_mem (h : id ∉ path) : (visit id m).run' path = m.run' (id :: path) := by
  change ((visit id m).run path).map Prod.fst = _
  rw [run_visit, if_neg h, Option.map_map]
  rfl

theorem Balanced.visit (hm : m.Balanced) (id : Nat) : (visit id m).Balanced := by
  intro path
  by_cases h : id ∈ path
  · rw [run_visit, if_pos h, run'_visit_of_mem h]
    rfl
  · rw [run_visit, if_neg h, run'_visit_of_not_mem h, hm, Option.map_map]
    rfl

end EncodeM

namespace ObjectGraph

variable {g : ObjectGraph} {fuel : Nat} {path : List ObjectId} {i : ObjectId}

/-- What is pushed on the way through an object is popped again. -/
theorem balanced_toJsonOn (g : ObjectGraph) (fuel : Nat) (o : Object) :
    (g.toJsonOn fuel o).Balanced := by
  induction fuel generalizing o with
  | zero => exact EncodeM.balanced_failure
  | succ fuel ih =>
    cases o with
    | ref i =>
      rw [toJsonOn]
      refine EncodeM.Balanced.visit ?_ i
      cases g.read i with
      | list items => exact (EncodeM.Balanced.mapM ih items).map _
      | map entries => exact (EncodeM.Balanced.mapM_entries ih entries).map _
      | native => exact EncodeM.balanced_failure
    | bytes | pending => exact EncodeM.balanced_failure
    | null | bool | int | float | string => exact EncodeM.balanced_pure _

/-- The data of an object met on a path. -/
def toJsonOn? (g : ObjectGraph) (fuel : Nat) (path : List ObjectId) (o : Object) : Option Json :=
  (g.toJsonOn fuel o).run' path

theorem toJsonOn?_zero (o : Object) : g.toJsonOn? 0 path o = none :=
  rfl

theorem toJsonOn?_scalar {o : Object} {v : Scalar} (h : o.scalar? = some v) :
    g.toJsonOn? (fuel + 1) path o = v.toJson? := by
  cases o <;> cases h <;> rfl

theorem toJsonOn?_of_mem (hi : i ∈ path) : g.toJsonOn? (fuel + 1) path (.ref i) = none :=
  EncodeM.run'_visit_of_mem hi _

theorem toJsonOn?_list {items : List Object} (hi : i ∉ path) (hread : g.read i = .list items) :
    g.toJsonOn? (fuel + 1) path (.ref i) =
      (items.mapM (g.toJsonOn? fuel (i :: path))).map .array := by
  rw [toJsonOn?, toJsonOn, EncodeM.run'_visit_of_not_mem hi, hread]
  exact EncodeM.run'_array (g.balanced_toJsonOn fuel) items

theorem toJsonOn?_map {m : OrderedMap Object} (hi : i ∉ path) (hread : g.read i = .map m) :
    g.toJsonOn? (fuel + 1) path (.ref i) =
      (m.values.mapM (g.toJsonOn? fuel (i :: path))).map fun vs => .ofEntries (m.keys.zip vs) := by
  rw [toJsonOn?, toJsonOn, EncodeM.run'_visit_of_not_mem hi, hread]
  exact EncodeM.run'_object (g.balanced_toJsonOn fuel) m

theorem toJsonOn?_native {type : NativeType} {payload : Object}
    (hread : g.read i = .native type payload) : g.toJsonOn? fuel path (.ref i) = none := by
  cases fuel with
  | zero => rfl
  | succ fuel =>
    by_cases hi : i ∈ path
    · exact toJsonOn?_of_mem hi
    · rw [toJsonOn?, toJsonOn, EncodeM.run'_visit_of_not_mem hi, hread]
      rfl

end ObjectGraph

namespace NodeGraph

variable {g : NodeGraph} {fuel : Nat} {path : List NodeId} {n : NodeId}

/-- What is pushed on the way through a node is popped again. -/
theorem balanced_toJsonOn (g : NodeGraph) (fuel : Nat) (n : NodeId) :
    (g.toJsonOn fuel n).Balanced := by
  induction fuel generalizing n with
  | zero => exact EncodeM.balanced_failure
  | succ fuel ih =>
    rw [toJsonOn]
    refine EncodeM.Balanced.visit ?_ n
    cases g.content n with
    | scalar v => exact EncodeM.balanced_lift v.toJson?
    | sequence items => exact (EncodeM.Balanced.mapM ih items).map _
    | mapping entries => exact (EncodeM.Balanced.mapM_entries ih entries).map _

def toJsonOn? (g : NodeGraph) (fuel : Nat) (path : List NodeId) (n : NodeId) : Option Json :=
  (g.toJsonOn fuel n).run' path

theorem toJsonOn?_zero (n : NodeId) : g.toJsonOn? 0 path n = none :=
  rfl

theorem toJsonOn?_of_mem (hn : n ∈ path) : g.toJsonOn? (fuel + 1) path n = none :=
  EncodeM.run'_visit_of_mem hn _

theorem toJsonOn?_scalar {v : Scalar} (hn : n ∉ path) (hct : g.content n = .scalar v) :
    g.toJsonOn? (fuel + 1) path n = v.toJson? := by
  rw [toJsonOn?, toJsonOn, EncodeM.run'_visit_of_not_mem hn, hct]
  exact EncodeM.run'_lift v.toJson?

theorem toJsonOn?_sequence {items : List NodeId} (hn : n ∉ path)
    (hct : g.content n = .sequence items) : g.toJsonOn? (fuel + 1) path n =
      (items.mapM (g.toJsonOn? fuel (n :: path))).map .array := by
  rw [toJsonOn?, toJsonOn, EncodeM.run'_visit_of_not_mem hn, hct]
  exact EncodeM.run'_array (g.balanced_toJsonOn fuel) items

theorem toJsonOn?_mapping {m : OrderedMap NodeId} (hn : n ∉ path)
    (hct : g.content n = .mapping m) : g.toJsonOn? (fuel + 1) path n =
      (m.values.mapM (g.toJsonOn? fuel (n :: path))).map fun vs => .ofEntries (m.keys.zip vs) := by
  rw [toJsonOn?, toJsonOn, EncodeM.run'_visit_of_not_mem hn, hct]
  exact EncodeM.run'_object (g.balanced_toJsonOn fuel) m

end NodeGraph

end TaggedGraph
