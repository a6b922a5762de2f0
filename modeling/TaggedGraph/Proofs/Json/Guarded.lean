import TaggedGraph.Proofs.Json.Encoders

namespace TaggedGraph

open Relation

variable {α : Type} {size : Nat} {key : α → Option Nat} {next : α → List α} {ok : α → Prop}
  {P : Nat → List Nat → α → Prop}

/-- The walk `P` takes a value that is in order, whose key is not on the path, and whose parts it
takes on the path that goes on with this key. Values with parts have a key below `size`. -/
structure Guarded (size : Nat) (key : α → Option Nat) (next : α → List α) (ok : α → Prop)
    (P : Nat → List Nat → α → Prop) : Prop where
  zero : ∀ path a, ¬P 0 path a
  succ : ∀ fuel path a, P (fuel + 1) path a ↔ ok a ∧ (∀ i ∈ key a, i ∉ path) ∧
    ∀ b ∈ next a, P fuel ((key a).toList ++ path) b
  key_inj : ∀ {a b i}, key a = some i → key b = some i → a = b
  key_of_next : ∀ {a b}, b ∈ next a → ∃ i, key a = some i ∧ i < size

namespace Guarded

/-- What can be reached is in order and off the path, and cannot be reached from its parts. -/
def Sound (key : α → Option Nat) (next : α → List α) (ok : α → Prop) (path : List Nat) (a : α) :
    Prop :=
  ∀ b, ReflTransGen (fun x y => y ∈ next x) a b →
    ok b ∧ (∀ i ∈ key b, i ∉ path) ∧ ∀ c ∈ next b, ¬ReflTransGen (fun x y => y ∈ next x) c b

theorem sound (h : Guarded size key next ok P) {fuel : Nat} {path : List Nat} {a : α}
    (ha : P fuel path a) : Sound key next ok path a := by
  induction fuel generalizing path a with
  | zero => exact absurd ha (h.zero path a)
  | succ fuel ih =>
    obtain ⟨hok, hpath, hnext⟩ := (h.succ fuel path a).mp ha
    intro b hab
    rcases ReflTransGen.cases_head hab with rfl | ⟨c, hc, hcb⟩
    · refine ⟨hok, hpath, fun c hc hback => ?_⟩
      obtain ⟨i, hi, -⟩ := h.key_of_next hc
      obtain ⟨-, hoff, -⟩ := ih (hnext c hc) a hback
      exact hoff i hi (by simp [hi])
    · obtain ⟨hokb, hoff, hcycle⟩ := ih (hnext c hc) b hcb
      exact ⟨hokb, fun i hi hmem => hoff i hi (List.mem_append_right _ hmem), hcycle⟩

theorem complete (h : Guarded size key next ok P) {fuel : Nat} {path : List Nat} {a : α}
    (hroom : Room size fuel path) (ha : Sound key next ok path a) : P fuel path a := by
  induction fuel generalizing path a with
  | zero =>
    obtain ⟨rest, hrest⟩ := hroom.exists_succ
    cases hrest
  | succ fuel ih =>
    obtain ⟨hok, hpath, hcycle⟩ := ha a .refl
    refine (h.succ fuel path a).mpr ⟨hok, hpath, fun b hb => ?_⟩
    obtain ⟨i, hi, hlt⟩ := h.key_of_next hb
    rw [hi]
    refine ih (hroom.cons (hpath i hi) hlt) fun c hbc => ?_
    obtain ⟨hokc, hoff, hcyclec⟩ := ha c (.head hb hbc)
    refine ⟨hokc, fun j hj hmem => ?_, hcyclec⟩
    rcases List.mem_cons.mp hmem with rfl | hmem
    · obtain rfl := h.key_inj hi hj
      exact hcycle b hb hbc
    · exact hoff j hj hmem

/-- From the empty path the walk takes everything that is in order and has no cycle. -/
theorem iff_forall (h : Guarded size key next ok P) (a : α) : P (size + 1) [] a ↔
    ∀ b, ReflTransGen (fun x y => y ∈ next x) a b →
      ok b ∧ ∀ c ∈ next b, ¬ReflTransGen (fun x y => y ∈ next x) c b := by
  refine ⟨fun ha b hab => ?_, fun ha => h.complete (.nil size) fun b hab => ?_⟩
  · obtain ⟨hok, -, hcycle⟩ := h.sound ha b hab
    exact ⟨hok, hcycle⟩
  · obtain ⟨hok, hcycle⟩ := ha b hab
    exact ⟨hok, by simp, hcycle⟩

end Guarded

theorem exists_mapM_eq_some {β : Type} {f : α → Option β} {l : List α} :
    (∃ bs, l.mapM f = some bs) ↔ ∀ a ∈ l, ∃ b, f a = some b := by
  induction l with
  | nil => simp
  | cons a l ih =>
    rw [List.forall_mem_cons, ← ih]
    cases h : f a <;> cases h' : l.mapM f <;> simp [h, h']

namespace ObjectGraph

variable {g : ObjectGraph}

def OnCycle (g : ObjectGraph) (o : Object) : Prop :=
  ∃ p ∈ g.parts o, g.Reachable p o

/-- Bytes, pending references and native instances have no form in structured data. -/
def Unrepresentable (g : ObjectGraph) (o : Object) : Prop :=
  (∃ b, o = .bytes b) ∨ (∃ n, o = .pending n) ∨ ∃ type payload, g.native? o = some (type, payload)

theorem reachable_iff {o p : Object} :
    g.Reachable o p ↔ ReflTransGen (fun x y => y ∈ g.parts x) o p := by
  constructor
  · intro h
    induction h with
    | refl => exact .refl
    | step _ hq ih => exact ih.tail hq
  · intro h
    induction h with
    | refl => exact .refl o
    | tail _ hq ih => exact ih.step hq

theorem guarded (g : ObjectGraph) :
    Guarded g.size Object.id? g.parts (fun o => ¬g.Unrepresentable o)
      fun fuel path o => ∃ v, g.toJsonOn? fuel path o = some v where
  zero path o := by simp [toJsonOn?_zero]
  succ fuel path o := by
    cases o with
    | ref i =>
      by_cases hi : i ∈ path
      · simp [toJsonOn?_of_mem hi, Object.id?, hi]
      · cases hread : g.read i with
        | list items =>
          simp [toJsonOn?_list hi hread, Object.id?, hi, parts, hread, Cell.parts, Unrepresentable,
            native?, cell?, exists_mapM_eq_some]
        | map m =>
          simp [toJsonOn?_map hi hread, Object.id?, hi, parts, hread, Cell.parts, Unrepresentable,
            native?, cell?, exists_mapM_eq_some]
        | native type payload =>
          simp [toJsonOn?_native hread, hread, Unrepresentable, native?, cell?]
    | bytes | pending => exact iff_of_false (by rintro ⟨_, ⟨⟩⟩) (by simp [Unrepresentable])
    | null | bool | int | float | string =>
      exact iff_of_true ⟨_, rfl⟩ (by simp [Object.id?, Unrepresentable, native?, cell?, parts])
  key_inj {o p i} ho hp := by
    cases o <;> cases ho
    cases p <;> cases hp
    rfl
  key_of_next {o p} hp := by
    cases o with
    | ref i => exact ⟨i, rfl, lt_size_of_mem_parts hp⟩
    | _ => cases hp

/-- An object has data iff nothing in it is without a form and no list or map is on a cycle. -/
theorem exists_toJson?_iff (g : ObjectGraph) (o : Object) : (∃ v, g.toJson? o = some v) ↔
    (∀ i, g.Reachable o (.ref i) → g.native? (.ref i) = none → ¬g.OnCycle (.ref i)) ∧
      ∀ p, g.Reachable o p → ¬g.Unrepresentable p := by
  refine (g.guarded.iff_forall o).trans ?_
  simp only [← reachable_iff]
  constructor
  · intro h
    exact ⟨fun i hi _ ⟨p, hp, hback⟩ => (h _ hi).2 p hp hback, fun p hp => (h p hp).1⟩
  · rintro ⟨hcycle, hplain⟩ p hp
    refine ⟨hplain p hp, fun q hq hback => ?_⟩
    obtain ⟨i, hi, -⟩ := g.guarded.key_of_next hq
    cases p <;> cases hi
    have hraw : g.native? (.ref i) = none := by
      cases hn : g.native? (.ref i) with
      | none => rfl
      | some c => exact absurd (.inr (.inr ⟨c.1, c.2, hn⟩)) (hplain _ hp)
    exact hcycle i hp hraw ⟨q, hq, hback⟩

end ObjectGraph

namespace NodeGraph

variable {g : NodeGraph}

def OnCycle (g : NodeGraph) (n : NodeId) : Prop :=
  ∃ m ∈ g.children n, g.Reachable m n

theorem reachable_iff {n m : NodeId} :
    g.Reachable n m ↔ ReflTransGen (fun x y => y ∈ g.children x) n m := by
  constructor
  · intro h
    induction h with
    | refl => exact .refl
    | step _ hk ih => exact ih.tail hk
  · intro h
    induction h with
    | refl => exact .refl n
    | tail _ hk ih => exact ih.step hk

theorem guarded (g : NodeGraph) : Guarded g.size some g.children
    (fun n => ∀ b, g.content n ≠ .scalar (.binary b))
    fun fuel path n => ∃ v, g.toJsonOn? fuel path n = some v where
  zero path n := by simp [toJsonOn?_zero]
  succ fuel path n := by
    by_cases hn : n ∈ path
    · simp [toJsonOn?_of_mem hn, hn]
    · cases hct : g.content n with
      | scalar v =>
        cases v <;>
          simp [toJsonOn?_scalar hn hct, Scalar.toJson?, hn, children, hct, Content.children]
      | sequence items =>
        simp [toJsonOn?_sequence hn hct, hn, children, hct, Content.children, exists_mapM_eq_some]
      | mapping m =>
        simp [toJsonOn?_mapping hn hct, hn, children, hct, Content.children, exists_mapM_eq_some]
  key_inj hn hm := Option.some.inj (hn.trans hm.symm)
  key_of_next {n m} hm := ⟨n, rfl, lt_size_of_children (List.ne_nil_of_mem hm)⟩

/-- A node has data iff there are no cycles and no binary scalars. -/
theorem exists_toJson?_iff (g : NodeGraph) (n : NodeId) : (∃ v, g.toJson? n = some v) ↔
    (∀ m, g.Reachable n m → ¬g.OnCycle m) ∧
      ∀ m b, g.Reachable n m → g.content m ≠ .scalar (.binary b) := by
  refine (g.guarded.iff_forall n).trans ?_
  simp only [← reachable_iff]
  constructor
  · intro h
    exact ⟨fun m hm ⟨k, hk, hback⟩ => (h m hm).2 k hk hback, fun m b hm => (h m hm).1 b⟩
  · rintro ⟨hcycle, hplain⟩ m hm
    exact ⟨fun b => hplain m b hm, fun k hk hback => hcycle m hm ⟨k, hk, hback⟩⟩

end NodeGraph

end TaggedGraph
