import Mathlib.Data.List.Induction
import Mathlib.Data.List.Nodup
import TaggedGraph.Registry

namespace TaggedGraph

variable {α κ : Type} [DecidableEq κ] {key : α → κ} {l : List α} {x : α}

theorem mem_of_mem_firstOfEach (h : x ∈ firstOfEach key l) : x ∈ l := by
  induction l with
  | nil => exact h
  | cons y l ih =>
    rcases List.mem_cons.1 h with rfl | h
    · exact List.mem_cons_self
    · exact List.mem_cons_of_mem _ (ih (List.mem_of_mem_filter h))

theorem firstOfEach_filter {p : α → Bool} (hp : ∀ x y, key x = key y → p x = p y) (l : List α) :
    firstOfEach key (l.filter p) = (firstOfEach key l).filter p := by
  induction l with
  | nil => rfl
  | cons x l ih =>
    cases hx : p x with
    | true =>
      rw [List.filter_cons_of_pos hx, firstOfEach, firstOfEach, List.filter_cons_of_pos hx, ih,
        List.filter_filter, List.filter_filter]
      simp only [Bool.and_comm]
    | false =>
      rw [List.filter_cons_of_neg (by simp [hx]), firstOfEach,
        List.filter_cons_of_neg (by simp [hx]), ih, List.filter_filter]
      refine List.filter_congr fun y _ => ?_
      by_cases hkey : key y = key x
      · simp [hp y x hkey, hx]
      · simp [hkey]

theorem firstOfEach_id [BEq κ] [LawfulBEq κ] (l : List κ) : firstOfEach id l = l.eraseDups := by
  induction hn : l.length using Nat.strongRecOn generalizing l with
  | _ n ih =>
    cases l with
    | nil => rfl
    | cons x l =>
      have hlt : (l.filter fun y => !y == x).length < n :=
        hn ▸ Nat.lt_succ_of_le (List.length_filter_le _ l)
      have hfilter : firstOfEach id (l.filter fun y => !y == x) =
          (firstOfEach id l).filter fun y => !y == x :=
        firstOfEach_filter (fun y z h => by rw [show y = z from h]) l
      rw [firstOfEach, List.eraseDups_cons, ← ih _ hlt _ rfl, hfilter]
      congr 2
      funext y
      by_cases hy : y = x <;> simp [hy]

theorem map_firstOfEach [BEq κ] [LawfulBEq κ] (key : α → κ) (l : List α) :
    (firstOfEach key l).map key = (l.map key).eraseDups := by
  rw [← firstOfEach_id]
  induction l with
  | nil => rfl
  | cons x l ih =>
    rw [firstOfEach, List.map_cons, List.map_cons, firstOfEach, ← ih, List.filter_map]
    rfl

theorem nodup_map_firstOfEach (key : α → κ) (l : List α) :
    ((firstOfEach key l).map key).Nodup := by
  induction l with
  | nil => exact List.nodup_nil
  | cons y l ih =>
    rw [firstOfEach, List.map_cons, List.nodup_cons]
    refine ⟨by simp, ih.sublist (List.filter_sublist.map key)⟩

theorem exists_mem_firstOfEach (h : x ∈ l) : ∃ y ∈ firstOfEach key l, key y = key x := by
  induction l with
  | nil => cases h
  | cons z l ih =>
    by_cases hz : key z = key x
    · exact ⟨z, List.mem_cons_self, hz⟩
    · rcases List.mem_cons.1 h with rfl | h
      · exact absurd rfl hz
      · obtain ⟨y, hy, hkey⟩ := ih h
        have hne : key y ≠ key z := fun he => hz (he.symm.trans hkey)
        exact ⟨y, List.mem_cons_of_mem _ (List.mem_filter.2 ⟨hy, by simpa using hne⟩), hkey⟩

theorem mem_firstOfEach_iff (h : ∀ x ∈ l, ∀ y ∈ l, key x = key y → x = y) :
    x ∈ firstOfEach key l ↔ x ∈ l := by
  refine ⟨mem_of_mem_firstOfEach, fun hx => ?_⟩
  obtain ⟨y, hy, hkey⟩ : ∃ y ∈ firstOfEach key l, key y = key x := exists_mem_firstOfEach hx
  rwa [← h y (mem_of_mem_firstOfEach hy) x hx hkey]

theorem firstOfEach_append (key : α → κ) (l l' : List α) : firstOfEach key (l ++ l') =
    firstOfEach key l ++ (firstOfEach key l').filter fun y => key y ∉ l.map key := by
  induction l with
  | nil => simp [firstOfEach]
  | cons x l ih =>
    rw [List.cons_append, firstOfEach, firstOfEach, ih, List.filter_append, List.filter_filter,
      List.cons_append]
    simp only [List.map_cons, List.mem_cons, not_or, Bool.decide_and]

theorem flatMap_filter {γ : Type} {f : α → List γ} {p : α → Bool} {q : γ → Bool}
    (h : ∀ x ∈ l, p x = false → (f x).filter q = []) :
    ((l.filter p).flatMap f).filter q = (l.flatMap f).filter q := by
  induction l with
  | nil => rfl
  | cons x l ih =>
    have hl := ih fun y hy => h y (List.mem_cons_of_mem _ hy)
    rw [List.flatMap_cons, List.filter_append, ← hl]
    cases hx : p x with
    | true => rw [List.filter_cons_of_pos hx, List.flatMap_cons, List.filter_append]
    | false =>
      rw [List.filter_cons_of_neg (by simp [hx]), h x List.mem_cons_self hx, List.nil_append]

/-- A list that comes up again adds nothing new. -/
theorem firstOfEach_flatMap {γ κ' : Type} [DecidableEq κ'] {f : α → List γ} (key' : γ → κ')
    (h : ∀ x ∈ l, ∀ y ∈ l, key x = key y → f x = f y) :
    firstOfEach key' ((firstOfEach key l).flatMap f) = firstOfEach key' (l.flatMap f) := by
  induction l with
  | nil => rfl
  | cons x l ih =>
    have hl := ih fun y hy z hz => h y (List.mem_cons_of_mem _ hy) z (List.mem_cons_of_mem _ hz)
    have hkey (y z : γ) (hyz : key' y = key' z) :
        decide (key' y ∉ (f x).map key') = decide (key' z ∉ (f x).map key') := by rw [hyz]
    rw [firstOfEach, List.flatMap_cons, List.flatMap_cons, firstOfEach_append, firstOfEach_append,
      ← hl, ← firstOfEach_filter hkey, ← firstOfEach_filter hkey, flatMap_filter]
    intro y hy hyx
    have hyx : key x = key y := Eq.symm (by simpa using hyx)
    have hy := List.mem_cons_of_mem x (mem_of_mem_firstOfEach hy)
    rw [← h x List.mem_cons_self y hy hyx, List.filter_eq_nil_iff]
    intro z hz
    simpa using ⟨z, hz, rfl⟩

theorem mem_firstOfEach {l : List κ} {x : κ} : x ∈ firstOfEach id l ↔ x ∈ l :=
  mem_firstOfEach_iff fun _ _ _ _ h => h

theorem nodup_firstOfEach (l : List κ) : (firstOfEach id l).Nodup := by
  simpa using nodup_map_firstOfEach id l

theorem firstOfEach_snoc (l : List κ) (x : κ) : firstOfEach id (l ++ [x]) =
    if x ∈ l then firstOfEach id l else firstOfEach id l ++ [x] := by
  induction l with
  | nil => rfl
  | cons y l ih =>
    rw [List.cons_append, firstOfEach, firstOfEach, ih]
    by_cases hl : x ∈ l
    · simp [hl]
    · rw [if_neg hl]
      by_cases hx : x = y
      · simp [hx]
      · simp [hl, hx]

theorem foldl_unseen (l : List κ) :
    l.foldl (fun seen x => if x ∈ seen then seen else seen ++ [x]) [] = firstOfEach id l := by
  induction l using List.reverseRecOn with
  | nil => rfl
  | append_singleton l x ih =>
    rw [List.foldl_append, ih, firstOfEach_snoc]
    simp only [List.foldl_cons, List.foldl_nil, mem_firstOfEach]

theorem pairwise_idxOf_firstOfEach (l : List κ) :
    (firstOfEach id l).Pairwise fun x y => l.idxOf x < l.idxOf y := by
  induction l with
  | nil => exact List.Pairwise.nil
  | cons z l ih =>
    have hne {x : κ} (hx : x ∈ (firstOfEach id l).filter fun y => id y ≠ id z) : z ≠ x := by
      rintro rfl
      simpa using List.of_mem_filter hx
    rw [firstOfEach, List.pairwise_cons]
    constructor
    · intro x hx
      rw [List.idxOf_cons_self, List.idxOf_cons_ne l (hne hx)]
      exact Nat.succ_pos _
    · -- all other first places move by one
      refine (ih.sublist List.filter_sublist).imp_of_mem fun hx hy hlt => ?_
      rw [List.idxOf_cons_ne l (hne hx), List.idxOf_cons_ne l (hne hy)]
      exact Nat.succ_lt_succ hlt

/-- The list has what stands in `all`, each element once and in the order of the first places. -/
structure FirstsOf (l all : List κ) : Prop where
  nodup : l.Nodup
  mem_iff : ∀ x, x ∈ l ↔ x ∈ all
  inOrder : l.Pairwise fun x y => all.idxOf x < all.idxOf y

theorem firstsOf_firstOfEach (l : List κ) : FirstsOf (firstOfEach id l) l :=
  ⟨nodup_firstOfEach l, fun _ => mem_firstOfEach, pairwise_idxOf_firstOfEach l⟩

theorem findSome?_filter {β : Type} {f : α → Option β} {p : α → Bool}
    (h : ∀ x ∈ l, p x = false → f x = none) : (l.filter p).findSome? f = l.findSome? f := by
  induction l with
  | nil => rfl
  | cons x l ih =>
    have hl := ih fun y hy => h y (List.mem_cons_of_mem _ hy)
    rw [List.findSome?_cons, ← hl]
    cases hx : p x with
    | true => rw [List.filter_cons_of_pos hx, List.findSome?_cons]
    | false => rw [List.filter_cons_of_neg (by simp [hx]), h x List.mem_cons_self hx]

/-- A search whose answers depend on the keys alone finds the same. -/
theorem findSome?_firstOfEach {β : Type} {f : α → Option β}
    (h : ∀ x ∈ l, ∀ y ∈ l, key x = key y → f x = f y) :
    (firstOfEach key l).findSome? f = l.findSome? f := by
  induction l with
  | nil => rfl
  | cons x l ih =>
    have hl := ih fun y hy z hz => h y (List.mem_cons_of_mem _ hy) z (List.mem_cons_of_mem _ hz)
    rw [firstOfEach, List.findSome?_cons, List.findSome?_cons]
    cases hx : f x with
    | some b => rfl
    | none =>
      -- what is left out has the key of `x` and so no more of an answer than `x`
      refine (findSome?_filter fun y hy hkey => ?_).trans hl
      have hkey : key x = key y := Eq.symm (by simpa using hkey)
      have hy := List.mem_cons_of_mem x (mem_of_mem_firstOfEach hy)
      rw [← h x List.mem_cons_self y hy hkey, hx]

end TaggedGraph
