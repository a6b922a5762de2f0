import Mathlib.Data.Finset.Prod
import TaggedGraph.Object.Equality
import TaggedGraph.Proofs.Bisimilar
import TaggedGraph.Proofs.Reachable

namespace TaggedGraph.ObjectGraph

section Parts

section
variable {r s : Option Bool}

theorem both_eq_true :
    (do if ← r then s else return false) = some true ↔ r = some true ∧ s = some true := by
  rcases r with _ | _ | _ <;> simp

theorem both_eq_false : (do if ← r then s else return false) = some false ↔
    r = some false ∨ r = some true ∧ s = some false := by
  rcases r with _ | _ | _ <;> simp

theorem both_eq_none :
    (do if ← r then s else return false) = none ↔ r = none ∨ r = some true ∧ s = none := by
  rcases r with _ | _ | _ <;> simp

end

variable {eq : Object → Object → Option Bool}

theorem equalItems_true {xs ys : List Object} (h : equalItems eq xs ys = some true) :
    List.Forall₂ (fun x y => eq x y = some true) xs ys := by
  induction xs generalizing ys with
  | nil =>
    cases ys with
    | nil => exact .nil
    | cons => cases h
  | cons x xs ih =>
    cases ys with
    | nil => cases h
    | cons y ys =>
      obtain ⟨hxy, hrest⟩ := both_eq_true.1 h
      exact .cons hxy (ih hrest)

theorem equalItems_ne_false {R : Object → Object → Prop} {xs ys : List Object}
    (heq : ∀ x y, R x y → eq x y ≠ some false) (h : List.Forall₂ R xs ys) :
    equalItems eq xs ys ≠ some false := by
  induction h with
  | nil => simp [equalItems]
  | @cons x y xs ys hxy _ ih =>
    intro hfalse
    rcases both_eq_false.1 hfalse with hhead | ⟨-, hrest⟩
    · exact heq x y hxy hhead
    · exact ih hrest

theorem equalItems_ne_none {xs ys : List Object} (heq : ∀ x ∈ xs, ∀ y ∈ ys, eq x y ≠ none) :
    equalItems eq xs ys ≠ none := by
  induction xs generalizing ys with
  | nil => cases ys <;> simp [equalItems]
  | cons x xs ih =>
    cases ys with
    | nil => simp [equalItems]
    | cons y ys =>
      intro hnone
      rcases both_eq_none.1 hnone with hhead | ⟨-, hrest⟩
      · exact heq x (by simp) y (by simp) hhead
      · exact ih (fun x' hx y' hy => heq x' (by simp [hx]) y' (by simp [hy])) hrest

variable {m : OrderedMap Object} {entries : List (String × Object)}

theorem equalEntries_cons {k : String} {x y : Object} (hy : m.get? k = some y) :
    equalEntries eq m ((k, x) :: entries) =
      do if ← eq x y then equalEntries eq m entries else return false := by
  simp only [equalEntries, hy]

theorem equalEntries_true (h : equalEntries eq m entries = some true) :
    ∀ e ∈ entries, ∃ y, m.get? e.1 = some y ∧ eq e.2 y = some true := by
  induction entries with
  | nil => simp
  | cons e r ih =>
    cases hy : m.get? e.1 with
    | none => simp [equalEntries, hy] at h
    | some y =>
      rw [equalEntries_cons hy] at h
      obtain ⟨hhead, hrest⟩ := both_eq_true.1 h
      exact List.forall_mem_cons.2 ⟨⟨y, hy, hhead⟩, ih hrest⟩

theorem equalEntries_ne_false
    (h : ∀ e ∈ entries, ∃ y, m.get? e.1 = some y ∧ eq e.2 y ≠ some false) :
    equalEntries eq m entries ≠ some false := by
  induction entries with
  | nil => simp [equalEntries]
  | cons e r ih =>
    obtain ⟨⟨y, hy, hne⟩, hr⟩ := List.forall_mem_cons.1 h
    rw [equalEntries_cons hy]
    intro hfalse
    rcases both_eq_false.1 hfalse with hhead | ⟨-, hrest⟩
    · exact hne hhead
    · exact ih hr hrest

theorem equalEntries_ne_none
    (h : ∀ e ∈ entries, ∀ y, m.get? e.1 = some y → eq e.2 y ≠ none) :
    equalEntries eq m entries ≠ none := by
  induction entries with
  | nil => simp [equalEntries]
  | cons e r ih =>
    obtain ⟨he, hr⟩ := List.forall_mem_cons.1 h
    cases hy : m.get? e.1 with
    | none => simp [equalEntries, hy]
    | some y =>
      rw [equalEntries_cons hy]
      intro hnone
      rcases both_eq_none.1 hnone with hhead | ⟨-, hrest⟩
      · exact he y hy hhead
      · exact ih hr hrest

end Parts

/-- What a comparison comes down to: an answer that does not look at the parts, or the answers for
the parts. -/
inductive Compared (g : ObjectGraph) (fuel : Nat) (seen : List (ObjectId × ObjectId)) :
    Object → Object → Option Bool → Prop
  | plain {a b : Object} {r : Bool} (h : ∀ R, r = true ↔ g.Matches R a b) :
      Compared g fuel seen a b (some r)
  | assumed {i j : ObjectId} (h : (i, j) ∈ seen) :
      Compared g fuel seen (.ref i) (.ref j) (some true)
  | lists {i j : ObjectId} {xs ys : List Object} (hij : i ≠ j) (hi : g.read i = .list xs)
      (hj : g.read j = .list ys) (hnew : (i, j) ∉ seen) :
      Compared g fuel seen (.ref i) (.ref j)
        (equalItems (g.equalWithin fuel ((i, j) :: seen)) xs ys)
  | maps {i j : ObjectId} {m m' : OrderedMap Object} (hij : i ≠ j) (hi : g.read i = .map m)
      (hj : g.read j = .map m') (hsize : m.size = m'.size) (hnew : (i, j) ∉ seen) :
      Compared g fuel seen (.ref i) (.ref j)
        (equalEntries (g.equalWithin fuel ((i, j) :: seen)) m' m.entries)
  | natives {i j : ObjectId} {type : NativeType} {x y : Object} (hij : i ≠ j)
      (hi : g.read i = .native type x) (hj : g.read j = .native type y) :
      Compared g fuel seen (.ref i) (.ref j) (g.equalWithin fuel seen y x)

variable {g : ObjectGraph} {fuel : Nat} {seen : List (ObjectId × ObjectId)} {a b : Object}

theorem Compared.differ {i j : ObjectId} {c d : Cell} (hij : i ≠ j) (hi : g.read i = c)
    (hj : g.read j = d) (h : ∀ R, ¬ c.Matches R d) :
    Compared g fuel seen (.ref i) (.ref j) (some false) := by
  subst hi hj
  exact .plain fun R => iff_of_false Bool.false_ne_true fun hmatch => h R (hmatch.cells_of_ne hij)

theorem compared_refs (i j : ObjectId) :
    Compared g fuel seen (.ref i) (.ref j) (g.equalWithin (fuel + 1) seen (.ref i) (.ref j)) := by
  unfold equalWithin
  by_cases hij : i = j
  · subst hij
    rw [if_pos rfl]
    exact .plain fun R => iff_of_true rfl (.same i)
  rw [if_neg hij]
  split
  · rename_i xs ys hi hj
    split
    · exact .assumed ‹_›
    · rename_i hnew
      split
      · rename_i hlen
        refine .differ hij hi hj fun R h => ?_
        cases h with
        | list items => exact hlen items.length_eq
      · exact .lists hij hi hj hnew
  · rename_i m m' hi hj
    split
    · exact .assumed ‹_›
    · rename_i hnew
      split
      · rename_i hsize
        refine .differ hij hi hj fun R h => ?_
        cases h with
        | map keys => exact hsize (OrderedMap.size_eq_of_keys keys)
      · rename_i hsize
        exact .maps hij hi hj (not_not.1 hsize) hnew
  · rename_i hi hj
    split
    · rename_i htype
      subst htype
      exact .natives hij hi hj
    · rename_i htype
      refine .differ hij hi hj fun R h => ?_
      cases h with
      | native => exact htype rfl
  · rename_i hlist hmap hnative
    generalize hi : g.read i = c at hlist hmap hnative
    generalize hj : g.read j = d at hlist hmap hnative
    refine .differ hij hi hj fun R h => ?_
    cases h with
    | list => exact hlist _ _ rfl rfl
    | map => exact hmap _ _ rfl rfl
    | native => exact hnative _ _ _ _ rfl rfl

theorem compared (g : ObjectGraph) (fuel : Nat) (seen : List (ObjectId × ObjectId)) (a b : Object) :
    Compared g fuel seen a b (g.equalWithin (fuel + 1) seen a b) := by
  cases a <;> cases b
  case ref.ref i j => exact compared_refs i j
  case float.float x y =>
    refine .plain fun R => ⟨.float, fun h => ?_⟩
    cases h with
    | float h => exact h
  all_goals
    refine .plain fun R => ⟨fun h => ?_, fun h => by cases h <;> simp⟩
    simp_all <;> constructor

/-- The pairs that a comparison takes to be equal. -/
def assumed (seen : List (ObjectId × ObjectId)) : Set (Sym2 Object) :=
  {p | ∃ i j, (i, j) ∈ seen ∧ p = s(.ref i, .ref j)}

theorem assumed_nil : assumed [] = ∅ := by
  ext p
  simp [assumed]

theorem assumed_cons (i j : ObjectId) :
    assumed ((i, j) :: seen) = Insert.insert s(.ref i, .ref j) (assumed seen) := by
  ext p
  simp only [assumed, List.mem_cons, Prod.mk.injEq, Set.mem_ofPred_eq, Set.mem_insert_iff]
  constructor
  · rintro ⟨k, l, ⟨rfl, rfl⟩ | hmem, rfl⟩
    · exact .inl rfl
    · exact .inr ⟨k, l, hmem, rfl⟩
  · rintro (rfl | ⟨k, l, hmem, rfl⟩)
    · exact ⟨i, j, .inl ⟨rfl, rfl⟩, rfl⟩
    · exact ⟨k, l, .inr hmem, rfl⟩

theorem matchesWithin_of_equalWithin (h : g.equalWithin fuel seen a b = some true) :
    g.MatchesWithin fuel (assumed seen) a b := by
  induction fuel generalizing seen a b with
  | zero => cases h
  | succ fuel ih =>
    have hcompared := compared g fuel seen a b
    rw [h] at hcompared
    generalize hr : some true = r at hcompared
    cases hcompared with
    | plain hplain =>
      cases hr
      exact .inr ((hplain _).1 rfl)
    | assumed hmem => exact .inl ⟨_, _, hmem, rfl⟩
    | lists _ hi hj =>
      refine .inr (.cells ?_)
      rw [hi, hj]
      refine .list ((equalItems_true hr.symm).imp fun x y hxy => ?_)
      rw [← assumed_cons]
      exact ih hxy
    | maps _ hi hj hsize =>
      refine .inr (.cells ?_)
      rw [hi, hj]
      have hentries := equalEntries_true hr.symm
      refine .map (OrderedMap.keys_iff_of_size_eq hsize fun k hk => ?_) fun k x y hx hy => ?_
      · obtain ⟨x, hx⟩ := OrderedMap.mem_keys.1 hk
        obtain ⟨y, hy, -⟩ := hentries _ (OrderedMap.get?_eq_some_iff.1 hx)
        exact OrderedMap.mem_keys.2 ⟨y, hy⟩
      · obtain ⟨y', hy', hxy⟩ := hentries _ (OrderedMap.get?_eq_some_iff.1 hx)
        cases hy.symm.trans hy'
        rw [← assumed_cons]
        exact ih hxy
    | natives _ hi hj =>
      refine .inr (.cells ?_)
      rw [hi, hj]
      exact .native ((ih hr.symm).symm.mono le_rfl (Set.subset_insert _ _))

theorem equalWithin_ne_false (hab : g.Bisimilar a b) :
    g.equalWithin fuel seen a b ≠ some false := by
  induction fuel generalizing seen a b with
  | zero => simp [equalWithin]
  | succ fuel ih =>
    have hmatch := g.isBisimulation_bisimilar a b hab
    intro h
    have hcompared := compared g fuel seen a b
    rw [h] at hcompared
    generalize hr : some false = r at hcompared
    cases hcompared with
    | plain hplain =>
      cases hr
      exact Bool.false_ne_true ((hplain _).2 hmatch)
    | assumed => cases hr
    | lists hij hi hj =>
      have hcells := hmatch.cells_of_ne hij
      rw [hi, hj] at hcells
      cases hcells with
      | list items => exact equalItems_ne_false (fun x y hxy => ih hxy) items hr.symm
    | maps hij hi hj =>
      have hcells := hmatch.cells_of_ne hij
      rw [hi, hj] at hcells
      cases hcells with
      | map keys values =>
        refine equalEntries_ne_false (fun e he => ?_) hr.symm
        have hx := OrderedMap.get?_eq_some_iff.2 he
        obtain ⟨y, hy⟩ := OrderedMap.mem_keys.1 ((keys e.1).1 (OrderedMap.mem_keys.2 ⟨e.2, hx⟩))
        exact ⟨y, hy, ih (values e.1 e.2 y hx hy)⟩
    | natives hij hi hj =>
      have hcells := hmatch.cells_of_ne hij
      rw [hi, hj] at hcells
      cases hcells with
      | native payload => exact ih payload.symm hr.symm

def Encloses (g : ObjectGraph) (i j : ObjectId) : Prop :=
  ∃ type, g.read i = .native type (.ref j)

/-- There is no cycle made only of instances. -/
def PayloadsEnd (g : ObjectGraph) : Prop :=
  ∀ i, ¬ Relation.TransGen g.Encloses i i

theorem payloadsEnd_of_lt (h : ∀ i < g.size, ∀ p ∈ g.native? (.ref i), ∀ j ∈ p.2.id?, j < i) :
    g.PayloadsEnd := by
  have hstep {i j : ObjectId} (hij : g.Encloses i j) : j < i := by
    obtain ⟨type, hi⟩ := hij
    exact h i (lt_size_of_native hi) _ (native?_ref hi) j rfl
  have hpath {i j : ObjectId} (hij : Relation.TransGen g.Encloses i j) : j < i := by
    induction hij with
    | single h => exact hstep h
    | tail _ h ih => exact (hstep h).trans ih
  exact fun i hi => Nat.lt_irrefl i (hpath hi)

section Measure
open Classical

/-- The references in an object that are met by taking payloads, itself among them. -/
noncomputable def enclosed (g : ObjectGraph) (a : Object) : Finset ObjectId :=
  (Finset.range g.size).filter fun k => ∃ i, a = .ref i ∧ Relation.ReflTransGen g.Encloses i k

theorem card_enclosed_le (g : ObjectGraph) (a : Object) : (g.enclosed a).card ≤ g.size := by
  have h := Finset.card_filter_le (Finset.range g.size)
    fun k => ∃ i, a = .ref i ∧ Relation.ReflTransGen g.Encloses i k
  rwa [Finset.card_range] at h

theorem card_enclosed_lt (h : g.PayloadsEnd) {i : ObjectId} {type : NativeType} {x : Object}
    (hi : g.read i = .native type x) : (g.enclosed x).card < (g.enclosed (.ref i)).card := by
  have hsub : g.enclosed x ⊆ g.enclosed (.ref i) := by
    refine Finset.monotone_filter_right _ fun k _ hk => ?_
    obtain ⟨j, rfl, hjk⟩ := hk
    exact ⟨i, rfl, .head ⟨type, hi⟩ hjk⟩
  refine Finset.card_lt_card ((Finset.ssubset_iff_of_subset hsub).2 ⟨i, ?_, ?_⟩)
  · exact Finset.mem_filter.2 ⟨Finset.mem_range.2 (lt_size_of_native hi), i, rfl, .refl⟩
  · intro hmem
    obtain ⟨j, rfl, hji⟩ := (Finset.mem_filter.1 hmem).2
    exact h i (.head' ⟨type, hi⟩ hji)

/-- How many references one of the two objects encloses at most. -/
noncomputable def enclosing (g : ObjectGraph) (a b : Object) : Nat :=
  max (g.enclosed a).card (g.enclosed b).card

theorem enclosing_le (g : ObjectGraph) (a b : Object) : g.enclosing a b ≤ g.size :=
  max_le (card_enclosed_le g a) (card_enclosed_le g b)

/-- The payloads are compared the other way round. -/
theorem enclosing_lt (h : g.PayloadsEnd) {i j : ObjectId} {s t : NativeType} {x y : Object}
    (hi : g.read i = .native s x) (hj : g.read j = .native t y) :
    g.enclosing y x < g.enclosing (.ref i) (.ref j) := by
  rw [enclosing, max_comm]
  exact max_lt_max (card_enclosed_lt h hi) (card_enclosed_lt h hj)

/-- Fewer containers outweigh all that can be enclosed. -/
theorem depth_lt_of_fewer {m n k : Nat} (h : m < n) (hk : k ≤ g.size) :
    m * (g.size + 1) + k < n * (g.size + 1) := by
  calc m * (g.size + 1) + k
      < (m + 1) * (g.size + 1) := by rw [Nat.succ_mul]; omega
    _ ≤ n * (g.size + 1) := Nat.mul_le_mul_right _ h

end Measure

def unmet (g : ObjectGraph) (seen : List (ObjectId × ObjectId)) : Finset (ObjectId × ObjectId) :=
  (Finset.range g.size ×ˢ Finset.range g.size) \ seen.toFinset

theorem card_unmet_le (g : ObjectGraph) (seen : List (ObjectId × ObjectId)) :
    (g.unmet seen).card ≤ g.size * g.size := by
  have h : (g.unmet seen).card ≤ (Finset.range g.size ×ˢ Finset.range g.size).card :=
    Finset.card_le_card Finset.sdiff_subset
  rwa [Finset.card_product, Finset.card_range] at h

theorem card_unmet_lt {i j : ObjectId} (hi : i < g.size) (hj : j < g.size) (hnew : (i, j) ∉ seen) :
    (g.unmet ((i, j) :: seen)).card < (g.unmet seen).card := by
  have hsub : g.unmet ((i, j) :: seen) ⊆ g.unmet seen :=
    Finset.sdiff_subset_sdiff subset_rfl fun p hp =>
      List.mem_toFinset.2 (List.mem_cons_of_mem _ (List.mem_toFinset.1 hp))
  refine Finset.card_lt_card ((Finset.ssubset_iff_of_subset hsub).2 ⟨(i, j), ?_, ?_⟩)
  · simp [unmet, hi, hj, hnew]
  · simp [unmet]

/-- No comparison goes deeper than this: each pair of containers leaves fewer of them to be met, and
between two of them each instance leaves fewer enclosed. -/
noncomputable def depthLeft (g : ObjectGraph) (seen : List (ObjectId × ObjectId))
    (a b : Object) : Nat :=
  (g.unmet seen).card * (g.size + 1) + g.enclosing a b

theorem depthLeft_part {i j : ObjectId} {x y : Object} (hnew : (i, j) ∉ seen)
    (hx : x ∈ (g.read i).parts) (hy : y ∈ (g.read j).parts) :
    g.depthLeft ((i, j) :: seen) x y < g.depthLeft seen (.ref i) (.ref j) := by
  have hlt := card_unmet_lt (lt_size_of_mem_parts hx) (lt_size_of_mem_parts hy) hnew
  exact Nat.lt_of_lt_of_le (depth_lt_of_fewer hlt (g.enclosing_le x y)) (Nat.le_add_right _ _)

theorem equalWithin_ne_none (hends : g.PayloadsEnd) (hfuel : g.depthLeft seen a b < fuel) :
    g.equalWithin fuel seen a b ≠ none := by
  induction fuel generalizing seen a b with
  | zero => exact absurd hfuel (Nat.not_lt_zero _)
  | succ fuel ih =>
    intro h
    have hcompared := compared g fuel seen a b
    rw [h] at hcompared
    generalize hr : (none : Option Bool) = r at hcompared
    cases hcompared with
    | plain => cases hr
    | assumed => cases hr
    | @lists i j xs ys _ hi hj hnew =>
      refine equalItems_ne_none (fun x hx y hy => ih ?_) hr.symm
      have hpart : g.depthLeft ((i, j) :: seen) x y < g.depthLeft seen (.ref i) (.ref j) :=
        depthLeft_part hnew (by simpa [hi, Cell.parts] using hx)
          (by simpa [hj, Cell.parts] using hy)
      omega
    | @maps i j m m' _ hi hj _ hnew =>
      refine equalEntries_ne_none (fun e he y hy => ih ?_) hr.symm
      have hpart : g.depthLeft ((i, j) :: seen) e.2 y < g.depthLeft seen (.ref i) (.ref j) :=
        depthLeft_part hnew (by simpa [hi, Cell.parts, OrderedMap.values] using ⟨e.1, he⟩)
          (by simpa [hj, Cell.parts, OrderedMap.values] using
            ⟨e.1, OrderedMap.get?_eq_some_iff.1 hy⟩)
      omega
    | @natives i j type x y _ hi hj =>
      refine ih ?_ hr.symm
      have hlt := enclosing_lt hends hi hj
      simp only [depthLeft] at *
      omega

theorem depthLeft_lt_equalityDepth (g : ObjectGraph) (a b : Object) :
    g.depthLeft [] a b < g.equalityDepth := by
  have hunmet := Nat.mul_le_mul_right (g.size + 1) (card_unmet_le g [])
  have henclosed := g.enclosing_le a b
  rw [depthLeft, equalityDepth, Nat.succ_mul]
  omega

/-- A comparison with enough fuel answers whether the objects are bisimilar. -/
theorem equalWithin_iff_bisimilar (hends : g.PayloadsEnd) (a b : Object)
    (hfuel : g.equalityDepth ≤ fuel) :
    ∃ r, g.equalWithin fuel [] a b = some r ∧ (r = true ↔ g.Bisimilar a b) := by
  have hdepth := Nat.lt_of_lt_of_le (depthLeft_lt_equalityDepth g a b) hfuel
  obtain ⟨r, hr⟩ := Option.ne_none_iff_exists'.1 (equalWithin_ne_none hends hdepth)
  refine ⟨r, hr, ?_, ?_⟩
  · rintro rfl
    have hmatch := matchesWithin_of_equalWithin hr
    rw [assumed_nil] at hmatch
    exact hmatch.bisimilar
  · intro hab
    cases r with
    | true => rfl
    | false => exact absurd hr (equalWithin_ne_false hab)

/-- Equality decides bisimilarity, and so it is symmetric, transitive and, for all but primitives,
reflexive. -/
theorem equality_decides_bisimilarity (hends : g.PayloadsEnd) :
    (∀ a b, ∃ r, g.equal? a b = some r ∧ (r = true ↔ g.Bisimilar a b) ∧
      ∀ fuel, g.equalityDepth ≤ fuel → g.equalWithin fuel [] a b = some r) ∧
    (∀ a b, g.equal? a b = g.equal? b a) ∧
    (∀ a b c, g.equal? a b = some true → g.equal? b c = some true →
      g.equal? a c = some true) ∧
    ∀ i, g.equal? (.ref i) (.ref i) = some true := by
  have hiff (a b : Object) : g.equal? a b = some true ↔ g.Bisimilar a b := by
    obtain ⟨r, hr, hbisimilar⟩ := equalWithin_iff_bisimilar hends a b le_rfl
    rw [← hbisimilar, equal?, hr, Option.some_inj]
  refine ⟨fun a b => ?_, fun a b => ?_, fun a b c hab hbc => ?_, fun i => ?_⟩
  · obtain ⟨r, hr, hbisimilar⟩ := equalWithin_iff_bisimilar hends a b le_rfl
    refine ⟨r, hr, hbisimilar, fun fuel hfuel => ?_⟩
    obtain ⟨r', hr', hbisimilar'⟩ := equalWithin_iff_bisimilar hends a b hfuel
    rw [hr', Bool.eq_iff_iff.2 (hbisimilar'.trans hbisimilar.symm)]
  · obtain ⟨r, hr, hbisimilar⟩ := equalWithin_iff_bisimilar hends a b le_rfl
    obtain ⟨r', hr', hbisimilar'⟩ := equalWithin_iff_bisimilar hends b a le_rfl
    have hsymm : g.Bisimilar a b ↔ g.Bisimilar b a := ⟨.symm, .symm⟩
    have heq : r = r' := Bool.eq_iff_iff.2 (hbisimilar.trans (hsymm.trans hbisimilar'.symm))
    rw [equal?, equal?, hr, hr', heq]
  · exact (hiff a c).2 (((hiff a b).1 hab).trans ((hiff b c).1 hbc))
  · exact (hiff _ _).2 (bisimilar_self i)

/-- A list in itself and two lists in each other, inside maps and instances, two lists of one NaN
each, and two lists of instances of the lists themselves. -/
def mutualObjects : ObjectGraph :=
  ⟨#[.list [.ref 0], .list [.ref 2], .list [.ref 1],
    .native ⟨0, "crate::Box", "Box"⟩ (.ref 0), .native ⟨0, "crate::Box", "Box"⟩ (.ref 1),
    .map (.ofList [("a", .ref 3), ("b", .ref 0)]), .map (.ofList [("b", .ref 2), ("a", .ref 4)]),
    .list [.float .nan], .list [.float .nan], .list [.ref 11], .list [.ref 12],
    .native ⟨0, "crate::Box", "Box"⟩ (.ref 9), .native ⟨0, "crate::Box", "Box"⟩ (.ref 10)]⟩

theorem mutualObjects_payloadsEnd : mutualObjects.PayloadsEnd :=
  payloadsEnd_of_lt (by decide +kernel)

theorem equality_decides_bisimilarity_mutual :
    mutualObjects.PayloadsEnd ∧
      (∀ a b, ∃ r, mutualObjects.equal? a b = some r ∧ (r = true ↔ mutualObjects.Bisimilar a b)) ∧
      mutualObjects.equal? (.ref 5) (.ref 6) = some true ∧
      mutualObjects.equal? (.ref 7) (.ref 8) = some false ∧
      mutualObjects.equal? (.ref 7) (.ref 7) = some true ∧
      mutualObjects.equal? (.ref 9) (.ref 10) = some true := by
  have h := equality_decides_bisimilarity mutualObjects_payloadsEnd
  refine ⟨mutualObjects_payloadsEnd, fun a b => ?_, by decide +kernel, by decide +kernel, h.2.2.2 7,
    by decide +kernel⟩
  obtain ⟨r, hr, hbisimilar, -⟩ := h.1 a b
  exact ⟨r, hr, hbisimilar⟩

end TaggedGraph.ObjectGraph
