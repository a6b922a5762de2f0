import Mathlib.Data.List.Perm.Subperm
import Mathlib.Data.Set.Insert
import Mathlib.Data.Sym.Sym2
import Mathlib.Logic.Relation
import TaggedGraph.Object.Basic
import TaggedGraph.Proofs.Forall2

namespace TaggedGraph

theorem Binary64.same_comm (x y : Binary64) : x.same y = y.same x := by
  unfold same
  grind

theorem Binary64.same_trans {x y z : Binary64} (h : x.same y = true) (h' : y.same z = true) :
    x.same z = true := by
  unfold same at *
  grind

namespace OrderedMap

variable {α : Type} {m m' : OrderedMap α} {k : String} {x : α}

theorem get?_eq_some_iff : m.get? k = some x ↔ (k, x) ∈ m.entries := by
  rw [get?, List.lookup_eq_some_iff]
  constructor
  · rintro ⟨pre, post, hm, -⟩
    simp [hm]
  · intro hmem
    obtain ⟨pre, post, hm⟩ := List.append_of_mem hmem
    have hnodup := m.nodup
    rw [hm, List.map_append, List.nodup_append] at hnodup
    refine ⟨pre, post, hm, fun e he => bne_iff_ne.2 fun hk => ?_⟩
    exact hnodup.2.2 e.1 (List.mem_map_of_mem he) k (by simp) hk.symm

theorem mem_keys : k ∈ m.keys ↔ ∃ x, m.get? k = some x := by
  simp [keys, get?_eq_some_iff]

theorem length_keys (m : OrderedMap α) : m.keys.length = m.size :=
  List.length_map _

theorem size_eq_of_keys (h : ∀ k, k ∈ m.keys ↔ k ∈ m'.keys) : m.size = m'.size := by
  have hperm : m.keys.Perm m'.keys := (List.perm_ext_iff_of_nodup m.nodup m'.nodup).2 h
  rw [← length_keys, hperm.length_eq, length_keys]

theorem keys_iff_of_size_eq (hsize : m.size = m'.size) (h : ∀ k ∈ m.keys, k ∈ m'.keys)
    (k : String) : k ∈ m.keys ↔ k ∈ m'.keys := by
  have hsub : m.keys.Subperm m'.keys := List.subperm_of_subset m.nodup h
  exact (hsub.perm_of_length_le (by simp [length_keys, hsize])).mem_iff

end OrderedMap

/-- Lists of one length, maps with the same keys in any order, or instances of one type, with
their parts in the relation. -/
inductive Cell.Matches (R : Object → Object → Prop) : Cell → Cell → Prop
  | list {xs ys : List Object} (items : List.Forall₂ R xs ys) : Matches R (.list xs) (.list ys)
  | map {m m' : OrderedMap Object} (keys : ∀ k, k ∈ m.keys ↔ k ∈ m'.keys)
      (values : ∀ k x y, m.get? k = some x → m'.get? k = some y → R x y) :
      Matches R (.map m) (.map m')
  | native {type : NativeType} {x y : Object} (payload : R x y) :
      Matches R (.native type x) (.native type y)

namespace Cell.Matches

variable {R S : Object → Object → Prop} {c d e : Cell}

theorem mono (h : ∀ x y, R x y → S x y) (hc : c.Matches R d) : c.Matches S d := by
  cases hc with
  | list items => exact .list (items.imp h)
  | map keys values => exact .map keys fun k x y hx hy => h x y (values k x y hx hy)
  | native payload => exact .native (h _ _ payload)

theorem symm (hc : c.Matches R d) : d.Matches (fun x y => R y x) c := by
  cases hc with
  | list items => exact .list items.flip
  | map keys values => exact .map (fun k => (keys k).symm) fun k x y hx hy => values k y x hy hx
  | native payload => exact .native payload

theorem comp (hc : c.Matches R d) (hd : d.Matches S e) : c.Matches (Relation.Comp R S) e := by
  cases hc with
  | list items =>
    cases hd with
    | list items' => exact .list (forall₂_comp items items')
  | map keys values =>
    cases hd with
    | map keys' values' =>
      refine .map (fun k => (keys k).trans (keys' k)) fun k x z hx hz => ?_
      obtain ⟨y, hy⟩ := OrderedMap.mem_keys.1 ((keys k).1 (OrderedMap.mem_keys.2 ⟨x, hx⟩))
      exact ⟨y, values k x y hx hy, values' k y z hy hz⟩
  | native payload =>
    cases hd with
    | native payload' => exact .native ⟨_, payload, payload'⟩

end Cell.Matches

namespace ObjectGraph

inductive Matches (g : ObjectGraph) (R : Object → Object → Prop) : Object → Object → Prop
  | same (id : ObjectId) : Matches g R (.ref id) (.ref id)
  | null : Matches g R .null .null
  | bool (b : Bool) : Matches g R (.bool b) (.bool b)
  | int (i : Int64) : Matches g R (.int i) (.int i)
  | float {x y : Binary64} (h : x.same y = true) : Matches g R (.float x) (.float y)
  | string (s : String) : Matches g R (.string s) (.string s)
  | bytes (b : List UInt8) : Matches g R (.bytes b) (.bytes b)
  | pending (node : NodeId) : Matches g R (.pending node) (.pending node)
  | cells {i j : ObjectId} (h : (g.read i).Matches R (g.read j)) : Matches g R (.ref i) (.ref j)

namespace Matches

variable {g : ObjectGraph} {R S : Object → Object → Prop} {a b c : Object}

theorem mono (h : ∀ x y, R x y → S x y) (hab : g.Matches R a b) : g.Matches S a b := by
  cases hab with
  | float hxy => exact .float hxy
  | cells hcells => exact .cells (hcells.mono h)
  | _ => constructor

theorem symm (hab : g.Matches R a b) : g.Matches (fun x y => R y x) b a := by
  cases hab with
  | float hxy => exact .float (Binary64.same_comm _ _ ▸ hxy)
  | cells hcells => exact .cells hcells.symm
  | _ => constructor

theorem cells_of_ne {i j : ObjectId} (h : g.Matches R (.ref i) (.ref j)) (hij : i ≠ j) :
    (g.read i).Matches R (g.read j) := by
  cases h with
  | same => exact absurd rfl hij
  | cells hcells => exact hcells

/-- Where one of the two pairs is a single instance, the other one alone relates the parts. -/
theorem comp (hab : g.Matches R a b) (hbc : g.Matches S b c) :
    g.Matches (fun x z => R x z ∨ S x z ∨ Relation.Comp R S x z) a c := by
  cases hab with
  | same => exact hbc.mono fun _ _ h => .inr (.inl h)
  | float hxy =>
    cases hbc with
    | float hyz => exact .float (Binary64.same_trans hxy hyz)
  | cells hcells =>
    cases hbc with
    | same => exact .cells (hcells.mono fun _ _ h => .inl h)
    | cells hcells' => exact .cells ((hcells.comp hcells').mono fun _ _ h => .inr (.inr h))
  | _ =>
    cases hbc
    constructor

end Matches

/-- Every pair of the relation matches. -/
def IsBisimulation (g : ObjectGraph) (R : Object → Object → Prop) : Prop :=
  ∀ a b, R a b → g.Matches R a b

def Bisimilar (g : ObjectGraph) (a b : Object) : Prop :=
  ∃ R, g.IsBisimulation R ∧ R a b

variable {g : ObjectGraph} {a b c : Object}

theorem isBisimulation_bisimilar (g : ObjectGraph) : g.IsBisimulation g.Bisimilar := by
  rintro a b ⟨R, hR, hab⟩
  exact (hR a b hab).mono fun x y hxy => ⟨R, hR, hxy⟩

theorem bisimilar_self (i : ObjectId) : g.Bisimilar (.ref i) (.ref i) := by
  refine ⟨fun x y => x = .ref i ∧ y = .ref i, ?_, rfl, rfl⟩
  rintro _ _ ⟨rfl, rfl⟩
  exact .same i

theorem Bisimilar.symm (h : g.Bisimilar a b) : g.Bisimilar b a :=
  ⟨fun x y => g.Bisimilar y x, fun x y hxy => (g.isBisimulation_bisimilar y x hxy).symm, h⟩

theorem Bisimilar.trans (h : g.Bisimilar a b) (h' : g.Bisimilar b c) : g.Bisimilar a c := by
  refine ⟨fun x z => g.Bisimilar x z ∨ Relation.Comp g.Bisimilar g.Bisimilar x z, ?_,
    .inr ⟨b, h, h'⟩⟩
  rintro x z (hxz | ⟨y, hxy, hyz⟩)
  · exact (g.isBisimulation_bisimilar x z hxz).mono fun _ _ => .inl
  · have hcomp := (g.isBisimulation_bisimilar x y hxy).comp (g.isBisimulation_bisimilar y z hyz)
    refine hcomp.mono ?_
    rintro _ _ (h | h | h)
    · exact .inl h
    · exact .inl h
    · exact .inr h

/-- The objects match down to some depth, where the pairs of `S` and those on the way are taken to
match, in either order. -/
def MatchesWithin (g : ObjectGraph) : (depth : Nat) → Set (Sym2 Object) → Object → Object → Prop
  | 0, _, _, _ => False
  | depth + 1, S, a, b =>
    s(a, b) ∈ S ∨ g.Matches (g.MatchesWithin depth (Insert.insert s(a, b) S)) a b

namespace MatchesWithin

variable {S S' : Set (Sym2 Object)} {m n : Nat} {p q : Object}

theorem mono (h : g.MatchesWithin m S a b) (hmn : m ≤ n) (hS : S ⊆ S') :
    g.MatchesWithin n S' a b := by
  induction m generalizing n S S' a b with
  | zero => exact h.elim
  | succ m ih =>
    obtain ⟨n, rfl⟩ : ∃ k, n = k + 1 := ⟨n - 1, by omega⟩
    rcases h with h | h
    · exact .inl (hS h)
    · exact .inr (h.mono fun x y hxy => ih hxy (by omega) (Set.insert_subset_insert hS))

theorem symm (h : g.MatchesWithin n S a b) : g.MatchesWithin n S b a := by
  induction n generalizing S a b with
  | zero => exact h.elim
  | succ n ih =>
    rw [MatchesWithin, Sym2.eq_swap]
    exact h.imp_right fun h => h.symm.mono fun x y hxy => ih hxy

/-- A pair that is taken to match and does so may be left out. -/
theorem cut (hpq : g.MatchesWithin m S p q) (h : g.MatchesWithin n (Insert.insert s(p, q) S) a b) :
    g.MatchesWithin (m + n) S a b := by
  induction n generalizing S a b with
  | zero => exact h.elim
  | succ n ih =>
    rcases h with (h | h) | h
    · have hpq' := hpq.mono (n := m + (n + 1)) (by omega) subset_rfl
      rcases Sym2.eq_iff.1 h with ⟨rfl, rfl⟩ | ⟨rfl, rfl⟩
      · exact hpq'
      · exact hpq'.symm
    · exact .inl h
    · refine .inr (h.mono fun x y hxy => ?_)
      rw [Set.insert_comm] at hxy
      exact ih (hpq.mono le_rfl (Set.subset_insert _ _)) hxy

theorem bisimilar (h : g.MatchesWithin n ∅ a b) : g.Bisimilar a b := by
  refine ⟨fun x y => ∃ k, g.MatchesWithin k ∅ x y, ?_, n, h⟩
  rintro x y ⟨k, hxy⟩
  cases k with
  | zero => exact hxy.elim
  | succ k =>
    rcases hxy with hmem | hmatch
    · exact absurd hmem (Set.notMem_empty _)
    · exact hmatch.mono fun p q hpq => ⟨k + 1 + k, cut (.inr hmatch) hpq⟩

end MatchesWithin

end ObjectGraph

end TaggedGraph
