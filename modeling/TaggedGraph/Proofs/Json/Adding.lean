import Mathlib.Data.List.Forall2
import TaggedGraph.Node.Json
import TaggedGraph.Proofs.Ascending

namespace TaggedGraph

namespace Heap

variable {α : Type} [Inhabited α] {g h k : Heap α}

/-- The heap `h` is `g` with more cells. -/
structure Extends (g h : Heap α) : Prop where
  size : g.size ≤ h.size
  read : ∀ i < g.size, h.read i = g.read i

theorem Extends.refl (g : Heap α) : g.Extends g :=
  ⟨Nat.le_refl _, fun _ _ => rfl⟩

theorem Extends.trans (hg : g.Extends h) (hh : h.Extends k) : g.Extends k where
  size := Nat.le_trans hg.size hh.size
  read i hi := by rw [hh.read i (Nat.lt_of_lt_of_le hi hg.size), hg.read i hi]

theorem extends_alloc (g : Heap α) (a : α) : g.Extends (g.alloc a).2 where
  size := by rw [size_alloc]; exact Nat.le_succ _
  read := g.read_alloc_of_lt a

end Heap

namespace OrderedMap

variable {α : Type}

theorem put_of_not_mem {k : String} {l : List (String × α)} (hk : k ∉ l.map Prod.fst) (x : α) :
    put k x l = l ++ [(k, x)] := by
  induction l with
  | nil => rfl
  | cons e r ih =>
    rw [List.map_cons, List.mem_cons, not_or] at hk
    rw [put, if_neg (Ne.symm hk.1), ih hk.2, List.cons_append]

theorem entries_ofList {l : List (String × α)} (hl : (l.map Prod.fst).Nodup) :
    (ofList l).entries = l := by
  suffices h : ∀ m : OrderedMap α, (m.keys ++ l.map Prod.fst).Nodup →
      (l.foldl (fun m e => m.insert e.1 e.2) m).entries = m.entries ++ l from h ∅ hl
  clear hl
  induction l with
  | nil => exact fun m _ => (List.append_nil _).symm
  | cons e r ih =>
    intro m hnodup
    have hnew : e.1 ∉ m.keys := fun he => by
      exact (List.nodup_append.1 hnodup).2.2 e.1 he e.1 List.mem_cons_self rfl
    have hentries : (m.insert e.1 e.2).entries = m.entries ++ [e] := put_of_not_mem hnew e.2
    have hkeys : (m.insert e.1 e.2).keys = m.keys ++ [e.1] := by
      rw [keys_insert, if_neg hnew]
    rw [List.foldl_cons, ih, hentries, List.append_assoc, List.singleton_append]
    rwa [hkeys, List.append_assoc, List.singleton_append]

theorem ofList_zip {ks : List String} {xs : List α} (hks : ks.Nodup)
    (hlen : ks.length = xs.length) :
    (ofList (ks.zip xs)).keys = ks ∧ (ofList (ks.zip xs)).values = xs := by
  have hfst : (ks.zip xs).map Prod.fst = ks := List.map_fst_zip (Nat.le_of_eq hlen)
  have hentries : (ofList (ks.zip xs)).entries = ks.zip xs := entries_ofList (by rwa [hfst])
  rw [keys, values, hentries]
  exact ⟨hfst, List.map_snd_zip (Nat.le_of_eq hlen.symm)⟩

end OrderedMap

namespace Json

def scalar? : Json → Option Scalar
  | null => some .null
  | bool b => some (.bool b)
  | number n => some (.ofJsonNumber n)
  | string s => some (.string s)
  | array _ => none
  | object _ => none

def parts : Json → List Json
  | array items => items
  | object entries => entries.map Prod.snd
  | _ => []

/-- What a graph keeps of the data: a number that is no integer of 64 bits becomes a floating-point
number. -/
def stored : Json → Json
  | number n =>
    match n.toInt64? with
    | some i => ofInt64 i
    | none => ofBinary64 n.toBinary64
  | array items => array (items.map stored)
  | object entries => ofEntries (entries.map fun e => (e.1, stored e.2))
  | v => v
decreasing_by
  · decreasing_tactic
  · rename_i he
    obtain ⟨k, v⟩ := e
    have hlt := List.sizeOf_lt_of_mem he
    simp only [Prod.mk.sizeOf_spec, object.sizeOf_spec] at *
    omega

theorem stored_array (items : List Json) : stored (array items) = array (items.map stored) := by
  rw [stored]

theorem stored_object (entries : List (String × Json)) : stored (object entries) =
    ofEntries ((entries.map Prod.fst).zip ((entries.map Prod.snd).map stored)) := by
  rw [stored, List.map_map, List.zip_map']
  rfl

theorem toJson?_of_scalar {v : Json} {c : Scalar} (h : v.scalar? = some c) :
    c.toJson? = some v.stored := by
  cases v with
  | number n =>
    obtain rfl := Option.some.inj h
    rw [stored, Scalar.ofJsonNumber]
    cases n.toInt64? <;> rfl
  | array | object => cases h
  | _ =>
    obtain rfl := Option.some.inj h
    rw [stored] <;> first | rfl | nofun

end Json

section Each
variable {α β : Type} [Inhabited β]

def addEach (add : Heap β → Json → α × Heap β) (g : Heap β) : List Json → List α × Heap β
  | [] => ([], g)
  | v :: r =>
    let (a, g) := add g v
    let (as, g) := addEach add g r
    (a :: as, g)

variable {add : Heap β → Json → α × Heap β} {P : Heap β → α → Json → Prop}

/-- Whatever heap the value is put into grows by something with `P`. -/
def Grows (add : Heap β → Json → α × Heap β) (P : Heap β → α → Json → Prop) (v : Json) : Prop :=
  ∀ g, g.Extends (add g v).2 ∧ P (add g v).2 (add g v).1 v

/-- What holds of each value as it is put there holds of all of them in the end. -/
theorem addEach_grows (hmono : ∀ {g h a v}, g.Extends h → P g a v → P h a v) {vs : List Json}
    (hvs : ∀ v ∈ vs, Grows add P v) (g : Heap β) : g.Extends (addEach add g vs).2 ∧
      List.Forall₂ (P (addEach add g vs).2) (addEach add g vs).1 vs := by
  induction vs generalizing g with
  | nil => exact ⟨.refl g, .nil⟩
  | cons v r ih =>
    obtain ⟨hg, hv⟩ := hvs v List.mem_cons_self g
    obtain ⟨hgrown, hr⟩ := ih (fun w hw => hvs w (List.mem_cons_of_mem v hw)) (add g v).2
    exact ⟨hg.trans hgrown, .cons (hmono hgrown hv) hr⟩

theorem grows_of_valid (hscalar : ∀ v c, v.scalar? = some c → Grows add P v)
    (harray : ∀ vs, (∀ v ∈ vs, Grows add P v) → Grows add P (.array vs))
    (hobject : ∀ es, (es.map Prod.fst).Nodup → (∀ v ∈ es.map Prod.snd, Grows add P v) →
      Grows add P (.object es)) {v : Json} (hv : v.Valid) : Grows add P v := by
  induction hv with
  | array vs _ ih => exact harray vs ih
  | object es hs _ ih => exact hobject es hs.nodup (List.forall_mem_map.2 ih)
  | _ => exact hscalar _ _ rfl

end Each

end TaggedGraph
