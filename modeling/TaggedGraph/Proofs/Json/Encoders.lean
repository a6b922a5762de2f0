import Mathlib.Data.List.Perm.Subperm
import TaggedGraph.Proofs.Forall2
import TaggedGraph.Proofs.Json.Paths
import TaggedGraph.Proofs.Postorder
import TaggedGraph.Proofs.RoundTrip.Written

namespace TaggedGraph

section Lists
variable {α β γ : Type}

theorem mapM_eq_of_forall₂ {R : α → β → Prop} {f : α → Option γ} {f' : β → Option γ}
    {as : List α} {bs : List β} (h : List.Forall₂ R as bs)
    (hf : ∀ a ∈ as, ∀ b ∈ bs, R a b → f a = f' b) : as.mapM f = bs.mapM f' := by
  induction h with
  | nil => rfl
  | @cons a b as bs hab _ ih =>
    have hrest : as.mapM f = bs.mapM f' := ih fun a' ha b' hb => by
      exact hf a' (List.mem_cons_of_mem _ ha) b' (List.mem_cons_of_mem _ hb)
    rw [List.mapM_cons, List.mapM_cons, hf a List.mem_cons_self b List.mem_cons_self hab, hrest]

theorem mapM_eq_some {f : α → Option β} {as : List α} {bs : List β} :
    as.mapM f = some bs ↔ List.Forall₂ (fun a b => f a = some b) as bs := by
  induction as generalizing bs with
  | nil => simp [eq_comm]
  | cons a as ih =>
    cases bs with
    | nil => cases h : f a <;> cases h' : as.mapM f <;> simp [h, h']
    | cons b bs =>
      rw [List.forall₂_cons, ← ih]
      cases h : f a <;> cases h' : as.mapM f <;> simp [h, h']

theorem OrderedMap.keys_map (f : α → β) (m : OrderedMap α) : (m.map f).keys = m.keys := by
  simp [map, keys]

theorem OrderedMap.values_map (f : α → β) (m : OrderedMap α) :
    (m.map f).values = m.values.map f := by
  simp [map, values]

end Lists

/-- A path without repetition in a heap of `size` cells, with fuel for as long as it may grow. -/
structure Room (size fuel : Nat) (path : List Nat) : Prop where
  nodup : path.Nodup
  bound : ∀ i ∈ path, i < size
  enough : size < fuel + path.length

namespace Room

variable {size fuel : Nat} {path : List Nat}

theorem nil (size : Nat) : Room size (size + 1) [] :=
  ⟨List.nodup_nil, by simp, Nat.lt_succ_self size⟩

theorem cons {i : Nat} (h : Room size (fuel + 1) path) (hi : i ∉ path) (hlt : i < size) :
    Room size fuel (i :: path) where
  nodup := List.nodup_cons.2 ⟨hi, h.nodup⟩
  bound := List.forall_mem_cons.2 ⟨hlt, h.bound⟩
  enough := by
    have henough := h.enough
    rw [List.length_cons]
    omega

theorem exists_succ (h : Room size fuel path) : ∃ rest, fuel = rest + 1 := by
  have hsub : path.Subperm (List.range size) :=
    List.subperm_of_subset h.nodup fun i hi => List.mem_range.2 (h.bound i hi)
  have hlen : path.length ≤ size := by simpa using hsub.length_le
  have henough := h.enough
  exact ⟨fuel - 1, by omega⟩

end Room

section
variable {g : ObjectGraph} {nodes : NodeGraph} {R : Object → NodeId → Prop} {a : Object}
  {b : NodeId}

theorem ObjectGraph.WrittenAs.cases {ct : Content} (h : g.WrittenAs R a ct) :
    (∃ v, a.scalar? = some v ∧ ct = .scalar v) ∨
      ∃ i, a = .ref i ∧ (g.read i).WrittenAs R ct := by
  cases a with
  | ref i => exact .inr ⟨i, rfl, h⟩
  | _ => exact .inl h

theorem Cell.WrittenAs.toJsonOn?_eq {fuel fuel' : Nat} {ids : List ObjectId} {ns : List NodeId}
    {i : ObjectId} (h : (g.read i).WrittenAs R (nodes.content b)) (hi : i ∉ ids) (hb : b ∉ ns)
    (hparts : ∀ o ∈ (g.read i).parts, ∀ c ∈ nodes.children b, R o c →
      g.toJsonOn? fuel (i :: ids) o = nodes.toJsonOn? fuel' (b :: ns) c) :
    g.toJsonOn? (fuel + 1) ids (.ref i) = nodes.toJsonOn? (fuel' + 1) ns b := by
  unfold NodeGraph.children at hparts
  cases hread : g.read i with
  | list items =>
    rw [hread] at h hparts
    obtain ⟨cs, hct, hrel⟩ := h
    rw [hct] at hparts
    rw [ObjectGraph.toJsonOn?_list hi hread, NodeGraph.toJsonOn?_sequence hb hct,
      mapM_eq_of_forall₂ hrel hparts]
  | map entries =>
    rw [hread] at h hparts
    obtain ⟨m, hct, hkeys, hrel⟩ := h
    rw [hct] at hparts
    rw [ObjectGraph.toJsonOn?_map hi hread, NodeGraph.toJsonOn?_mapping hb hct, hkeys,
      mapM_eq_of_forall₂ hrel hparts]
  | native =>
    rw [hread] at h
    exact h.elim

end

/-- Related objects and nodes have the same content, and a list or map has one node, which is that
of no other object. Primitives may have many nodes. -/
structure Pictures (g : ObjectGraph) (nodes : NodeGraph) (R : Object → NodeId → Prop) : Prop where
  written : ∀ {a b}, R a b → g.WrittenAs R a (nodes.content b)
  inj : ∀ {i a b}, R (.ref i) b → R a b → a = .ref i
  unique : ∀ {i b b'}, R (.ref i) b → R (.ref i) b' → b = b'

namespace Pictures

variable {g : ObjectGraph} {nodes : NodeGraph} {R : Object → NodeId → Prop} {a : Object}
  {b : NodeId} {ids : List ObjectId} {ns : List NodeId}

theorem mem_iff (h : Pictures g nodes R) (hpath : List.Forall₂ (fun i n => R (.ref i) n) ids ns)
    {i : ObjectId} (hib : R (.ref i) b) : b ∈ ns ↔ i ∈ ids := by
  constructor
  · intro hb
    obtain ⟨j, hj, hjb⟩ := forall₂_exists_left hpath hb
    cases h.inj hjb hib
    exact hj
  · intro hi
    obtain ⟨n, hn, hin⟩ := forall₂_exists_right hpath hi
    rwa [h.unique hib hin]

theorem not_mem (h : Pictures g nodes R) (hpath : List.Forall₂ (fun i n => R (.ref i) n) ids ns)
    {v : Scalar} (ha : a.scalar? = some v) (hab : R a b) : b ∉ ns := by
  intro hb
  obtain ⟨j, -, hjb⟩ := forall₂_exists_left hpath hb
  cases h.inj hjb hab
  cases ha

/-- On paths that correspond the encoders give the same data, or none at all. -/
theorem toJsonOn?_eq (h : Pictures g nodes R) {fuel fuel' : Nat}
    (hpath : List.Forall₂ (fun i n => R (.ref i) n) ids ns) (hroom : Room g.size fuel ids)
    (hroom' : Room nodes.size fuel' ns) (hab : R a b) :
    g.toJsonOn? fuel ids a = nodes.toJsonOn? fuel' ns b := by
  induction fuel generalizing fuel' ids ns a b with
  | zero =>
    obtain ⟨rest, hrest⟩ := hroom.exists_succ
    cases hrest
  | succ fuel ih =>
    obtain ⟨fuel', rfl⟩ := hroom'.exists_succ
    have hwritten := h.written hab
    rcases hwritten.cases with ⟨v, hv, hct⟩ | ⟨i, rfl, hcell⟩
    · rw [ObjectGraph.toJsonOn?_scalar hv, NodeGraph.toJsonOn?_scalar (h.not_mem hpath hv hab) hct]
    · by_cases hi : i ∈ ids
      · have hb : b ∈ ns := (h.mem_iff hpath hab).2 hi
        rw [ObjectGraph.toJsonOn?_of_mem hi, NodeGraph.toJsonOn?_of_mem hb]
      · have hb : b ∉ ns := fun hb => hi ((h.mem_iff hpath hab).1 hb)
        -- a list or map with parts is in the heap, and so is its node
        refine hcell.toJsonOn?_eq hi hb fun o ho c hc hoc => ih (.cons hab hpath) ?_ ?_ hoc
        · exact hroom.cons hi (ObjectGraph.lt_size_of_mem_parts ho)
        · exact hroom'.cons hb (NodeGraph.lt_size_of_children (List.ne_nil_of_mem hc))

theorem toJson?_eq (h : Pictures g nodes R) (hab : R a b) : g.toJson? a = nodes.toJson? b :=
  h.toJsonOn?_eq .nil (.nil _) (.nil _) hab

end Pictures

end TaggedGraph
