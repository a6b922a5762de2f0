import TaggedGraph.Conversion.Load
import TaggedGraph.Proofs.Json.Adding
import TaggedGraph.Proofs.Json.Encoders
import TaggedGraph.Proofs.RoundTrip.SaveSucceeds

namespace TaggedGraph

/-- What is inside an object of a tree has a smaller rank. -/
def Object.rank : Object → Nat
  | .ref i => i + 1
  | _ => 0

/-- An object for the data: the same kind, the same keys and as many parts. -/
def Json.FitsObject (g : ObjectGraph) (o : Object) : Json → Prop
  | .array vs => ∃ i os, o = .ref i ∧ g.read i = .list os ∧ os.length = vs.length
  | .object es => ∃ i m, o = .ref i ∧ g.read i = .map m ∧ m.keys = es.map Prod.fst
  | v => ∃ c, o = Load.ofScalar c ∧ v.scalar? = some c

theorem Json.FitsObject.eq_ofScalar {g : ObjectGraph} {o : Object} {v : Json} {c : Scalar}
    (h : v.FitsObject g o) (hv : v.scalar? = some c) : o = Load.ofScalar c := by
  cases v with
  | array | object => cases hv
  | _ =>
    obtain ⟨c', rfl, hc'⟩ := h
    rw [Option.some.inj (hv.symm.trans hc')]

theorem Json.FitsObject.length_eq {g : ObjectGraph} {o : Object} {v : Json}
    (h : v.FitsObject g o) : (g.parts o).length = v.parts.length := by
  cases v with
  | array vs =>
    obtain ⟨i, os, rfl, hread, hlen⟩ := h
    simpa [ObjectGraph.parts, hread, Cell.parts, parts] using hlen
  | object es =>
    obtain ⟨i, m, rfl, hread, hkeys⟩ := h
    have hlen := congrArg List.length hkeys
    simpa [ObjectGraph.parts, hread, OrderedMap.keys, OrderedMap.values, Cell.parts, parts]
      using hlen
  | _ =>
    obtain ⟨c, rfl, -⟩ := h
    cases c <;> rfl

namespace ObjectGraph

/-- Object `o` is the root of a tree for the data. Its parts are older. -/
inductive Spells (g : ObjectGraph) : Object → Json → Prop
  | intro {o : Object} {v : Json} (hfits : v.FitsObject g o)
      (hlt : ∀ p ∈ g.parts o, p.rank < o.rank)
      (h : ∀ {p w}, (p, w) ∈ (g.parts o).zip v.parts → Spells g p w) : Spells g o v

variable {g h : ObjectGraph} {o p : Object} {v : Json}

theorem addJsonItems_eq (g : ObjectGraph) (vs : List Json) :
    g.addJsonItems vs = addEach addJson g vs := by
  induction vs generalizing g with
  | nil => rfl
  | cons v r ih => simp only [addJsonItems, addEach, ih]

theorem addJsonEntries_eq (g : ObjectGraph) (es : List (String × Json)) : g.addJsonEntries es =
    ((es.map Prod.fst).zip (addEach addJson g (es.map Prod.snd)).1,
      (addEach addJson g (es.map Prod.snd)).2) := by
  induction es generalizing g with
  | nil => rfl
  | cons e r ih => simp only [addJsonEntries, ih, List.map_cons, addEach, List.zip_cons_cons]

theorem addJson_of_scalar {c : Scalar} (hv : v.scalar? = some c) (g : ObjectGraph) :
    g.addJson v = (Load.ofScalar c, g) := by
  cases v with
  | number n =>
    obtain rfl := Option.some.inj hv
    rw [addJson, Object.ofJsonNumber, Scalar.ofJsonNumber]
    cases n.toInt64? <;> rfl
  | _ => cases hv <;> rfl

theorem parts_of_extends (hrank : o.rank ≤ g.size) (hg : g.Extends h) : h.parts o = g.parts o := by
  cases o with
  | ref i => simp only [ObjectGraph.parts, hg.read i hrank]
  | _ => rfl

theorem fits_of_extends (hrank : o.rank ≤ g.size) (hg : g.Extends h) (hfits : v.FitsObject g o) :
    v.FitsObject h o := by
  cases v with
  | array vs =>
    obtain ⟨i, os, rfl, hread, hlen⟩ := hfits
    exact ⟨i, os, rfl, (hg.read i hrank).trans hread, hlen⟩
  | object es =>
    obtain ⟨i, m, rfl, hread, hkeys⟩ := hfits
    exact ⟨i, m, rfl, (hg.read i hrank).trans hread, hkeys⟩
  | _ => exact hfits

theorem Spells.mono (ho : g.Spells o v) (hrank : o.rank ≤ g.size) (hg : g.Extends h) :
    h.Spells o v := by
  induction ho with
  | @intro o v hfits hlt _ ih =>
    have hparts := parts_of_extends hrank hg
    refine .intro (fits_of_extends hrank hg hfits) ?_ ?_ <;> rw [hparts]
    · exact hlt
    · intro p w hmem
      exact ih hmem (Nat.le_of_lt (Nat.lt_of_lt_of_le (hlt _ (List.of_mem_zip hmem).1) hrank))

structure HasTree (g : ObjectGraph) (o : Object) (v : Json) : Prop where
  rank : o.rank ≤ g.size
  spells : g.Spells o v

theorem HasTree.mono (ho : g.HasTree o v) (hg : g.Extends h) : h.HasTree o v :=
  ⟨Nat.le_trans ho.rank hg.size, ho.spells.mono ho.rank hg⟩

theorem hasTree_new {cell : Cell} (hg : g.Extends h)
    (hfits : v.FitsObject (h.new cell).2 (.ref h.size))
    (hrel : List.Forall₂ h.HasTree cell.parts v.parts) :
    g.Extends (h.new cell).2 ∧ (h.new cell).2.HasTree (.ref h.size) v := by
  have hread : (h.new cell).2.read h.size = cell := h.read_alloc_self _
  have hnew : h.Extends (h.new cell).2 := h.extends_alloc _
  refine ⟨hg.trans hnew, ?_, .intro hfits ?_ ?_⟩
  · simp [new, Heap.size_alloc, Object.rank]
  · rw [ObjectGraph.parts, hread]
    intro p hp
    obtain ⟨w, -, hw⟩ := forall₂_exists_right hrel hp
    exact Nat.lt_succ_of_le hw.rank
  · rw [ObjectGraph.parts, hread]
    exact fun hmem => ((List.forall₂_zip hrel hmem).mono hnew).spells

theorem grows_scalar {c : Scalar} (hv : v.scalar? = some c) : Grows addJson HasTree v := by
  intro (g : ObjectGraph)
  rw [addJson_of_scalar hv]
  have hfits : v.FitsObject g (Load.ofScalar c) := by
    cases v <;> first | exact ⟨c, rfl, hv⟩ | cases hv
  have hparts : g.parts (Load.ofScalar c) = [] := by cases c <;> rfl
  refine ⟨.refl g, ?_, .intro hfits ?_ ?_⟩
  · cases c <;> exact Nat.zero_le _
  · simp [hparts]
  · simp [hparts]

theorem grows_array (vs : List Json) (hvs : ∀ v ∈ vs, Grows addJson HasTree v) :
    Grows addJson HasTree (.array vs) := by
  intro g
  obtain ⟨hg, hrel⟩ := addEach_grows (fun hg h => h.mono hg) hvs g
  simp only [addJson, addJsonItems_eq]
  exact hasTree_new hg ⟨_, _, rfl, Heap.read_alloc_self _ _, hrel.length_eq⟩ hrel

theorem grows_object (es : List (String × Json)) (hkeys : (es.map Prod.fst).Nodup)
    (hes : ∀ v ∈ es.map Prod.snd, Grows addJson HasTree v) :
    Grows addJson HasTree (.object es) := by
  intro g
  obtain ⟨hg, hrel⟩ := addEach_grows (fun hg h => h.mono hg) hes g
  have hlen : (es.map Prod.fst).length = (addEach addJson g (es.map Prod.snd)).1.length := by
    rw [hrel.length_eq, List.length_map, List.length_map]
  obtain ⟨hfst, hsnd⟩ := OrderedMap.ofList_zip hkeys hlen
  simp only [addJson, addJsonEntries_eq]
  refine hasTree_new hg ⟨_, _, rfl, Heap.read_alloc_self _ _, hfst⟩ ?_
  rwa [Cell.parts, hsnd]

theorem addJson_grows (hv : v.Valid) : Grows addJson HasTree v :=
  grows_of_valid (fun _ _ => grows_scalar) grows_array grows_object hv

/-- The ids go down along every path of a tree, so that none comes twice. -/
theorem Spells.toJsonOn? (ho : g.Spells o v) {fuel : Nat} {path : List ObjectId}
    (hfuel : o.rank < fuel) (hpath : ∀ i ∈ path, o.rank ≤ i) :
    g.toJsonOn? fuel path o = some v.stored := by
  induction ho generalizing fuel path with
  | @intro o v hfits hlt _ ih =>
    obtain ⟨fuel, rfl⟩ := Nat.exists_eq_succ_of_ne_zero (Nat.ne_zero_of_lt hfuel)
    have hparts {i : ObjectId} (hi : o = .ref i) :
        (g.parts o).mapM (g.toJsonOn? fuel (i :: path)) = some (v.parts.map Json.stored) := by
      subst hi
      rw [mapM_eq_some, List.forall₂_map_right_iff]
      refine List.forall₂_iff_zip.2 ⟨hfits.length_eq, fun {p w} hmem => ?_⟩
      have hp : p.rank < i + 1 := hlt p (List.of_mem_zip hmem).1
      refine ih hmem (Nat.lt_of_lt_of_le hp (Nat.le_of_lt_succ hfuel)) ?_
      exact List.forall_mem_cons.2 ⟨Nat.le_of_lt_succ hp, fun j hj =>
        Nat.le_of_lt (Nat.lt_of_lt_of_le hp (hpath j hj))⟩
    have hnew {i : ObjectId} (hi : o = .ref i) : i ∉ path := by
      subst hi
      exact fun hmem => Nat.not_succ_le_self i (hpath i hmem)
    cases v with
    | array vs =>
      obtain ⟨i, os, rfl, hread, -⟩ := hfits
      have hparts := hparts rfl
      rw [ObjectGraph.parts, hread] at hparts
      rw [toJsonOn?_list (hnew rfl) hread, Json.stored_array]
      exact congrArg (Option.map Json.array) hparts
    | object es =>
      obtain ⟨i, m, rfl, hread, hkeys⟩ := hfits
      have hparts := hparts rfl
      rw [ObjectGraph.parts, hread] at hparts
      rw [toJsonOn?_map (hnew rfl) hread, Json.stored_object, hkeys]
      exact congrArg (Option.map _) hparts
    | _ =>
      obtain ⟨c, rfl, hv⟩ := hfits
      rw [toJsonOn?_scalar (Load.scalar?_ofScalar c), Json.toJson?_of_scalar hv]

theorem HasTree.reachable (ho : g.HasTree o v) (hp : g.Reachable o p) : ∃ w, g.HasTree p w := by
  induction hp with
  | refl => exact ⟨v, ho⟩
  | step _ hq ih =>
    obtain ⟨w, hrank, hw⟩ := ih
    cases hw with
    | intro hfits hlt h =>
      have hrel := List.forall₂_iff_zip.2 ⟨hfits.length_eq, h⟩
      obtain ⟨w', -, hw'⟩ := forall₂_exists_right hrel hq
      exact ⟨w', Nat.le_of_lt (Nat.lt_of_lt_of_le (hlt _ hq) hrank), hw'⟩

theorem Spells.plain (ho : g.Spells o v) : o.isPending = false ∧ g.native? o = none := by
  cases ho with
  | intro hfits =>
    cases v with
    | array | object =>
      obtain ⟨i, _, rfl, hread, -⟩ := hfits
      simp [Object.isPending, native?, cell?, hread]
    | _ =>
      obtain ⟨c, rfl, -⟩ := hfits
      cases c <;> exact ⟨rfl, rfl⟩

theorem HasTree.closed (ho : g.HasTree o v) : g.Closed o := by
  intro i hi
  obtain ⟨w, hw⟩ := ho.reachable hi
  exact hw.rank

theorem HasTree.complete (ho : g.HasTree o v) : g.Complete o := by
  intro p hp
  obtain ⟨w, hw⟩ := ho.reachable hp
  exact hw.spells.plain.1

theorem HasTree.raw (ho : g.HasTree o v) : g.Raw o := by
  intro p hp
  obtain ⟨w, hw⟩ := ho.reachable hp
  exact hw.spells.plain.2

theorem toJson?_addJson (hv : v.Valid) (g : ObjectGraph) :
    (g.addJson v).2.toJson? (g.addJson v).1 = some v.stored := by
  obtain ⟨-, hrank, hspells⟩ := addJson_grows hv g
  exact hspells.toJsonOn? (Nat.lt_succ_of_le hrank) (by simp)

end ObjectGraph

end TaggedGraph
