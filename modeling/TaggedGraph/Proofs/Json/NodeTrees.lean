import TaggedGraph.Proofs.Json.Adding
import TaggedGraph.Proofs.Json.Encoders

namespace TaggedGraph

/-- The content of a node for the data: the same kind, the same keys and as many children. -/
def Json.Fits (ct : Content) : Json → Prop
  | .array vs => ∃ ns, ct = .sequence ns ∧ ns.length = vs.length
  | .object es => ∃ m, ct = .mapping m ∧ m.keys = es.map Prod.fst
  | v => ∃ c, ct = .scalar c ∧ v.scalar? = some c

theorem Json.Fits.scalar {c : Scalar} {v : Json} (h : v.Fits (.scalar c)) :
    v.scalar? = some c := by
  cases v <;> obtain ⟨_, ⟨⟩, hv⟩ := h <;> exact hv

theorem Json.Fits.length_eq {ct : Content} {v : Json} (h : v.Fits ct) :
    ct.children.length = v.parts.length := by
  cases v with
  | array vs =>
    obtain ⟨ns, rfl, hlen⟩ := h
    exact hlen
  | object es =>
    obtain ⟨m, rfl, hkeys⟩ := h
    have hlen := congrArg List.length hkeys
    simpa [OrderedMap.keys, OrderedMap.values, Content.children, parts] using hlen
  | _ =>
    obtain ⟨c, rfl, -⟩ := h
    rfl

namespace NodeGraph

/-- Node `n` is the root of a tree for the data. It has no tag, and its children are older. -/
inductive Spells (g : NodeGraph) : NodeId → Json → Prop
  | intro {n : NodeId} {v : Json} (ht : g.tag n = none) (hfits : v.Fits (g.content n))
      (hlt : ∀ m ∈ g.children n, m < n)
      (h : ∀ {m w}, (m, w) ∈ (g.children n).zip v.parts → Spells g m w) : Spells g n v

variable {g h : NodeGraph} {n m : NodeId} {v : Json}

theorem addJsonItems_eq (g : NodeGraph) (vs : List Json) :
    g.addJsonItems vs = addEach addJson g vs := by
  induction vs generalizing g with
  | nil => rfl
  | cons v r ih => simp only [addJsonItems, addEach, ih]

theorem addJsonEntries_eq (g : NodeGraph) (es : List (String × Json)) : g.addJsonEntries es =
    ((es.map Prod.fst).zip (addEach addJson g (es.map Prod.snd)).1,
      (addEach addJson g (es.map Prod.snd)).2) := by
  induction es generalizing g with
  | nil => rfl
  | cons e r ih => simp only [addJsonEntries, ih, List.map_cons, addEach, List.zip_cons_cons]

theorem addJson_of_scalar {c : Scalar} (hv : v.scalar? = some c) (g : NodeGraph) :
    g.addJson v = g.new (.scalar c) := by
  cases v <;> cases hv <;> rfl

theorem Spells.children (hn : g.Spells n v) :
    List.Forall₂ g.Spells (g.children n) v.parts := by
  cases hn with
  | intro _ hfits _ h => exact List.forall₂_iff_zip.2 ⟨hfits.length_eq, h⟩

theorem Spells.mono (hn : g.Spells n v) (hlt : n < g.size) (hg : g.Extends h) : h.Spells n v := by
  induction hn with
  | @intro n v ht hfits hlts _ ih =>
    have hread : h.read n = g.read n := hg.read n hlt
    unfold NodeGraph.children content tag at *
    rw [← hread] at ht hfits hlts ih
    refine .intro ht hfits hlts fun hmem => ih hmem ?_
    exact Nat.lt_trans (hlts _ (List.of_mem_zip hmem).1) hlt

structure HasTree (g : NodeGraph) (n : NodeId) (v : Json) : Prop where
  lt : n < g.size
  spells : g.Spells n v

theorem HasTree.mono (hn : g.HasTree n v) (hg : g.Extends h) : h.HasTree n v :=
  ⟨Nat.lt_of_lt_of_le hn.lt hg.size, hn.spells.mono hn.lt hg⟩

theorem hasTree_new {ct : Content} (hg : g.Extends h) (hfits : v.Fits ct)
    (hrel : List.Forall₂ h.HasTree ct.children v.parts) :
    g.Extends (h.new ct).2 ∧ (h.new ct).2.HasTree h.size v := by
  have hread : (h.new ct).2.read h.size = ⟨none, ct⟩ := h.read_alloc_self _
  have hnew : h.Extends (h.new ct).2 := h.extends_alloc _
  refine ⟨hg.trans hnew, by simp [new, Heap.size_alloc], .intro ?_ ?_ ?_ ?_⟩ <;>
    simp only [NodeGraph.children, content, tag, hread]
  · exact hfits
  · intro m hm
    obtain ⟨w, -, hw⟩ := forall₂_exists_right hrel hm
    exact hw.lt
  · exact fun hmem => ((List.forall₂_zip hrel hmem).mono hnew).spells

theorem grows_scalar {c : Scalar} (hv : v.scalar? = some c) : Grows addJson HasTree v := by
  intro g
  rw [addJson_of_scalar hv]
  have hfits : v.Fits (.scalar c) := by
    cases v <;> first | exact ⟨c, rfl, hv⟩ | cases hv
  have hparts : v.parts = [] := List.eq_nil_of_length_eq_zero hfits.length_eq.symm
  refine hasTree_new (.refl g) hfits ?_
  rw [hparts]
  exact .nil

theorem grows_array (vs : List Json) (hvs : ∀ v ∈ vs, Grows addJson HasTree v) :
    Grows addJson HasTree (.array vs) := by
  intro g
  obtain ⟨hg, hrel⟩ := addEach_grows (fun hg h => h.mono hg) hvs g
  simp only [addJson, addJsonItems_eq]
  exact hasTree_new hg ⟨_, rfl, hrel.length_eq⟩ hrel

theorem grows_object (es : List (String × Json)) (hkeys : (es.map Prod.fst).Nodup)
    (hes : ∀ v ∈ es.map Prod.snd, Grows addJson HasTree v) :
    Grows addJson HasTree (.object es) := by
  intro g
  obtain ⟨hg, hrel⟩ := addEach_grows (fun hg h => h.mono hg) hes g
  have hlen : (es.map Prod.fst).length = (addEach addJson g (es.map Prod.snd)).1.length := by
    rw [hrel.length_eq, List.length_map, List.length_map]
  obtain ⟨hfst, hsnd⟩ := OrderedMap.ofList_zip hkeys hlen
  simp only [addJson, addJsonEntries_eq]
  refine hasTree_new hg ⟨_, rfl, hfst⟩ ?_
  rwa [Content.children, hsnd]

theorem addJson_grows (hv : v.Valid) : Grows addJson HasTree v :=
  grows_of_valid (fun _ _ => grows_scalar) grows_array grows_object hv

/-- The ids go down along every path of a tree, so that none comes twice. -/
theorem Spells.toJsonOn? (hn : g.Spells n v) {fuel : Nat} {path : List NodeId} (hfuel : n < fuel)
    (hpath : ∀ p ∈ path, n < p) : g.toJsonOn? fuel path n = some v.stored := by
  induction hn generalizing fuel path with
  | @intro n v _ hfits hlt _ ih =>
    obtain ⟨fuel, rfl⟩ := Nat.exists_eq_succ_of_ne_zero (Nat.ne_zero_of_lt hfuel)
    have hnew : n ∉ path := fun hmem => Nat.lt_irrefl n (hpath n hmem)
    have hparts : (g.children n).mapM (g.toJsonOn? fuel (n :: path)) =
        some (v.parts.map Json.stored) := by
      rw [mapM_eq_some, List.forall₂_map_right_iff]
      refine List.forall₂_iff_zip.2 ⟨hfits.length_eq, fun {m w} hmem => ?_⟩
      have hm : m < n := hlt m (List.of_mem_zip hmem).1
      refine ih hmem (Nat.lt_of_lt_of_le hm (Nat.le_of_lt_succ hfuel)) ?_
      exact List.forall_mem_cons.2 ⟨hm, fun p hp => Nat.lt_trans hm (hpath p hp)⟩
    unfold NodeGraph.children at hparts
    cases v with
    | array vs =>
      obtain ⟨ns, hct, -⟩ := hfits
      rw [hct] at hparts
      rw [toJsonOn?_sequence hnew hct, Json.stored_array]
      exact congrArg (Option.map Json.array) hparts
    | object es =>
      obtain ⟨m, hct, hkeys⟩ := hfits
      rw [hct] at hparts
      rw [toJsonOn?_mapping hnew hct, Json.stored_object, hkeys]
      exact congrArg (Option.map _) hparts
    | _ =>
      obtain ⟨c, hct, hv⟩ := hfits
      rw [toJsonOn?_scalar hnew hct, Json.toJson?_of_scalar hv]

theorem Spells.reachable (hn : g.Spells n v) (hm : g.Reachable n m) : ∃ w, g.Spells m w := by
  induction hm with
  | refl => exact ⟨v, hn⟩
  | step _ hk ih =>
    obtain ⟨w, hw⟩ := ih
    obtain ⟨w', -, hw'⟩ := forall₂_exists_right hw.children hk
    exact ⟨w', hw'⟩

theorem Spells.tag_eq_none (hn : g.Spells n v) : g.tag n = none := by
  cases hn with
  | intro ht => exact ht

theorem toJson?_addJson (hv : v.Valid) (g : NodeGraph) :
    (g.addJson v).2.toJson? (g.addJson v).1 = some v.stored := by
  obtain ⟨-, hlt, hspells⟩ := addJson_grows hv g
  exact hspells.toJsonOn? (Nat.lt_succ_of_lt hlt) (by simp)

end NodeGraph

end TaggedGraph
