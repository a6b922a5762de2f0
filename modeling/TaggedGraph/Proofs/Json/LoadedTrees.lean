import TaggedGraph.Object.Equality
import TaggedGraph.Proofs.Bisimilar
import TaggedGraph.Proofs.Json.Converted
import TaggedGraph.Proofs.Json.NodeTrees
import TaggedGraph.Proofs.Json.ObjectTrees

namespace TaggedGraph

namespace Binary64

theorem isNaN_ofMagnitude (negative : Bool) {magnitude : Nat} (h : magnitude ≤ infinityMagnitude) :
    (ofMagnitude negative magnitude).isNaN = false := by
  have hinfinity : infinityMagnitude = 2047 * 4503599627370496 := rfl
  have hbits : (ofMagnitude negative magnitude).bits.toNat =
      magnitude + if negative then 9223372036854775808 else 0 := by
    refine Nat.mod_eq_of_lt ?_
    change magnitude + (if negative then 9223372036854775808 else 0) < 18446744073709551616
    split <;> omega
  have hfield : (ofMagnitude negative magnitude).exponentField ≠ 2047 ∨
      (ofMagnitude negative magnitude).fractionField = 0 := by
    unfold exponentField fractionField
    rw [hbits, show fractionPlace = 4503599627370496 from rfl, show exponentCount = 2048 from rfl]
    split <;> omega
  rcases hfield with hfield | hfield
  · simp [isNaN, isFinite, exponentCount, hfield]
  · simp [isNaN, hfield]

theorem isNaN_ofInt (i : Int) : (ofInt i).isNaN = false := by
  unfold ofInt ofRatio
  split
  · exact isNaN_ofMagnitude _ (Nat.zero_le _)
  · exact isNaN_ofMagnitude _ (Nat.min_le_right _ _)

end Binary64

namespace Json

theorem Valid.parts {v : Json} (hv : v.Valid) : ∀ w ∈ v.parts, w.Valid := by
  cases hv with
  | array _ h => exact h
  | object _ _ h => exact List.forall_mem_map.2 h
  | _ => simp [Json.parts]

theorem Valid.isNaN {v : Json} (hv : v.Valid) {x : Binary64}
    (hx : v.scalar? = some (.float x)) : x.isNaN = false := by
  cases hv with
  | number n hn =>
    simp only [scalar?, Scalar.ofJsonNumber, Option.some_inj] at hx
    split at hx
    · cases hx
    · cases hx
      cases n with
      | int i => exact Binary64.isNaN_ofInt i
      | float x => simp [JsonNumber.toBinary64, Binary64.isNaN, show x.isFinite = true from hn]
  | _ => cases hx

end Json

theorem OrderedMap.forall₂_entries {α β : Type} {R : α → β → Prop} (m : OrderedMap α)
    {es : List (String × β)} (hkeys : m.keys = es.map Prod.fst)
    (h : List.Forall₂ R m.values (es.map Prod.snd)) :
    List.Forall₂ (fun e e' => e.1 = e'.1 ∧ R e.2 e'.2) m.entries es := by
  have hsame : List.Forall₂ (· = ·) m.keys (es.map Prod.fst) := by rwa [List.forall₂_eq_eq_eq]
  have hfst := List.forall₂_map_right_iff.1 (List.forall₂_map_left_iff.1 hsame)
  have hsnd := List.forall₂_map_right_iff.1 (List.forall₂_map_left_iff.1 h)
  exact List.forall₂_iff_zip.2 ⟨hfst.length_eq, fun hmem =>
    ⟨List.forall₂_zip hfst hmem, List.forall₂_zip hsnd hmem⟩⟩

namespace ObjectGraph

variable {g : ObjectGraph} {fuel : Nat} {seen : List (ObjectId × ObjectId)} {i j : ObjectId}

theorem equalItems_of_forall₂ {eq : Object → Object → Option Bool} {xs ys : List Object}
    (h : List.Forall₂ (fun x y => eq x y = some true) xs ys) : equalItems eq xs ys = some true := by
  induction h with
  | nil => rfl
  | cons hxy _ ih => simp [equalItems, hxy, ih]

theorem equalEntries_of_forall {eq : Object → Object → Option Bool} {m : OrderedMap Object}
    {entries : List (String × Object)}
    (h : ∀ e ∈ entries, ∃ y, m.get? e.1 = some y ∧ eq e.2 y = some true) :
    equalEntries eq m entries = some true := by
  induction entries with
  | nil => rfl
  | cons e r ih =>
    obtain ⟨⟨y, hy, heq⟩, hr⟩ := List.forall_mem_cons.1 h
    simp [equalEntries, hy, heq, ih hr]

theorem equalWithin_scalar {c : Scalar} (hc : ∀ x, c = .float x → x.isNaN = false) :
    g.equalWithin (fuel + 1) seen (Load.ofScalar c) (Load.ofScalar c) = some true := by
  cases c with
  | float x => simp [Load.ofScalar, equalWithin, Binary64.same, hc x rfl]
  | _ => simp [Load.ofScalar, equalWithin]

theorem equalWithin_lists {xs ys : List Object} (hi : g.read i = .list xs)
    (hj : g.read j = .list ys)
    (h : List.Forall₂ (fun x y => g.equalWithin fuel ((i, j) :: seen) x y = some true) xs ys) :
    g.equalWithin (fuel + 1) seen (.ref i) (.ref j) = some true := by
  rw [equalWithin, hi, hj]
  simp only [h.length_eq, ne_eq, not_true_eq_false, if_false, equalItems_of_forall₂ h, ite_self]

theorem equalWithin_maps_of_get? {m m' : OrderedMap Object} (hi : g.read i = .map m)
    (hj : g.read j = .map m') (hsize : m.size = m'.size)
    (h : ∀ e ∈ m.entries, ∃ y, m'.get? e.1 = some y ∧
      g.equalWithin fuel ((i, j) :: seen) e.2 y = some true) :
    g.equalWithin (fuel + 1) seen (.ref i) (.ref j) = some true := by
  rw [equalWithin, hi, hj]
  simp only [hsize, ne_eq, not_true_eq_false, if_false, equalEntries_of_forall h, ite_self]

theorem equalWithin_maps {m m' : OrderedMap Object} (hi : g.read i = .map m)
    (hj : g.read j = .map m') (hkeys : m.keys = m'.keys)
    (h : List.Forall₂ (fun x y => g.equalWithin fuel ((i, j) :: seen) x y = some true)
      m.values m'.values) :
    g.equalWithin (fuel + 1) seen (.ref i) (.ref j) = some true := by
  refine equalWithin_maps_of_get? hi hj ?_ fun e he => ?_
  · rw [← m.length_keys, ← m'.length_keys, hkeys]
  · obtain ⟨e', he', hkey, hvalue⟩ := forall₂_exists_right (m.forall₂_entries hkeys h) he
    exact ⟨e'.2, hkey ▸ OrderedMap.get?_eq_some_iff.2 he', hvalue⟩

end ObjectGraph

namespace Load

variable {session : Session} {nodes : NodeGraph} {root n : NodeId} {s : LoadState} {o b : Object}
  {v : Json} {k : ObjectGraph}

theorem GivesResults.equalWithin_of_children (hgives : GivesResults session nodes root s o)
    (h : Unconverted session nodes root) (hbound : ∀ b ∈ s.built, b.2 < s.objects.size)
    (hk : s.objects.Extends k) (hn : nodes.Reachable root n) (hv : v.Valid)
    (hfits : v.Fits (nodes.content n)) (hfits' : v.FitsObject k b) {fuel : Nat}
    (hrel : ∀ seen, List.Forall₂ (fun c p => k.equalWithin fuel seen (s.result c) p = some true)
      (nodes.children n) (k.parts b)) (seen : List (ObjectId × ObjectId)) :
    k.equalWithin (fuel + 1) seen (s.result n) b = some true := by
  unfold NodeGraph.children at hrel
  rcases hgives.result_cases h hn with ⟨c, hct, hc⟩ | ⟨id, hbuilt, hid⟩
  · rw [hct] at hfits
    have hscalar := hfits.scalar
    rw [hc, hfits'.eq_ofScalar hscalar]
    exact ObjectGraph.equalWithin_scalar fun x hx => hv.isNaN (hx ▸ hscalar)
  · have hcell := hgives.builtWith n id hbuilt
    rw [← hk.read id (hbound _ hbuilt)] at hcell
    rw [hid]
    cases v with
    | array vs =>
      obtain ⟨ns, hct, -⟩ := hfits
      obtain ⟨j, os, rfl, hread, -⟩ := hfits'
      rw [hct] at hcell hrel
      rw [ObjectGraph.parts, hread] at hrel
      exact ObjectGraph.equalWithin_lists hcell hread (List.forall₂_map_left_iff.2 (hrel _))
    | object es =>
      obtain ⟨m, hct, hkeys⟩ := hfits
      obtain ⟨j, m', rfl, hread, hkeys'⟩ := hfits'
      rw [hct] at hcell hrel
      rw [ObjectGraph.parts, hread] at hrel
      refine ObjectGraph.equalWithin_maps hcell hread ?_ ?_
      · rw [OrderedMap.keys_map, hkeys, hkeys']
      · rw [OrderedMap.values_map]
        exact List.forall₂_map_left_iff.2 (hrel _)
    | _ =>
      obtain ⟨c, hct, -⟩ := hfits
      rw [hct] at hcell
      exact hcell.elim

/-- A tree of nodes and a tree of objects for the same data: the load of the one is equal to the
other. -/
theorem GivesResults.equalWithin_of_spells (hgives : GivesResults session nodes root s o)
    (h : Unconverted session nodes root) (hbound : ∀ b ∈ s.built, b.2 < s.objects.size)
    (hk : s.objects.Extends k) (hspells : nodes.Spells n v) (hn : nodes.Reachable root n)
    (hv : v.Valid) (hb : k.Spells b v) {fuel : Nat} (hfuel : b.rank < fuel)
    (seen : List (ObjectId × ObjectId)) :
    k.equalWithin fuel seen (s.result n) b = some true := by
  induction hspells generalizing b fuel seen with
  | @intro n v _ hfits _ _ ih =>
    obtain ⟨fuel, rfl⟩ := Nat.exists_eq_succ_of_ne_zero (Nat.ne_zero_of_lt hfuel)
    obtain ⟨hfits', hlt, hparts⟩ := hb
    refine hgives.equalWithin_of_children h hbound hk hn hv hfits hfits' (fun seen => ?_) seen
    have hkids : List.Forall₂ (fun c w => ∀ p, k.Spells p w → p.rank < fuel →
        k.equalWithin fuel seen (s.result c) p = some true) (nodes.children n) v.parts :=
      List.forall₂_iff_zip.2 ⟨hfits.length_eq, fun hmem p hp hrank => by
        obtain ⟨hc, hw⟩ := List.of_mem_zip hmem
        exact ih hmem (hn.step hc) (hv.parts _ hw) hp hrank seen⟩
    have hspelled : List.Forall₂ (fun p w => k.Spells p w ∧ p.rank < fuel) (k.parts b) v.parts :=
      List.forall₂_iff_zip.2 ⟨hfits'.length_eq, fun hmem => by
        have hrank := hlt _ (List.of_mem_zip hmem).1
        exact ⟨hparts hmem, Nat.lt_of_lt_of_le hrank (Nat.le_of_lt_succ hfuel)⟩⟩
    refine (forall₂_comp hkids hspelled.flip).imp ?_
    rintro c p ⟨w, hc, hp, hrank⟩
    exact hc p hp hrank

end Load

end TaggedGraph
