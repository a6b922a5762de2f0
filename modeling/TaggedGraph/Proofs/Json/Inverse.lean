import TaggedGraph.Proofs.Json.Guarded
import TaggedGraph.Proofs.Json.LoadedTrees
import TaggedGraph.Proofs.RoundTrip.Reloaded

namespace TaggedGraph

namespace JsonNumber

theorem inInt64_iff (i : Int) : inInt64 i = true ↔ -2 ^ 63 ≤ i ∧ i < 2 ^ 63 := by
  simp only [inInt64, Bool.and_eq_true, decide_eq_true_eq]
  omega

theorem inInt64_toInt (i : Int64) : inInt64 i.toInt = true :=
  (inInt64_iff _).mpr ⟨i.le_toInt, i.toInt_lt⟩

end JsonNumber

namespace Json

/-- The value `w` stands somewhere in `v`. -/
inductive Within (w : Json) : Json → Prop
  | refl : Within w w
  | part {u v : Json} (hu : u ∈ v.parts) (h : Within w u) : Within w v

/-- All integers in the value have 64 bits with a sign. -/
def IntsFit (v : Json) : Prop :=
  ∀ i, Within (.number (.int i)) v → JsonNumber.inInt64 i = true

theorem IntsFit.parts {v w : Json} (h : v.IntsFit) (hw : w ∈ v.parts) : w.IntsFit :=
  fun i hi => h i (.part hw hi)

theorem IntsFit.of_parts {v : Json} (hv : ∀ i, v = .number (.int i) → JsonNumber.inInt64 i = true)
    (h : ∀ w ∈ v.parts, w.IntsFit) : v.IntsFit := by
  intro i hi
  cases hi with
  | refl => exact hv i rfl
  | part hw hi => exact h _ hw i hi

theorem stored_eq_self {v : Json} (hv : v.Valid) (h : v.IntsFit) : v.stored = v := by
  induction hv with
  | null | bool | string => simp [stored]
  | number n hn =>
    cases n with
    | int i =>
      have hi : JsonNumber.inInt64 i = true := h i .refl
      obtain ⟨hlo, hhi⟩ := (JsonNumber.inInt64_iff i).mp hi
      simp [stored, JsonNumber.toInt64?, hi, ofInt64, Int64.toInt_ofInt_of_le hlo hhi]
    | float x =>
      have hx : x.isFinite = true := hn
      simp [stored, JsonNumber.toInt64?, ofBinary64, JsonNumber.toBinary64, hx]
  | array items _ ih =>
    rw [stored_array]
    refine congrArg array ((List.map_congr_left fun v hv => ?_).trans (List.map_id items))
    exact ih v hv (h.parts hv)
  | object entries hs _ ih =>
    have hsame : (entries.map Prod.snd).map stored = entries.map Prod.snd := by
      refine (List.map_congr_left fun v hv => ?_).trans (List.map_id _)
      obtain ⟨e, he, rfl⟩ := List.mem_map.mp hv
      exact ih e he (h.parts hv)
    have hzip : (entries.map Prod.fst).zip (entries.map Prod.snd) = entries := by
      rw [List.zip_map']
      exact List.map_id entries
    rw [stored_object, hsame, hzip, ofEntries, Ascending.ofList_of_sorted hs]

end Json

namespace Scalar

theorem valid_of_toJson? {c : Scalar} {v : Json} (h : c.toJson? = some v) : v.Valid := by
  cases c with
  | null => cases h; exact .null
  | bool b => cases h; exact .bool b
  | int i =>
    cases h
    exact .number _ ⟨i.le_toInt, Int.lt_trans i.toInt_lt (by decide)⟩
  | float x =>
    cases h
    unfold Json.ofBinary64
    split
    · exact .number _ ‹_›
    · exact .null
  | string s => cases h; exact .string s
  | binary b => cases h

theorem scalar?_of_toJson? {c : Scalar} {v : Json} (h : c.toJson? = some v)
    (hfinite : ∀ x, c = .float x → x.isFinite = true) : v.scalar? = some c := by
  cases c with
  | int i =>
    cases h
    simp [Json.ofInt64, Json.scalar?, ofJsonNumber, JsonNumber.toInt64?,
      JsonNumber.inInt64_toInt]
  | float x =>
    cases h
    simp [Json.ofBinary64, hfinite x rfl, Json.scalar?, ofJsonNumber, JsonNumber.toInt64?,
      JsonNumber.toBinary64]
  | binary b => cases h
  | _ => cases h; rfl

end Scalar

namespace ObjectGraph

variable {g k : ObjectGraph} {fuel : Nat} {path : List ObjectId} {o b : Object} {v : Json}

theorem toJsonOn?_eq_some (h : g.toJsonOn? fuel path o = some v) : ∃ rest, fuel = rest + 1 ∧
    ((∃ c, o.scalar? = some c ∧ c.toJson? = some v) ∨
      (∃ i items vs, o = .ref i ∧ g.read i = .list items ∧ v = .array vs ∧
        List.Forall₂ (fun p w => g.toJsonOn? rest (i :: path) p = some w) items vs) ∨
      ∃ i m vs, o = .ref i ∧ g.read i = .map m ∧ v = .ofEntries (m.keys.zip vs) ∧
        List.Forall₂ (fun p w => g.toJsonOn? rest (i :: path) p = some w) m.values vs) := by
  cases fuel with
  | zero => cases h
  | succ rest =>
    refine ⟨rest, rfl, ?_⟩
    cases o with
    | ref i =>
      by_cases hi : i ∈ path
      · rw [toJsonOn?_of_mem hi] at h
        cases h
      · cases hread : g.read i with
        | list items =>
          rw [toJsonOn?_list hi hread, Option.map_eq_some_iff] at h
          obtain ⟨vs, hvs, rfl⟩ := h
          exact .inr (.inl ⟨i, items, vs, rfl, hread, rfl, mapM_eq_some.mp hvs⟩)
        | map m =>
          rw [toJsonOn?_map hi hread, Option.map_eq_some_iff] at h
          obtain ⟨vs, hvs, rfl⟩ := h
          exact .inr (.inr ⟨i, m, vs, rfl, hread, rfl, mapM_eq_some.mp hvs⟩)
        | native type payload =>
          rw [toJsonOn?_native hread] at h
          cases h
    | pending n => cases h
    | _ => exact .inl ⟨_, rfl, h⟩

theorem valid_of_toJsonOn? (h : g.toJsonOn? fuel path o = some v) : v.Valid := by
  induction fuel generalizing path o v with
  | zero => cases h
  | succ fuel ih =>
    obtain ⟨rest, hrest, ⟨c, -, hc⟩ | ⟨i, items, vs, -, -, rfl, hvs⟩ |
      ⟨i, m, vs, -, -, rfl, hvs⟩⟩ := toJsonOn?_eq_some h
    all_goals obtain rfl := Nat.succ.inj hrest
    · exact Scalar.valid_of_toJson? hc
    · refine .array vs fun w hw => ?_
      obtain ⟨p, -, hp⟩ := forall₂_exists_left hvs hw
      exact ih hp
    · refine .object _ (Ascending.sorted_ofList _ _) fun e he => ?_
      have hmem := Ascending.mem_of_mem_ofList he
      obtain ⟨p, -, hp⟩ := forall₂_exists_left hvs (List.of_mem_zip hmem).2
      exact ih hp

end ObjectGraph

/-- A map that holds something for the values of another map, in ascending order of the keys. -/
theorem OrderedMap.entries_of_ofList {α β γ : Type} {R : α → γ → Prop} {S : β → γ → Prop}
    {m' : OrderedMap α} {m : OrderedMap β} {ws : List γ}
    (hkeys : m'.keys = (Ascending.ofList Prod.fst (m.keys.zip ws)).map Prod.fst)
    (hnew : List.Forall₂ R m'.values ((Ascending.ofList Prod.fst (m.keys.zip ws)).map Prod.snd))
    (hold : List.Forall₂ S m.values ws) :
    m'.size = m.size ∧ ∀ e ∈ m'.entries, ∃ y w, m.get? e.1 = some y ∧ e.2 ∈ m'.values ∧
      y ∈ m.values ∧ R e.2 w ∧ S y w := by
  have hlen : m.keys.length = ws.length := by simpa [keys, values] using hold.length_eq
  have hfst : (m.keys.zip ws).map Prod.fst = m.keys := List.map_fst_zip hlen.le
  have hsnd : (m.keys.zip ws).map Prod.snd = ws := List.map_snd_zip hlen.ge
  have hperm : (Ascending.ofList Prod.fst (m.keys.zip ws)).Perm (m.keys.zip ws) :=
    Ascending.ofList_perm (by rw [hfst]; exact m.nodup)
  replace hnew := m'.forall₂_entries hkeys (forall₂_mem hnew)
  replace hold := m.forall₂_entries hfst.symm (by rw [hsnd]; exact forall₂_mem hold)
  refine ⟨hnew.length_eq.trans (hperm.length_eq.trans hold.length_eq.symm), fun e he => ?_⟩
  obtain ⟨e', he', hkey, ⟨hx, -⟩, hR⟩ := forall₂_exists_right hnew he
  obtain ⟨d, hd, hkey', ⟨hy, -⟩, hS⟩ := forall₂_exists_left hold (hperm.mem_iff.1 he')
  refine ⟨d.2, e'.2, get?_eq_some_iff.2 ?_, hx, hy, hR, hS⟩
  rwa [hkey, ← hkey']

namespace ObjectGraph

variable {g k : ObjectGraph} {fuel : Nat} {path : List ObjectId} {o b : Object} {v : Json}

/-- An object all of whose parts are in the heap and whose numbers are finite. -/
structure Settled (g : ObjectGraph) (o : Object) : Prop where
  closed : g.Closed o
  finite : ∀ x, g.Reachable o (.float x) → x.isFinite = true

theorem Settled.part {p : Object} (h : g.Settled o) (hp : p ∈ g.parts o) : g.Settled p where
  closed i hi := h.closed i (((Reachable.refl o).step hp).trans hi)
  finite x hx := h.finite x (((Reachable.refl o).step hp).trans hx)

/-- A tree for the data of an object, in a heap that has grown, is equal to the object. -/
theorem equalWithin_of_toJsonOn? (hk : g.Extends k) (ho : g.Settled o)
    (h : g.toJsonOn? fuel path o = some v) (hb : k.Spells b v) {depth : Nat}
    (hdepth : b.rank < depth) (seen : List (ObjectId × ObjectId)) :
    k.equalWithin depth seen b o = some true := by
  induction fuel generalizing path o b v depth seen with
  | zero => cases h
  | succ fuel ih =>
    obtain ⟨depth, rfl⟩ := Nat.exists_eq_succ_of_ne_zero (Nat.ne_zero_of_lt hdepth)
    obtain ⟨hfits, hlt, hparts⟩ := hb
    have hspells : List.Forall₂ k.Spells (k.parts b) v.parts :=
      List.forall₂_iff_zip.2 ⟨hfits.length_eq, hparts⟩
    have hpart {p q : Object} {w : Json} {path : List ObjectId} (hq : q ∈ k.parts b)
        (hp : p ∈ g.parts o) (hpw : g.toJsonOn? fuel path p = some w) (hqw : k.Spells q w)
        (seen : List (ObjectId × ObjectId)) : k.equalWithin depth seen q p = some true :=
      ih (ho.part hp) hpw hqw (Nat.lt_of_lt_of_le (hlt q hq) (Nat.le_of_lt_succ hdepth)) seen
    have hcell {i : ObjectId} (hi : o = .ref i) : k.read i = g.read i :=
      hk.read i (ho.closed i (hi ▸ .refl o))
    obtain ⟨rest, hrest, ⟨c, hc, hv⟩ | ⟨i, items, vs, hi, hread, rfl, hvs⟩ |
      ⟨i, m, vs, hi, hread, rfl, hvs⟩⟩ := toJsonOn?_eq_some h
    all_goals obtain rfl := Nat.succ.inj hrest
    · obtain rfl := Load.ofScalar_of_scalar? hc
      have hfinite : ∀ x, c = .float x → x.isFinite = true := by
        rintro x rfl
        exact ho.finite x (.refl _)
      rw [hfits.eq_ofScalar (Scalar.scalar?_of_toJson? hv hfinite)]
      exact equalWithin_scalar fun x hx => by simp [Binary64.isNaN, hfinite x hx]
    · obtain ⟨j, os, rfl, hj, -⟩ := hfits
      have hi' := (hcell hi).trans hread
      subst hi
      rw [parts, hj] at hspells hpart
      rw [parts, hread] at hpart
      refine equalWithin_lists hj hi' ?_
      refine (forall₂_comp (forall₂_mem hspells) (forall₂_mem hvs).flip).imp ?_
      rintro q p ⟨w, ⟨⟨hq, -⟩, hqw⟩, ⟨hp, -⟩, hpw⟩
      exact hpart hq hp hpw hqw _
    · obtain ⟨j, m', rfl, hj, hkeys⟩ := hfits
      have hi' := (hcell hi).trans hread
      subst hi
      rw [parts, hj] at hspells hpart
      rw [parts, hread] at hpart
      obtain ⟨hsize, hentries⟩ := OrderedMap.entries_of_ofList hkeys hspells hvs
      refine equalWithin_maps_of_get? hj hi' hsize fun e he => ?_
      obtain ⟨p, w, hget, hq, hp, hqw, hpw⟩ := hentries e he
      exact ⟨p, hget, hpart hq hp hpw hqw _⟩

/-- The objects that the data of an object becomes are equal to it. -/
theorem equal?_addJson (ho : g.Settled o) (h : g.toJson? o = some v) :
    (g.addJson v).2.equal? (g.addJson v).1 o = some true := by
  obtain ⟨hk, hrank, hb⟩ := addJson_grows (valid_of_toJsonOn? h) g
  refine equalWithin_of_toJsonOn? hk ho h hb (Nat.lt_succ_of_le (hrank.trans ?_)) []
  exact Nat.le_trans (Nat.le_succ _) (Nat.le_mul_of_pos_left _ (Nat.succ_pos _))

end ObjectGraph

/-- Data whose integers have 64 bits comes back from nodes and from objects. Objects have data iff
no list or map in them is on a cycle and nothing in them is bytes, pending or an instance, and they
are equal to what this data becomes. Nodes have data iff there is no cycle and no binary scalar. -/
theorem json_inverse :
    (∀ v : Json, v.Valid → v.IntsFit →
      (∀ g : NodeGraph, (g.addJson v).2.toJson? (g.addJson v).1 = some v) ∧
      ∀ g : ObjectGraph, (g.addJson v).2.toJson? (g.addJson v).1 = some v) ∧
    (∀ (g : ObjectGraph) o, (∃ v, g.toJson? o = some v) ↔
      (∀ i, g.Reachable o (.ref i) → g.native? (.ref i) = none → ¬g.OnCycle (.ref i)) ∧
        ∀ p, g.Reachable o p → ¬g.Unrepresentable p) ∧
    (∀ (g : ObjectGraph) o v, g.Closed o → (∀ x, g.Reachable o (.float x) → x.isFinite = true) →
      g.toJson? o = some v → (g.addJson v).2.equal? (g.addJson v).1 o = some true) ∧
    ∀ (g : NodeGraph) n, (∃ v, g.toJson? n = some v) ↔
      (∀ m, g.Reachable n m → ¬g.OnCycle m) ∧
        ∀ m b, g.Reachable n m → g.content m ≠ .scalar (.binary b) := by
  refine ⟨fun v hv hfit => ⟨fun g => ?_, fun g => ?_⟩, ObjectGraph.exists_toJson?_iff,
    fun g o v hclosed hfinite h => ObjectGraph.equal?_addJson ⟨hclosed, hfinite⟩ h,
    NodeGraph.exists_toJson?_iff⟩
  · rw [NodeGraph.toJson?_addJson hv, Json.stored_eq_self hv hfit]
  · rw [ObjectGraph.toJson?_addJson hv, Json.stored_eq_self hv hfit]

/-- A map that holds one list twice, its keys in descending order, and a list that holds itself. -/
def heldTwice : ObjectGraph :=
  ⟨#[.map (.ofList [("b", .ref 1), ("a", .ref 1)]), .list [.int 5, .float ⟨0x4004000000000000⟩],
    .list [.ref 2]]⟩

def heldJson : Json :=
  .array [.number (.int 5), .number (.float ⟨0x4004000000000000⟩)]

def heldTwiceJson : Json :=
  .object [("a", heldJson), ("b", heldJson)]

theorem heldTwiceJson_valid : heldTwiceJson.Valid := by
  have hheld : heldJson.Valid := by
    refine .array _ (List.forall_mem_cons.2 ⟨.number _ (by simp [JsonNumber.Valid]), ?_⟩)
    exact List.forall_mem_singleton.2 (.number _ (show Binary64.isFinite _ = true by decide))
  exact .object _ (by unfold Ascending.Sorted; decide +kernel) (by simp [hheld])

theorem heldTwiceJson_intsFit : heldTwiceJson.IntsFit := by
  have hheld : heldJson.IntsFit := by
    refine .of_parts (by simp [heldJson])
      (List.forall_mem_cons.2 ⟨?_, List.forall_mem_singleton.2 ?_⟩)
    all_goals exact .of_parts (by simp [JsonNumber.inInt64]) (by simp [Json.parts])
  exact .of_parts (by simp [heldTwiceJson]) (by simp [heldTwiceJson, Json.parts, hheld])

theorem json_inverse_held :
    ((NodeGraph.addJson ∅ heldTwiceJson).2.toJson? (NodeGraph.addJson ∅ heldTwiceJson).1 =
        some heldTwiceJson ∧
      (heldTwice.addJson heldTwiceJson).2.toJson? (heldTwice.addJson heldTwiceJson).1 =
        some heldTwiceJson) ∧
    (heldTwice.toJson? (.ref 0) = some heldTwiceJson ∧
      (heldTwice.addJson heldTwiceJson).2.equal? (heldTwice.addJson heldTwiceJson).1 (.ref 0) =
        some true) ∧
    ¬∃ v, heldTwice.toJson? (.ref 2) = some v := by
  obtain ⟨hjson, hobjects, hequal, -⟩ := json_inverse
  obtain ⟨hnodes, hheld⟩ := hjson heldTwiceJson heldTwiceJson_valid heldTwiceJson_intsFit
  have hclosed : heldTwice.Closed (.ref 0) := ObjectGraph.closed_of_lt (by decide) (by decide)
  have hfinite : ∀ p, heldTwice.Reachable (.ref 0) p → p.float?.all Binary64.isFinite = true :=
    ObjectGraph.forall_reachable (by decide) (by decide +kernel)
  have hdata : heldTwice.toJson? (.ref 0) = some heldTwiceJson := by rfl
  refine ⟨⟨hnodes ∅, hheld heldTwice⟩, ⟨hdata, ?_⟩, fun h => ?_⟩
  · exact hequal _ _ _ hclosed (fun x hx => hfinite _ hx) hdata
  · exact ((hobjects _ _).mp h).1 2 (.refl _) rfl ⟨.ref 2, by decide, .refl _⟩

end TaggedGraph
