import TaggedGraph.Proofs.Forall2
import TaggedGraph.Proofs.RoundTrip.Mirrors
import TaggedGraph.Proofs.RoundTrip.Written

namespace TaggedGraph

theorem Load.ofScalar_of_scalar? {o : Object} {v : Scalar} (h : o.scalar? = some v) :
    ofScalar v = o := by
  cases o <;> cases h <;> rfl

theorem Content.BuiltWith.parts {ct : Content} {res : NodeId → Object} {cell : Cell}
    (h : ct.BuiltWith res cell) : cell.parts = ct.children.map res := by
  cases ct with
  | scalar => exact h.elim
  | sequence items =>
    obtain rfl : cell = _ := h
    rfl
  | mapping entries =>
    obtain rfl : cell = _ := h
    simp [Cell.parts, children, OrderedMap.values, OrderedMap.map]

variable {session : Session} {g k : ObjectGraph} {root a v : Object} {nodes : NodeGraph}
  {m b : NodeId} {stands : Object → NodeId → Prop} {ct : Content} {res raw : NodeId → Object}

theorem Cell.WrittenAs.children {cell : Cell} (h : cell.WrittenAs stands ct) :
    List.Forall₂ stands cell.parts ct.children := by
  cases cell with
  | list items =>
    obtain ⟨ns, rfl, hns⟩ := h
    exact hns
  | map entries =>
    obtain ⟨e, rfl, -, hns⟩ := h
    exact hns
  | native => exact h.elim

theorem Cell.WrittenAs.sameShape {cell cell' : Cell} (h : cell.WrittenAs stands ct)
    (hb : ct.BuiltWith res cell') : cell.SameShape cell' := by
  cases cell with
  | list items =>
    obtain ⟨ns, rfl, hns⟩ := h
    obtain rfl : cell' = _ := hb
    simpa [SameShape] using hns.length_eq
  | map entries =>
    obtain ⟨e, rfl, hkeys, -⟩ := h
    obtain rfl : cell' = _ := hb
    have hmap : (e.map res).keys = e.keys := by simp [OrderedMap.keys, OrderedMap.map]
    exact hkeys.symm.trans hmap.symm
  | native => exact h.elim

namespace ObjectGraph

theorem sameShape_scalar (h : a.scalar?.isSome) : g.SameShape k a a := by
  cases a with
  | ref => cases h
  | _ => rfl

theorem WrittenAs.children (h : g.WrittenAs stands a ct) :
    List.Forall₂ stands (g.parts a) ct.children := by
  cases a with
  | ref i => exact Cell.WrittenAs.children h
  | _ =>
    obtain ⟨w, -, rfl⟩ := h
    exact .nil

theorem WrittenAs.sameShape (h : g.WrittenAs stands a ct) (res : NodeId → Object)
    (hscalar : ∀ w, ct = .scalar w → v = Load.ofScalar w)
    (hbuilt : (∀ w, ct ≠ .scalar w) → ∃ id, v = .ref id ∧ ct.BuiltWith res (k.read id)) :
    g.SameShape k a v ∧ k.parts v = ct.children.map res := by
  cases a with
  | ref i =>
    have hcell : (g.read i).WrittenAs stands ct := h
    have hct (w : Scalar) : ct ≠ .scalar w := by
      rintro rfl
      cases hread : g.read i <;> simp [hread, Cell.WrittenAs] at hcell
    obtain ⟨id, rfl, hid⟩ := hbuilt hct
    exact ⟨hcell.sameShape hid, hid.parts⟩
  | _ =>
    obtain ⟨w, hw, rfl⟩ := h
    obtain rfl := hscalar w rfl
    rw [Load.ofScalar_of_scalar? hw]
    exact ⟨sameShape_scalar (by simp [hw]), rfl⟩

end ObjectGraph

theorem resembles_of_shows {n : NodeId} (h : g.WrittenAs stands a (nodes.content n))
    (hshows : Shows nodes n v k)
    (hleaf : ∀ x d, x ∈ g.parts a → stands x d → x.id? = none →
      nodes.tag d = none ∧ ∃ w, x.scalar? = some w ∧ nodes.content d = .scalar w) :
    g.Resembles k a v := by
  have hchildren := h.children
  unfold Shows at hshows
  split at hshows
  · rename_i w hct
    rw [hct] at h hchildren
    obtain ⟨hshape, hparts⟩ := h.sameShape (k := k) (v := v) (fun _ => .null)
      (fun w' he => by cases he; exact hshows) fun hne => absurd rfl (hne w)
    refine ⟨hshape, fun i x y _ hy => ?_⟩
    rw [hparts] at hy
    cases hy
  · rename_i hct
    obtain ⟨id, res, rfl, hid, hbuilt, hres⟩ := hshows
    obtain ⟨hshape, hparts⟩ := h.sameShape (k := k) (v := .ref id) res
      (fun w he => absurd he (hct w)) fun _ => ⟨id, rfl, hbuilt⟩
    refine ⟨hshape, fun i x y hx hy hprimitive => ?_⟩
    rw [hparts, List.getElem?_map] at hy
    obtain ⟨d, hd, rfl⟩ := Option.map_eq_some_iff.1 hy
    have hstands := forall₂_getElem? hchildren hx hd
    obtain ⟨ht, w, hw, hcd⟩ := hleaf x d (List.mem_of_getElem? hx) hstands hprimitive
    rw [hres d (List.mem_of_getElem? hd) w ht hcd, Load.ofScalar_of_scalar? hw]

/-- The instance has the type of the one that the node was made for, and holds the raw value. -/
def Rebuilt (g : ObjectGraph) (root : Object) (stands : Object → NodeId → Prop) (w : Wrapper)
    (k : ObjectGraph) : Prop :=
  ∀ id type payload, g.Reachable root (.ref id) → g.read id = .native type payload →
    stands (.ref id) w.node → k.read w.id = .native type w.raw

namespace Written

theorem exists_object (h : Written session g root nodes m stands) (hb : nodes.Reachable m b) :
    ∃ a, g.Reachable root a ∧ stands a b := by
  induction hb with
  | refl => exact ⟨root, .refl root, h.start⟩
  | @step b d _ hd ih =>
    obtain ⟨a, ha, hstands⟩ := ih
    cases hnative : g.native? a with
    | none =>
      obtain ⟨x, hx, hxd⟩ := forall₂_exists_left (h.raw ha hnative hstands).2.children hd
      exact ⟨x, ha.step hx, hxd⟩
    | some held =>
      obtain ⟨id, rfl, hcell⟩ := ObjectGraph.exists_of_native? hnative
      obtain ⟨hwritten, -⟩ := h.instances ha hcell hstands
      obtain ⟨x, hx, hxd⟩ := forall₂_exists_left hwritten.children hd
      exact ⟨x, (ha.held hcell).step hx, hxd⟩

theorem exists_node (h : Written session g root nodes m stands) (ha : g.Reachable root a) :
    ∃ b, nodes.Reachable m b ∧ (stands a b ∨ Carries g root stands a b) := by
  induction ha with
  | refl => exact ⟨m, .refl m, .inl h.start⟩
  | @step a x ha hx ih =>
    obtain ⟨b, hb, hstands | ⟨id, type, hid, hcell, hstands⟩⟩ := ih
    · cases hnative : g.native? a with
      | none =>
        obtain ⟨d, hd, hxd⟩ := forall₂_exists_right (h.raw ha hnative hstands).2.children hx
        exact ⟨d, hb.step hd, .inl hxd⟩
      | some held =>
        obtain ⟨id, rfl, hcell⟩ := ObjectGraph.exists_of_native? hnative
        obtain rfl : x = held.2 := by simpa [ObjectGraph.parts_native hcell] using hx
        exact ⟨b, hb, .inr ⟨id, held.1, ha, hcell, hstands⟩⟩
    · obtain ⟨d, hd, hxd⟩ := forall₂_exists_right (h.instances hid hcell hstands).1.children hx
      exact ⟨d, hb.step hd, .inl hxd⟩

theorem scalar (h : Written session g root nodes m stands) (ha : g.Reachable root a)
    (hstands : stands a b) (hprimitive : a.id? = none) :
    nodes.tag b = none ∧ ∃ w, a.scalar? = some w ∧ nodes.content b = .scalar w := by
  have hnative : g.native? a = none := by
    cases a with
    | ref => cases hprimitive
    | _ => rfl
  obtain ⟨ht, hwritten⟩ := h.raw ha hnative hstands
  refine ⟨ht, ?_⟩
  cases a with
  | ref => cases hprimitive
  | _ => exact hwritten

theorem isPending (h : Written session g root nodes m stands) (ha : g.Reachable root a) :
    a.isPending = false := by
  cases a with
  | pending x =>
    obtain ⟨b, -, hstands | ⟨id, type, hid, hcell, hstands⟩⟩ := h.exists_node ha
    · obtain ⟨-, w, hw, -⟩ := h.scalar ha hstands rfl
      cases hw
    · obtain ⟨w, hw, -⟩ := (h.instances hid hcell hstands).1
      cases hw
  | _ => rfl

theorem covers (h : Written session g root nodes m stands) :
    session.CoversAs (Rebuilt g root stands) nodes m := by
  intro n t hn ht
  obtain ⟨a, ha, hstands⟩ := h.exists_object hn
  cases hnative : g.native? a with
  | none =>
    rw [(h.raw ha hnative hstands).1] at ht
    cases ht
  | some held =>
    obtain ⟨type, payload⟩ := held
    obtain ⟨id, rfl, hcell⟩ := ObjectGraph.exists_of_native? hnative
    obtain ⟨hwritten, c, t', ht', hc, hrebuilds⟩ := h.instances ha hcell hstands
    obtain rfl : t = t' := Option.some.inj (ht.symm.trans ht')
    have hresembles (raw : Object) (k : ObjectGraph) (hshows : Shows nodes n raw k) :
        g.Resembles k payload raw := by
      apply resembles_of_shows hwritten hshows
      exact fun x d hx hxd hprimitive => h.scalar ((ha.held hcell).step hx) hxd hprimitive
    have hrebuilt (w : Wrapper) (k : ObjectGraph) (hw : w.node = n)
        (hread : k.read w.id = .native type w.raw) : Rebuilt g root stands w k := by
      intro id' type' payload' _ hcell' hstands'
      rw [hw] at hstands'
      cases h.inj hstands hstands'
      cases hcell.symm.trans hcell'
      exact hread
    refine ⟨c, hc, fun raw k hshows => ?_⟩
    obtain ⟨answer, k', id', hcall, hfixes, hle, hlt, hanswer, hholds⟩ :=
      hrebuilds raw k (hresembles raw k hshows)
    refine ⟨answer, k', id', hcall, hfixes, hle, hlt, hanswer, ?_⟩
    cases answer with
    | ready o =>
      intro l hl _
      apply hrebuilt _ _ rfl
      exact (hl.read id' (.inr ⟨hle, hlt⟩)).trans hholds
    | deferred d =>
      refine ⟨hholds.1, fun l hl hshows' => ?_⟩
      obtain ⟨l', hyields, hspares, hread⟩ :=
        hholds.2 l (hl.mono fun i hi => .inr hi) (hresembles raw l hshows')
      refine ⟨l', hyields, hspares.mono fun i hi => ⟨hi.1, fun ho => hi.2 (.inr ho)⟩, ?_⟩
      intro k'' hk'' _
      apply hrebuilt _ _ rfl
      exact (hk''.read id' (.inl (.inr ⟨hle, hlt⟩))).trans hread

end Written

/-- After the load `v` is in the place of `a`: the result of the node that was made for `a`, or the
raw value of the node of an instance that holds `a`. -/
inductive Replaces (g : ObjectGraph) (root : Object) (nodes : NodeGraph) (m : NodeId)
    (stands : Object → NodeId → Prop) (res raw : NodeId → Object) (a v : Object) : Prop
  | result {b : NodeId} (hb : nodes.Reachable m b) (hstands : stands a b) (hv : v = res b)
  | raw {b : NodeId} (hb : nodes.Reachable m b) (hcarries : Carries g root stands a b)
      (hv : v = raw b)

section
variable {v' a' : Object} {b' : NodeId} (h : Written session g root nodes m stands)
  (hm : Mirrors (Rebuilt g root stands) nodes m res raw k)
include hm

theorem replaces_raw (hb : nodes.Reachable m b)
    (hwritten : g.WrittenAs stands a (nodes.content b)) :
    g.SameShape k a (raw b) ∧ ∀ (i : Nat) (x y : Object), (g.parts a)[i]? = some x →
      (k.parts (raw b))[i]? = some y → Replaces g root nodes m stands res raw x y := by
  obtain ⟨hshape, hparts⟩ := hwritten.sameShape (k := k) (v := raw b) res (hm.scalar b hb)
    fun hct => by
      obtain ⟨id, hid, -, hbuilt⟩ := hm.container b hb hct
      exact ⟨id, hid, hbuilt⟩
  refine ⟨hshape, fun i x y hx hy => ?_⟩
  rw [hparts, List.getElem?_map] at hy
  obtain ⟨d, hd, rfl⟩ := Option.map_eq_some_iff.1 hy
  exact .result (hb.step (List.mem_of_getElem? hd)) (forall₂_getElem? hwritten.children hx hd) rfl

include h

theorem Replaces.sameShape (ha : g.Reachable root a)
    (hv : Replaces g root nodes m stands res raw a v) :
    g.SameShape k a v ∧ ∀ (i : Nat) (x y : Object), (g.parts a)[i]? = some x →
      (k.parts v)[i]? = some y → Replaces g root nodes m stands res raw x y := by
  cases hv with
  | @result b hb hstands hv =>
    subst hv
    cases hnative : g.native? a with
    | none =>
      obtain ⟨ht, hwritten⟩ := h.raw ha hnative hstands
      rw [hm.untagged b hb ht]
      exact replaces_raw hm hb hwritten
    | some held =>
      obtain ⟨type, payload⟩ := held
      obtain ⟨id, rfl, hcell⟩ := ObjectGraph.exists_of_native? hnative
      obtain ⟨-, c, t, ht, -⟩ := h.instances ha hcell hstands
      obtain ⟨w, rfl, -, hraw, hres, -, hrebuilt⟩ := hm.tagged b t hb ht
      have hread := hrebuilt k (Fixes.refl _ k) id type payload ha hcell hstands
      rw [hres]
      refine ⟨?_, fun i x y hx hy => ?_⟩
      · simp [ObjectGraph.SameShape, Cell.SameShape, hcell, hread]
      · have hx : x = payload := by
          simpa [ObjectGraph.parts, hcell, Cell.parts] using List.mem_of_getElem? hx
        have hy : y = w.raw := by
          simpa [ObjectGraph.parts, hread, Cell.parts] using List.mem_of_getElem? hy
        subst hx hy
        exact .raw hb ⟨id, type, ha, hcell, hstands⟩ hraw
  | @raw b hb hcarries hv =>
    subst hv
    obtain ⟨id, type, hid, hcell, hstands⟩ := hcarries
    exact replaces_raw hm hb (h.instances hid hcell hstands).1

theorem replaces_of_samePlace (hav : g.SamePlace k root (res m) a v) :
    g.Reachable root a ∧ Replaces g root nodes m stands res raw a v := by
  induction hav with
  | start => exact ⟨.refl root, .result (.refl m) h.start rfl⟩
  | @part a v x y i _ hx hy ih =>
    obtain ⟨ha, hv⟩ := ih
    exact ⟨ha.step (List.mem_of_getElem? hx), (hv.sameShape h hm ha).2 i x y hx hy⟩

theorem alike_of_mirrors : g.Alike k root (res m) := by
  intro a v hav
  obtain ⟨ha, hv⟩ := replaces_of_samePlace h hm hav
  exact (hv.sameShape h hm ha).1

/-- Two objects have one result iff they are one list, map or instance. -/
theorem isSame_result_iff (ha : g.Reachable root a) (hb : nodes.Reachable m b)
    (hb' : nodes.Reachable m b') (hstands : stands a b) (hstands' : stands a' b') :
    (res b).isSame (res b') ↔ a.isSame a' := by
  have hshape := (Replaces.sameShape h hm ha (.result hb hstands rfl)).1
  rw [Object.isSame_iff, Object.isSame_iff]
  constructor
  · rintro ⟨j, hj, hj'⟩
    obtain ⟨i, rfl⟩ := hshape.exists_ref_iff.2 ⟨j, hj⟩
    obtain rfl := hm.res_inj hb hb' hj hj'
    exact ⟨i, rfl, h.inj hstands hstands'⟩
  · rintro ⟨i, rfl, rfl⟩
    obtain rfl := h.unique hstands hstands'
    obtain ⟨j, hj⟩ := hshape.exists_ref_iff.1 ⟨i, rfl⟩
    exact ⟨j, hj, hj⟩

/-- An object that no instance holds is shared as it was. -/
theorem isSame_iff_of_samePlace (hfree : ∀ b, ¬ Carries g root stands a b)
    (hav : g.SamePlace k root (res m) a v) (hav' : g.SamePlace k root (res m) a' v') :
    v.isSame v' ↔ a.isSame a' := by
  obtain ⟨ha, hv⟩ := replaces_of_samePlace h hm hav
  obtain ⟨-, hv'⟩ := replaces_of_samePlace h hm hav'
  cases hv with
  | raw _ hcarries => exact absurd hcarries (hfree _)
  | result hb hstands hv =>
    subst hv
    cases hv' with
    | result hb' hstands' hv' =>
      subst hv'
      exact isSame_result_iff h hm ha hb hb' hstands hstands'
    | @raw b' hb' hcarries' hv' =>
      subst hv'
      rw [Object.isSame_iff, Object.isSame_iff]
      refine iff_of_false ?_ ?_
      · -- the raw value of an instance is in no other place
        rintro ⟨j, hj, hj'⟩
        obtain ⟨id, type, hid, hcell, hstands'⟩ := hcarries'
        obtain ⟨-, c, t, ht, -⟩ := h.instances hid hcell hstands'
        exact hm.res_ne_raw hb hb' (by simp [ht]) hj' hj
      · rintro ⟨i, rfl, rfl⟩
        exact hfree _ hcarries'

end

end TaggedGraph
