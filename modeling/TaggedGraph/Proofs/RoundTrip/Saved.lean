import TaggedGraph.Proofs.Isomorphic
import TaggedGraph.Proofs.RoundTrip.SaveSucceeds

namespace TaggedGraph

open Traversal Event

theorem Source.Holds.sameShape {ct : Content} {res : NodeId → Object} {src : Source}
    {ms : List NodeId} {node : Node} (h : src.Holds ms node) (hsrc : ct.SourceWith res src)
    (hlen : ms.length = src.parts.length) :
    node.tag = none ∧ ct.SameShape node.content ∧ node.content.children = ms := by
  cases ct with
  | scalar => exact hsrc.elim
  | sequence items =>
    obtain rfl : src = _ := hsrc
    obtain rfl : node = _ := h
    refine ⟨rfl, ?_, rfl⟩
    simpa [Source.parts, Content.SameShape] using hlen.symm
  | mapping entries =>
    obtain rfl : src = _ := hsrc
    obtain ⟨m, rfl, hm⟩ := h
    have hlen : ms.length = entries.keys.length := by
      simpa [Source.parts, OrderedMap.values, OrderedMap.keys, OrderedMap.map] using hlen
    have hkeys : (entries.map res).keys = entries.keys := by
      simp [OrderedMap.keys, OrderedMap.map]
    rw [hkeys] at hm
    refine ⟨rfl, ?_, ?_⟩
    · change entries.keys = m.entries.map Prod.fst
      rw [hm, List.map_fst_zip (Nat.le_of_eq hlen.symm)]
    · change m.entries.map Prod.snd = ms
      rw [hm, List.map_snd_zip (Nat.le_of_eq hlen)]

namespace Save

def kids (ms : ObjectId → List NodeId) : Object → List NodeId
  | .ref id => ms id
  | _ => []

/-- A finished save of objects that stand for nodes. -/
structure Saved (session : Session) (nodes : NodeGraph) (root : NodeId) (res raw : NodeId → Object)
    (g : ObjectGraph) (ms : ObjectId → List NodeId) (s : SaveState) (es : List (Event Object)) :
    Prop where
  mirrors : Mirrors (Wrapper.Serves session) nodes root res raw g
  follows : Follows nodes root res raw g s
  tracks : Tracks s es
  nodes : Nodes ms s es
  left : ∀ p, enter p ∈ es → leave p ∈ es
  whole : ∀ id tag o pre, s.sources.lookup id = some (.answer tag o) →
    pre ++ [refer (.ref id) 0 o] <+: es → leave o ∈ pre

namespace Saved

variable {session : Session} {nodes : NodeGraph} {root : NodeId} {res raw : NodeId → Object}
  {g : ObjectGraph} {ms : ObjectId → List NodeId} {s : SaveState} {es : List (Event Object)}
  {n : NodeId} {id : ObjectId} {src : Source}

theorem sourceWith (h : Saved session nodes root res raw g ms s es) (hn : nodes.Reachable root n)
    (hid : raw n = .ref id) (hs : s.sources.lookup id = some src) :
    (nodes.content n).SourceWith res src := by
  cases h.follows.sources id src hs with
  | container hm hmid hsrc =>
    obtain rfl := h.mirrors.raw_inj _ _ id hn hm hid hmid
    exact hsrc
  | wrapper hm ht hmid => exact absurd hmid (h.mirrors.instance_ne_raw hm (by simp [ht]) hn hid)

theorem source_eq (h : Saved session nodes root res raw g ms s es) (hn : nodes.Reachable root n)
    {t : TagUri} (ht : nodes.tag n = some t) (hid : res n = .ref id)
    (hs : s.sources.lookup id = some src) : src = .answer (some t) (raw n) := by
  cases h.follows.sources id src hs with
  | container hm hmid => exact absurd hid (h.mirrors.instance_ne_raw hn (by simp [ht]) hm hmid)
  | wrapper hm htm hmid hsrc =>
    obtain rfl := h.mirrors.res_inj hn hm hid hmid
    cases ht.symm.trans htm
    exact hsrc

theorem exists_source (h : Saved session nodes root res raw g ms s es)
    (he : enter (.ref id) ∈ es) : ∃ src k, s.sources.lookup id = some src ∧
      s.memo.lookup id = some k := by
  obtain ⟨src, hs⟩ := h.tracks.exists_source he
  obtain ⟨k, hk⟩ := h.tracks.exists_memo he
  exact ⟨src, k, hs, hk⟩

theorem node_raw (h : Saved session nodes root res raw g ms s es) (hn : nodes.Reachable root n)
    {o : Object} (ho : o.scalar?.isSome ∨ ∃ id k, o = .ref id ∧ s.memo.lookup id = some k)
    (hraw : raw n = o) : (s.nodeOf o).tag = none ∧
      (nodes.content n).SameShape (s.nodeOf o).content ∧
      (s.nodeOf o).content.children = kids ms o := by
  subst hraw
  rcases h.mirrors.raw_cases hn with ⟨v, hct, hv⟩ | ⟨id, hid, -⟩
  · rw [hct, hv, SaveState.nodeOf_scalar (Load.scalar?_ofScalar v)]
    exact ⟨rfl, rfl, by cases v <;> rfl⟩
  · obtain ⟨id', k, hid', hk⟩ := ho.resolve_left (by simp [hid, Object.scalar?])
    cases hid.symm.trans hid'
    have he := (h.tracks.memo id).1 (by simp [hk])
    obtain ⟨src, k', hs, hk'⟩ := h.exists_source he
    have hlen := h.nodes.length_of_left h.tracks hs (h.left _ he)
    rw [hid, SaveState.nodeOf_ref hk]
    exact (h.nodes.holds id src k hs hk).sameShape (h.sourceWith hn hid hs) hlen

theorem node (h : Saved session nodes root res raw g ms s es) (hn : nodes.Reachable root n)
    {b : NodeId} (hb : s.Stands (res n) b) : s.nodes.tag b = nodes.tag n ∧
      (nodes.content n).SameShape (s.nodes.content b) ∧ s.nodes.children b = kids ms (raw n) := by
  unfold NodeGraph.children NodeGraph.content NodeGraph.tag
  cases ht : (nodes.read n).tag with
  | none =>
    obtain ⟨hread, hcases⟩ := hb.read_eq
    have hres := h.mirrors.untagged n hn ht
    rw [hres] at hread hcases
    rw [hread]
    exact h.node_raw hn hcases rfl
  | some t =>
    obtain ⟨w, -, -, -, hw, -⟩ := h.mirrors.tagged n t hn ht
    rw [hw] at hb
    obtain ⟨id, he, hk⟩ := hb
    cases he
    obtain ⟨src, -, hs, -⟩ := h.exists_source ((h.tracks.memo w.id).1 (by simp [hk]))
    obtain rfl := h.source_eq hn ht hw hs
    obtain ⟨hnode, hleave⟩ := h.nodes.copied h.tracks h.left hs hk fun pre hp =>
      h.whole _ _ _ pre hs hp
    obtain ⟨-, hshape, hchildren⟩ := h.node_raw hn (h.tracks.left_cases hleave) rfl
    rw [hnode]
    exact ⟨rfl, hshape, hchildren⟩

theorem eq_ref_of_kids {o : Object} {i : Nat} {d : NodeId} (hd : (kids ms o)[i]? = some d) :
    ∃ id, o = .ref id ∧ (ms id)[i]? = some d := by
  cases o with
  | ref id => exact ⟨id, rfl, hd⟩
  | _ => cases hd

theorem refer (h : Saved session nodes root res raw g ms s es) (hn : nodes.Reachable root n)
    (hid : raw n = .ref id) {i : Nat} {c d : NodeId} (hc : (nodes.children n)[i]? = some c)
    (hd : (ms id)[i]? = some d) : refer (.ref id) i (res c) ∈ es := by
  obtain ⟨o, ho⟩ := (h.nodes.length id i).1 (List.getElem?_eq_some_iff.1 hd).1
  obtain ⟨he, -, hlink⟩ := h.tracks.trace.refers _ i o ho
  obtain ⟨src, -, hs, -⟩ := h.exists_source he
  have hparts : src.parts = (nodes.children n).map res := (h.sourceWith hn hid hs).parts
  rw [SaveState.links_eq hs, hparts, List.getElem?_map, hc] at hlink
  obtain rfl : res c = o := Option.some.inj hlink
  exact ho

theorem child (h : Saved session nodes root res raw g ms s es) (hn : nodes.Reachable root n)
    {i : Nat} {c d : NodeId} (hc : (nodes.children n)[i]? = some c)
    (hd : (kids ms (raw n))[i]? = some d) : s.Stands (res c) d := by
  obtain ⟨id, hid, hd⟩ := eq_ref_of_kids hd
  exact h.nodes.stands id i _ d (h.refer hn hid hc hd) hd

end Saved

end Save

end TaggedGraph
