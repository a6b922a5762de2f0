import Mathlib.Data.List.Forall2
import TaggedGraph.Proofs.RoundTrip.Rendered
import TaggedGraph.Proofs.Save.Copies

namespace TaggedGraph

open Traversal Event

/-- The content is the primitive `a`, or it has the parts of the list or map `a`. -/
def ObjectGraph.WrittenAs (g : ObjectGraph) (stands : Object → NodeId → Prop) (a : Object)
    (ct : Content) : Prop :=
  match a with
  | .ref i => (g.read i).WrittenAs stands ct
  | a => ∃ v, a.scalar? = some v ∧ ct = .scalar v

theorem ObjectGraph.writtenAs_scalar {g : ObjectGraph} {stands : Object → NodeId → Prop}
    {a : Object} {v : Scalar} (h : a.scalar? = some v) : g.WrittenAs stands a (.scalar v) := by
  cases a with
  | ref => cases h
  | _ => exact ⟨v, h, rfl⟩

/-- The node `b` is that of an instance which holds `a`. -/
def Carries (g : ObjectGraph) (root : Object) (stands : Object → NodeId → Prop) (a : Object)
    (b : NodeId) : Prop :=
  ∃ id type, g.Reachable root (.ref id) ∧ g.read id = .native type a ∧ stands (.ref id) b

/-- The nodes from `m` on are made from what can be reached from `root`; `stands` tells which node
was made for which object. -/
structure Written (session : Session) (g : ObjectGraph) (root : Object) (nodes : NodeGraph)
    (m : NodeId) (stands : Object → NodeId → Prop) : Prop where
  start : stands root m
  raw : ∀ {a b}, g.Reachable root a → g.native? a = none → stands a b →
    nodes.tag b = none ∧ g.WrittenAs stands a (nodes.content b)
  instances : ∀ {id type payload b}, g.Reachable root (.ref id) →
    g.read id = .native type payload → stands (.ref id) b →
    g.WrittenAs stands payload (nodes.content b) ∧ ∃ c t, nodes.tag b = some t ∧
      session.registry.converterForTag t = some c ∧ Rebuilds session g type payload c t
  inj : ∀ {i a b}, stands (.ref i) b → stands a b → a = .ref i
  unique : ∀ {i b b'}, stands (.ref i) b → stands (.ref i) b' → b = b'

namespace Save

structure Ended (session : Session) (g : ObjectGraph) (root : Object)
    (ms : ObjectId → List NodeId) (s : SaveState) (es : List (Event Object)) : Prop where
  restorable : Restorable session g root
  rendered : Rendered session g root s
  tracks : Tracks s es
  nodes : Nodes ms s es
  left : ∀ p, enter p ∈ es → leave p ∈ es
  whole : ∀ id tag o pre, s.sources.lookup id = some (.answer tag o) →
    pre ++ [refer (.ref id) 0 o] <+: es → leave o ∈ pre

namespace Ended

variable {session : Session} {g : ObjectGraph} {root a o : Object} {ms : ObjectId → List NodeId}
  {s : SaveState} {es : List (Event Object)} {id : ObjectId} {src : Source} {b : NodeId}

theorem container (h : Ended session g root ms s es) {i j : ObjectId}
    (hi : g.Reachable root (.ref i)) (hcell : (g.read i).isContainer)
    (hecho : Echoes g s.objects (.ref i) (.ref j)) (hb : s.memo.lookup j = some b) :
    (s.nodes.read b).tag = none ∧ (g.read i).WrittenAs s.Stands (s.nodes.read b).content := by
  have he : enter (.ref j) ∈ es := (h.tracks.memo j).1 (by simp [hb])
  obtain ⟨src, hs⟩ := h.tracks.exists_source he
  have hholds := h.nodes.holds j src b hs hb
  cases h.rendered.sources j src hs with
  | @container i' _ hi' hecho' hsrc =>
    rw [hecho.unique h.restorable hi hi' hecho']
    exact hholds.writtenAs hsrc (h.nodes.children h.tracks hs (h.left _ he))
  | payload hj hread =>
    -- an echo of a list or map is no instance
    rw [hecho.unique h.restorable hi hj (.inl rfl), hread] at hcell
    cases hcell

theorem nodeOf (h : Ended session g root ms s es) (ha : g.Reachable root a)
    (hraw : g.native? a = none) (hecho : Echoes g s.objects a o)
    (ho : o.scalar?.isSome ∨ ∃ id n, o = .ref id ∧ s.memo.lookup id = some n) :
    (s.nodeOf o).tag = none ∧ g.WrittenAs s.Stands a (s.nodeOf o).content := by
  rcases ho with ho | ⟨j, n, rfl, hn⟩
  · obtain ⟨v, hv⟩ := Option.isSome_iff_exists.1 ho
    obtain rfl : o = a := by
      rcases hecho with ho | ⟨_, _, -, rfl, -⟩
      · exact ho
      · cases hv
    rw [SaveState.nodeOf_scalar hv]
    exact ⟨rfl, ObjectGraph.writtenAs_scalar hv⟩
  · obtain ⟨i, rfl⟩ := hecho.eq_ref
    rw [SaveState.nodeOf_ref hn]
    exact h.container ha (isContainer_of_native? hraw) hecho hn

theorem payload (h : Ended session g root ms s es) {type : NativeType} {payload : Object}
    (hid : g.Reachable root (.ref id)) (hcell : g.read id = .native type payload)
    (hb : s.Stands (.ref id) b) : g.WrittenAs s.Stands payload (s.nodes.content b) ∧ ∃ c t,
      s.nodes.tag b = some t ∧ session.registry.converterForTag t = some c ∧
      Rebuilds session g type payload c t := by
  obtain ⟨_, ⟨⟩, hb⟩ := hb
  have he : enter (.ref id) ∈ es := (h.tracks.memo id).1 (by simp [hb])
  obtain ⟨src, hs⟩ := h.tracks.exists_source he
  cases h.rendered.sources id src hs with
  | @container i _ hi hecho hsrc =>
    rw [hecho.unique h.restorable hi hid (.inl rfl), hcell] at hsrc
    cases hsrc
  | @payload type' payload' raw c t _ hcell' hecho hc hrebuilds =>
    cases hcell.symm.trans hcell'
    -- the answer was finished when its node was copied
    obtain ⟨hnode, hleave⟩ := h.nodes.copied h.tracks h.left hs hb fun pre hp =>
      h.whole id _ raw pre hs hp
    have hwritten := h.nodeOf (hid.held hcell) (h.restorable.payload hid hcell).2 hecho
      (h.tracks.left_cases hleave)
    rw [NodeGraph.tag, NodeGraph.content, hnode]
    exact ⟨hwritten.2, c, t, rfl, hc, hrebuilds⟩

theorem written (h : Ended session g root ms s es) {m : NodeId} (hm : s.Stands root m) :
    Written session g root s.nodes m s.Stands where
  start := hm
  raw ha hraw hb := by
    obtain ⟨hread, hcases⟩ := hb.read_eq
    rw [NodeGraph.tag, NodeGraph.content, hread]
    exact h.nodeOf ha hraw (.inl rfl) hcases
  instances hid hcell hb := h.payload hid hcell hb
  inj {i a b} hi ha := by
    obtain ⟨_, ⟨⟩, hi⟩ := hi
    unfold SaveState.Stands at ha
    split at ha
    · exact absurd hi (ha.2.2 i)
    · obtain ⟨j, rfl, hj⟩ := ha
      rw [h.nodes.inj j i b hj hi]
  unique hb hb' := by
    obtain ⟨_, ⟨⟩, hb⟩ := hb
    obtain ⟨_, ⟨⟩, hb'⟩ := hb'
    exact Option.some.inj (hb.symm.trans hb')

end Ended

variable {session : Session} {g : ObjectGraph} {root : Object} {depth : Nat} {m : NodeId}
  {s : SaveState}

theorem written_scalar (hroot : root.scalar?.isSome)
    (hsave : save session depth root g = (.ok m, s)) :
    Written session g root s.nodes m s.Stands := by
  obtain ⟨v, hv⟩ := Option.isSome_iff_exists.1 hroot
  have hreach (a : Object) (ha : g.Reachable root a) : a = root :=
    ha.eq_of_primitive (by cases root <;> first | rfl | cases hv)
  have href (i : ObjectId) : ¬ g.Reachable root (.ref i) := by
    intro hi
    rw [← hreach _ hi] at hv
    cases hv
  obtain ⟨-, hs, hstart⟩ := save_scalar hroot hsave
  have hnone (i : ObjectId) (b : NodeId) : ¬ s.Stands (.ref i) b := by
    rintro ⟨_, ⟨⟩, hb⟩
    simp [hs] at hb
  refine ⟨hstart, fun {a b} ha _ hb => ?_, fun hid => absurd hid (href _),
    fun hi => absurd hi (hnone _ _), fun hi => absurd hi (hnone _ _)⟩
  obtain rfl := hreach a ha
  rw [NodeGraph.tag, NodeGraph.content, hb.read_eq.1, SaveState.nodeOf_scalar hv]
  exact ⟨rfl, ObjectGraph.writtenAs_scalar hv⟩

/-- A save of a graph without cycles, or without instances, has written it. -/
theorem save_written (h : Restorable session g root) (hwhole : g.Acyclic root ∨ g.Raw root)
    (hsave : save session depth root g = (.ok m, s)) :
    Written session g root s.nodes m s.Stands := by
  cases hroot : root.scalar? with
  | some v => exact written_scalar (by simp [hroot]) hsave
  | none =>
    cases root with
    | ref x =>
      have hrendered := save_rendered h hsave
      obtain ⟨hsteps, rfl, hmet⟩ := save_steps hsave
      have ht := hsteps.tracks (.nil g)
      obtain ⟨ms, hnodes⟩ := hsteps.nodes (.nil g) ⟨_, .nil g⟩
      have hended : Ended session g (.ref x) ms s (walk s.links depth [] (.ref x)) := by
        refine ⟨h, hrendered, ht, hnodes, fun _ => leave_mem_walk, fun id tag o pre hs hp => ?_⟩
        rcases hwhole with hacyclic | hraw
        · exact hrendered.bottomUp h hacyclic depth _ 0 o pre hp (ht.trace.met _ 0 o pre hp)
        · exfalso
          cases hrendered.sources id _ hs with
          | @container i _ hi hecho hsrc => cases hc : g.read i <;> rw [hc] at hsrc <;> cases hsrc
          | payload hid hcell => exact hraw.ne_native hid hcell
      apply hended.written
      obtain ⟨n, hn⟩ := ht.exists_memo hmet
      exact ⟨x, rfl, by simp [SaveState.nodeId, hn]⟩
    | pending y => exact absurd hsave (not_yields_convert_pending session depth y _ m s)
    | _ => cases hroot

end Save

end TaggedGraph
