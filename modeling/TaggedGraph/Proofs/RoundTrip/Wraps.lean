import TaggedGraph.Proofs.Load.Results

namespace TaggedGraph

/-- From `g` to `h` no cells are freed, and those in `own` stay as they are. -/
structure Fixes (own : ObjectId → Prop) (g h : ObjectGraph) : Prop where
  size : g.size ≤ h.size
  read : ∀ i, own i → h.read i = g.read i

namespace Fixes

variable {own own' : ObjectId → Prop} {g h k : ObjectGraph}

theorem refl (own : ObjectId → Prop) (g : ObjectGraph) : Fixes own g g :=
  ⟨Nat.le_refl _, fun _ _ => rfl⟩

theorem trans (hgh : Fixes own g h) (hhk : Fixes own h k) : Fixes own g k where
  size := Nat.le_trans hgh.size hhk.size
  read i hi := by rw [hhk.read i hi, hgh.read i hi]

theorem grow (hgh : Fixes (· < g.size) g h) (hhk : Fixes (· < h.size) h k) :
    Fixes (· < g.size) g k where
  size := Nat.le_trans hgh.size hhk.size
  read i hi := by rw [hhk.read i (Nat.lt_of_lt_of_le hi hgh.size), hgh.read i hi]

theorem mono (hgh : Fixes own g h) (hown : ∀ i, own' i → own i) : Fixes own' g h where
  size := hgh.size
  read i hi := hgh.read i (hown i hi)

end Fixes

/-- The object `v` is the raw value of node `n` in `g`: a primitive, or a list or map with something
in the place of each child. -/
def Shows (nodes : NodeGraph) (n : NodeId) (v : Object) (g : ObjectGraph) : Prop :=
  match nodes.content n with
  | .scalar w => v = Load.ofScalar w
  | ct => ∃ id res, v = .ref id ∧ id < g.size ∧ ct.BuiltWith res (g.read id) ∧
    ∀ c ∈ ct.children, ∀ w, nodes.tag c = none → nodes.content c = .scalar w →
      res c = Load.ofScalar w

/-- The instance `id` that a converter makes of the raw value of a node, and the cells that belong
to it. -/
structure Wrapper where
  node : NodeId
  converter : LoadedConverter Behaviour
  tag : TagUri
  raw : Object
  id : ObjectId
  own : ObjectId → Prop

namespace Wrapper

/-- All cells that were added from `g` to `h` belong to the instance. -/
def widen (w : Wrapper) (g h : ObjectGraph) : Wrapper :=
  { w with own := fun i => w.own i ∨ g.size ≤ i ∧ i < h.size }

variable (session : Session) (nodes : NodeGraph) (w : Wrapper) (g : ObjectGraph)

/-- In `g` the same converter is chosen for the instance, chooses the tag of the node and answers
with the raw value. -/
structure Serves : Prop where
  converter : ∃ type payload, g.read w.id = .native type payload ∧
    session.registry.converterForInstance type = some w.converter
  tag : w.converter.selectTag session.context g (.ref w.id) = some w.tag
  answer : ∃ h, Yields (w.converter.converter.behaviour.toTree session.context (.ref w.id)
    (some w.tag)) g w.raw h ∧ Fixes (· < g.size) g h

/-- The instance holds the raw value as long as its own cells stay as they are in `g`. -/
def Keeps : Prop :=
  ∀ k, Fixes w.own g k → Shows nodes w.node w.raw k → w.Serves session k

/-- The completion lets the instance hold the raw value. It may add cells, and changes no other
cells than those of the instance. -/
def KeepsLater (completion : GraphM Unit) : Prop :=
  ∀ k, Fixes w.own g k → Shows nodes w.node w.raw k → ∃ k', Yields completion k () k' ∧
    Fixes (fun i => i < k.size ∧ ¬ w.own i) k k' ∧
    (w.widen k k').Keeps session nodes k'

def Stores : FromTree → Prop
  | .ready _ => w.Keeps session nodes g
  | .deferred d => d.phase ≠ .finished ∧ w.KeepsLater session nodes g d.completion

end Wrapper

/-- Called with the raw value of node `n`, the converter answers with a fresh instance that holds
it. -/
def Wraps (session : Session) (nodes : NodeGraph) (n : NodeId) (t : TagUri)
    (c : LoadedConverter Behaviour) : Prop :=
  ∀ raw g, Shows nodes n raw g → ∃ answer h id,
    Yields (c.converter.behaviour.fromTree session.context raw t) g answer h ∧
    Fixes (· < g.size) g h ∧ g.size ≤ id ∧ id < h.size ∧ answer.object = .ref id ∧
    Wrapper.Stores session nodes (.widen ⟨n, c, t, raw, id, fun _ => False⟩ g h) h answer

/-- Every tag that can be reached has a converter, which wraps. -/
def Session.Covers (session : Session) (nodes : NodeGraph) (root : NodeId) : Prop :=
  ∀ n t, nodes.Reachable root n → nodes.tag n = some t →
    ∃ c, session.registry.converterForTag t = some c ∧ Wraps session nodes n t c

section
variable (P : Wrapper → ObjectGraph → Prop)

namespace Wrapper

variable (nodes : NodeGraph) (w : Wrapper) (g : ObjectGraph)

/-- The instance has the property as long as its own cells stay as they are in `g`. -/
def KeepsAs : Prop :=
  ∀ k, Fixes w.own g k → Shows nodes w.node w.raw k → P w k

/-- The completion gives the instance the property, and changes no cells but its own. -/
def KeepsLaterAs (completion : GraphM Unit) : Prop :=
  ∀ k, Fixes w.own g k → Shows nodes w.node w.raw k → ∃ k', Yields completion k () k' ∧
    Fixes (fun i => i < k.size ∧ ¬ w.own i) k k' ∧
    (w.widen k k').KeepsAs P nodes k'

def StoresAs : FromTree → Prop
  | .ready _ => w.KeepsAs P nodes g
  | .deferred d => d.phase ≠ .finished ∧ w.KeepsLaterAs P nodes g d.completion

end Wrapper

def WrapsAs (session : Session) (nodes : NodeGraph) (n : NodeId) (t : TagUri)
    (c : LoadedConverter Behaviour) : Prop :=
  ∀ raw g, Shows nodes n raw g → ∃ answer h id,
    Yields (c.converter.behaviour.fromTree session.context raw t) g answer h ∧
    Fixes (· < g.size) g h ∧ g.size ≤ id ∧ id < h.size ∧ answer.object = .ref id ∧
    Wrapper.StoresAs P nodes (.widen ⟨n, c, t, raw, id, fun _ => False⟩ g h) h answer

def Session.CoversAs (session : Session) (nodes : NodeGraph) (root : NodeId) : Prop :=
  ∀ n t, nodes.Reachable root n → nodes.tag n = some t →
    ∃ c, session.registry.converterForTag t = some c ∧ WrapsAs P session nodes n t c

end

theorem Session.Covers.coversAs {session : Session} {nodes : NodeGraph} {root : NodeId}
    (h : session.Covers nodes root) : session.CoversAs (Wrapper.Serves session) nodes root :=
  h

section
variable {nodes : NodeGraph} {n : NodeId} {v : Object} {g k : ObjectGraph}

theorem Shows.mono {own : ObjectId → Prop} (h : Shows nodes n v g) (hk : Fixes own g k)
    (hv : ∀ id, v = .ref id → own id) : Shows nodes n v k := by
  unfold Shows at *
  split at h
  · exact h
  · obtain ⟨id, res, rfl, hid, hbuilt, hres⟩ := h
    refine ⟨id, res, rfl, Nat.lt_of_lt_of_le hid hk.size, ?_, hres⟩
    rwa [hk.read id (hv id rfl)]

end

section
variable {P : Wrapper → ObjectGraph → Prop} {nodes : NodeGraph} {w : Wrapper} {g h : ObjectGraph}

theorem Wrapper.KeepsAs.mono (hw : w.KeepsAs P nodes g) (hgh : Fixes w.own g h) :
    w.KeepsAs P nodes h :=
  fun k hk => hw k (hgh.trans hk)

theorem Wrapper.KeepsLaterAs.mono {completion : GraphM Unit}
    (hw : w.KeepsLaterAs P nodes g completion) (hgh : Fixes w.own g h) :
    w.KeepsLaterAs P nodes h completion :=
  fun k hk => hw k (hgh.trans hk)

end

section
variable {session : Session} {nodes : NodeGraph} {t : TagUri} {c : LoadedConverter Behaviour}
  {type : NativeType}

theorem serves_of_holds {w : Wrapper} {g : ObjectGraph}
    (hread : g.read w.id = .native type w.raw)
    (hto : w.converter.converter.behaviour.toTree = (Behaviour.holding type).toTree)
    (hc : session.registry.converterForInstance type = some w.converter)
    (ht : w.converter.selectTag session.context g (.ref w.id) = some w.tag) :
    w.Serves session g where
  converter := ⟨type, w.raw, hread, hc⟩
  tag := ht
  answer := by
    refine ⟨g, ?_, Fixes.refl _ g⟩
    have hnative : g.native? (.ref w.id) = some (type, w.raw) := by
      simp [ObjectGraph.native?, ObjectGraph.cell?, hread]
    rw [hto, Yields, Behaviour.run_toTree_holding, hnative]

theorem holding_wraps (n : NodeId) (hb : c.converter.behaviour = .holding type)
    (hc : session.registry.converterForInstance type = some c)
    (ht : ∀ g o, c.selectTag session.context g o = some t) : Wraps session nodes n t c := by
  intro raw g _
  have hlt : g.size < (g.alloc (Cell.native type raw)).2.size := by
    rw [Heap.size_alloc]
    omega
  refine ⟨.ready (.ref g.size), (g.alloc (.native type raw)).2, g.size, ?_, ?_, Nat.le_refl _, hlt,
    rfl, fun k hk _ => ?_⟩
  · rw [hb]
    exact Behaviour.run_holding type _ raw t g
  · exact ⟨Nat.le_of_lt hlt, fun i hi => Heap.read_alloc_of_lt g _ i hi⟩
  · have hread : k.read g.size = .native type raw := by
      rw [hk.read g.size (.inr ⟨Nat.le_refl _, hlt⟩), Heap.read_alloc_self]
    have hto : c.converter.behaviour.toTree = (Behaviour.holding type).toTree := by rw [hb]
    exact serves_of_holds hread hto hc (ht k _)

theorem holdingLater_wraps (n : NodeId) (hb : c.converter.behaviour = .holdingLater type)
    (hc : session.registry.converterForInstance type = some c)
    (ht : ∀ g o, c.selectTag session.context g o = some t) : Wraps session nodes n t c := by
  intro raw g _
  have hlt : g.size < (g.alloc (Cell.native type .null)).2.size := by
    rw [Heap.size_alloc]
    omega
  refine ⟨.deferred (.new (.ref g.size) (modify fun k => k.setPayload g.size raw)),
    (g.alloc (.native type .null)).2, g.size, ?_, ?_, Nat.le_refl _, hlt, rfl, nofun,
    fun k hk _ => ?_⟩
  · rw [hb]
    exact Behaviour.run_holdingLater type _ raw t g
  · exact ⟨Nat.le_of_lt hlt, fun i hi => Heap.read_alloc_of_lt g _ i hi⟩
  · have hk_lt : g.size < k.size := Nat.lt_of_lt_of_le hlt hk.size
    have hread : k.read g.size = .native type .null := by
      rw [hk.read g.size (.inr ⟨Nat.le_refl _, hlt⟩), Heap.read_alloc_self]
    have hset : k.setPayload g.size raw = k.write g.size (.native type raw) := by
      simp [ObjectGraph.setPayload, hread]
    refine ⟨k.write g.size (.native type raw), hset ▸ rfl, ⟨?_, fun i hi => ?_⟩, fun l hl _ => ?_⟩
    · exact Nat.le_of_eq (Heap.size_write k _ _).symm
    · refine Heap.read_write_of_ne k _ i _ fun he => hi.2 (.inr ?_)
      exact he ▸ ⟨Nat.le_refl _, hlt⟩
    · have hread : l.read g.size = .native type raw := by
        rw [hl.read g.size (.inl (.inr ⟨Nat.le_refl _, hlt⟩)), Heap.read_write_self k _ _ hk_lt]
      have hto : c.converter.behaviour.toTree = (Behaviour.holding type).toTree := by
        rw [hb]
        rfl
      exact serves_of_holds hread hto hc (ht l _)

end

end TaggedGraph
