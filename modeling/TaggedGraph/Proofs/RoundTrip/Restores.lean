import TaggedGraph.Proofs.Alike
import TaggedGraph.Proofs.Reachable
import TaggedGraph.Proofs.RoundTrip.Wraps

namespace TaggedGraph

namespace ObjectGraph

/-- Object `b` of `h` has the shape of `a` in `g`, and the same primitives in it. -/
def Resembles (g h : ObjectGraph) (a b : Object) : Prop :=
  g.SameShape h a b ∧ ∀ (i : Nat) (x y : Object), (g.parts a)[i]? = some x →
    (h.parts b)[i]? = some y → x.id? = none → y = x

/-- From `g` to `h` the value `b` was found for `a`: `a` itself, or a new cell with the same
parts. -/
def IsCopy (g h : ObjectGraph) (a b : Object) : Prop :=
  b = a ∨ ∃ i j, a = .ref i ∧ b = .ref j ∧ g.size ≤ j ∧ j < h.size ∧ h.read j = h.read i

end ObjectGraph

/-- Called for the instance `id`, whatever was added to the graph, the converter chooses the tag and
answers with the payload or with a copy of it. -/
def Writes (session : Session) (g : ObjectGraph) (id : ObjectId) (payload : Object)
    (c : LoadedConverter Behaviour) (t : TagUri) : Prop :=
  ∀ k, Fixes (· < g.size) g k → c.selectTag session.context k (.ref id) = some t ∧
    ∃ raw k', Yields (c.converter.behaviour.toTree session.context (.ref id) (some t)) k raw k' ∧
      Fixes (· < k.size) k k' ∧ k.IsCopy k' payload raw

/-- Called with a raw value that looks like the payload, the converter answers with a new instance
of the type. It holds the raw value at once, or when its conversion is completed, and that changes
no other cells. -/
def Rebuilds (session : Session) (g : ObjectGraph) (type : NativeType) (payload : Object)
    (c : LoadedConverter Behaviour) (t : TagUri) : Prop :=
  ∀ raw k, g.Resembles k payload raw → ∃ answer k' id,
    Yields (c.converter.behaviour.fromTree session.context raw t) k answer k' ∧
    Fixes (· < k.size) k k' ∧ k.size ≤ id ∧ id < k'.size ∧ answer.object = .ref id ∧
    match answer with
    | .ready _ => k'.read id = .native type raw
    | .deferred d => d.phase ≠ .finished ∧
      ∀ l, Fixes (fun i => k.size ≤ i ∧ i < k'.size) k' l → g.Resembles l payload raw →
        ∃ l', Yields d.completion l () l' ∧
          Fixes (fun i => i < l.size ∧ ¬ (k.size ≤ i ∧ i < k'.size)) l l' ∧
          l'.read id = .native type raw

/-- For every instance that can be reached there is a converter that writes it with a tag, and which
is called for that tag and rebuilds the instance. -/
def Session.Restores (session : Session) (g : ObjectGraph) (root : Object) : Prop :=
  ∀ id type payload, g.Reachable root (.ref id) → g.read id = .native type payload → ∃ c t,
    session.registry.converterForInstance type = some c ∧
    session.registry.converterForTag t = some c ∧
    Writes session g id payload c t ∧ Rebuilds session g type payload c t

section
variable {session : Session} {g : ObjectGraph} {id : ObjectId} {type : NativeType}
  {payload : Object} {c : LoadedConverter Behaviour} {t : TagUri}

theorem holding_writes (hid : id < g.size) (hread : g.read id = .native type payload)
    (hto : c.converter.behaviour.toTree = (Behaviour.holding type).toTree)
    (ht : ∀ k o, c.selectTag session.context k o = some t) : Writes session g id payload c t := by
  intro k hk
  have hnative : k.native? (.ref id) = some (type, payload) :=
    ObjectGraph.native?_ref ((hk.read id hid).trans hread)
  refine ⟨ht k _, payload, k, ?_, Fixes.refl _ k, .inl rfl⟩
  rw [hto, Yields, Behaviour.run_toTree_holding, hnative]

theorem holding_rebuilds (hb : c.converter.behaviour = .holding type) :
    Rebuilds session g type payload c t := by
  intro raw k _
  have hlt : k.size < (k.alloc (Cell.native type raw)).2.size := by
    rw [Heap.size_alloc]
    omega
  refine ⟨.ready (.ref k.size), (k.alloc (.native type raw)).2, k.size, ?_, ?_, Nat.le_refl _, hlt,
    rfl, Heap.read_alloc_self k _⟩
  · rw [hb]
    exact Behaviour.run_holding type _ raw t k
  · exact ⟨Nat.le_of_lt hlt, fun i hi => Heap.read_alloc_of_lt k _ i hi⟩

theorem holdingLater_rebuilds (hb : c.converter.behaviour = .holdingLater type) :
    Rebuilds session g type payload c t := by
  intro raw k _
  have hlt : k.size < (k.alloc (Cell.native type .null)).2.size := by
    rw [Heap.size_alloc]
    omega
  refine ⟨.deferred (.new (.ref k.size) (modify fun l => l.setPayload k.size raw)),
    (k.alloc (.native type .null)).2, k.size, ?_, ?_, Nat.le_refl _, hlt, rfl, nofun,
    fun l hl _ => ?_⟩
  · rw [hb]
    exact Behaviour.run_holdingLater type _ raw t k
  · exact ⟨Nat.le_of_lt hlt, fun i hi => Heap.read_alloc_of_lt k _ i hi⟩
  · have hread : l.read k.size = .native type .null := by
      rw [hl.read k.size ⟨Nat.le_refl _, hlt⟩, Heap.read_alloc_self]
    have hset : l.setPayload k.size raw = l.write k.size (.native type raw) := by
      simp [ObjectGraph.setPayload, hread]
    refine ⟨l.write k.size (.native type raw), hset ▸ rfl, ⟨?_, fun i hi => ?_⟩, ?_⟩
    · exact Nat.le_of_eq (Heap.size_write l _ _).symm
    · exact Heap.read_write_of_ne l _ i _ fun he => hi.2 (he ▸ ⟨Nat.le_refl _, hlt⟩)
    · exact Heap.read_write_self l _ _ (Nat.lt_of_lt_of_le hlt hl.size)

end

end TaggedGraph
