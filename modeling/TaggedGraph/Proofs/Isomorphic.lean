import TaggedGraph.Node.Basic

namespace TaggedGraph

namespace Content

/-- The same kind, the same scalar, the same keys in the same order and as many children. -/
def SameShape : Content → Content → Prop
  | scalar v, scalar w => v = w
  | sequence items, sequence items' => items.length = items'.length
  | mapping entries, mapping entries' => entries.keys = entries'.keys
  | _, _ => False

end Content

namespace NodeGraph

/-- A scalar without a tag. -/
def IsPlain (g : NodeGraph) (n : NodeId) : Prop :=
  g.tag n = none ∧ ∃ v, g.content n = .scalar v

/-- A place in a graph: where one starts, or a child of a node. -/
inductive Place
  | start
  | child (n : NodeId) (index : Nat)

/-- Node `a` of `g` and node `b` of `h` stand at the same place: at the start, or as the same child
of nodes that stand at the same place. The place is one of `g`. -/
inductive SamePlace (g h : NodeGraph) (r r' : NodeId) : Place → NodeId → NodeId → Prop
  | start : SamePlace g h r r' .start r r'
  | child {p : Place} {a b c d : NodeId} {i : Nat} (hab : SamePlace g h r r' p a b)
      (hc : (g.children a)[i]? = some c) (hd : (h.children b)[i]? = some d) :
      SamePlace g h r r' (.child a i) c d

/-- What can be reached from `r` in `g` looks like what can be reached from `r'` in `h`. Two places
share a node in both graphs or in none, but scalars without a tag are not shared in `h`. -/
structure Isomorphic (g h : NodeGraph) (r r' : NodeId) : Prop where
  tag : ∀ p a b, SamePlace g h r r' p a b → g.tag a = h.tag b
  shape : ∀ p a b, SamePlace g h r r' p a b → (g.content a).SameShape (h.content b)
  shared : ∀ p a b p' a' b', SamePlace g h r r' p a b → SamePlace g h r r' p' a' b' →
    ¬ g.IsPlain a → (b = b' ↔ a = a')
  unshared : ∀ p a b p' a' b', SamePlace g h r r' p a b → SamePlace g h r r' p' a' b' →
    g.IsPlain a → (b = b' ↔ p = p')

variable {g h : NodeGraph} {r r' : NodeId}

theorem isomorphic_of_scalar {v : Scalar} (ht : g.tag r = none) (hct : g.content r = .scalar v)
    (hread : h.read r' = ⟨none, .scalar v⟩) : Isomorphic g h r r' := by
  have hstart (p : Place) (a b : NodeId) (hab : SamePlace g h r r' p a b) :
      p = .start ∧ a = r ∧ b = r' := by
    induction hab with
    | start => exact ⟨rfl, rfl, rfl⟩
    | child _ hc _ ih =>
      rw [ih.2.1, children, hct] at hc
      cases hc
  refine ⟨fun p a b hab => ?_, fun p a b hab => ?_, fun p a b p' a' b' hab hab' _ => ?_,
    fun p a b p' a' b' hab hab' _ => ?_⟩
  · obtain ⟨-, rfl, rfl⟩ := hstart p a b hab
    rw [ht, tag, hread]
  · obtain ⟨-, rfl, rfl⟩ := hstart p a b hab
    rw [hct, content, hread]
    rfl
  · obtain ⟨-, rfl, rfl⟩ := hstart p a b hab
    obtain ⟨-, rfl, rfl⟩ := hstart p' a' b' hab'
    exact iff_of_true rfl rfl
  · obtain ⟨rfl, rfl, rfl⟩ := hstart p a b hab
    obtain ⟨rfl, rfl, rfl⟩ := hstart p' a' b' hab'
    exact iff_of_true rfl rfl

end NodeGraph

end TaggedGraph
