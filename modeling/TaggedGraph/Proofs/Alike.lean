import TaggedGraph.Object.Basic

namespace TaggedGraph

/-- The same kind, the same type, the same keys in the same order and as many parts. -/
def Cell.SameShape : Cell → Cell → Prop
  | list items, list items' => items.length = items'.length
  | map entries, map entries' => entries.keys = entries'.keys
  | native type _, native type' _ => type = type'
  | _, _ => False

theorem Cell.SameShape.length_eq {cell cell' : Cell} (h : cell.SameShape cell') :
    cell.parts.length = cell'.parts.length := by
  cases cell <;> cases cell' <;> simp only [SameShape] at h
  · exact h
  · have := congrArg List.length h
    simpa [OrderedMap.keys, parts, OrderedMap.values] using this
  · rfl

namespace ObjectGraph

/-- Two lists, maps or instances of the same shape, or the same primitive. -/
def SameShape (g h : ObjectGraph) : Object → Object → Prop
  | .ref i, .ref j => (g.read i).SameShape (h.read j)
  | a, b => a = b

/-- Object `a` of `g` and object `b` of `h` stand at the same place: at the start, or as the same
part of objects that stand at the same place. -/
inductive SamePlace (g h : ObjectGraph) (r r' : Object) : Object → Object → Prop
  | start : SamePlace g h r r' r r'
  | part {a b c d : Object} {i : Nat} (hab : SamePlace g h r r' a b)
      (hc : (g.parts a)[i]? = some c) (hd : (h.parts b)[i]? = some d) : SamePlace g h r r' c d

/-- What stands at the same place looks the same. An object that is shared in one graph may be
there twice in the other. -/
def Alike (g h : ObjectGraph) (r r' : Object) : Prop :=
  ∀ a b, SamePlace g h r r' a b → g.SameShape h a b

/-- The two graphs look the same, and two places share an object in both of them or in none. -/
structure Isomorphic (g h : ObjectGraph) (r r' : Object) : Prop where
  alike : Alike g h r r'
  shared : ∀ a b a' b', SamePlace g h r r' a b → SamePlace g h r r' a' b' →
    (b.isSame b' ↔ a.isSame a')

/-- The two graphs look the same, and two places share an instance in both of them or in none. Lists
and maps may be shared differently. -/
structure Restored (g h : ObjectGraph) (r r' : Object) : Prop where
  alike : Alike g h r r'
  shared : ∀ a b a' b', SamePlace g h r r' a b → SamePlace g h r r' a' b' →
    (g.native? a).isSome → (b.isSame b' ↔ a.isSame a')

variable {g h : ObjectGraph} {r r' : Object}

theorem SameShape.exists_ref_iff {a b : Object} (hab : g.SameShape h a b) :
    (∃ i, a = .ref i) ↔ ∃ j, b = .ref j := by
  unfold SameShape at hab
  split at hab
  · rename_i i j
    exact iff_of_true ⟨i, rfl⟩ ⟨j, rfl⟩
  · subst hab
    rfl

end ObjectGraph

end TaggedGraph
