namespace TaggedGraph.Traversal

/-- The vertices of `seen`, and after them those met from `n` for the first time, each before its
children. -/
def visit {α : Type} [DecidableEq α] (children : α → List α) :
    (depth : Nat) → (seen : List α) → α → List α
  | 0, seen, _ => seen
  | depth + 1, seen, n =>
    if n ∈ seen then seen else (children n).foldl (visit children depth) (seen ++ [n])

/-- The vertices met from `roots`. A path without repetition is no longer than `size`. -/
def preorder (children : Nat → List Nat) (size : Nat) (roots : List Nat) : List Nat :=
  roots.foldl (visit children (size + 1)) []

end TaggedGraph.Traversal
