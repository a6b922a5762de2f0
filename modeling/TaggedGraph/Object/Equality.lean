import TaggedGraph.Object.Basic

namespace TaggedGraph.ObjectGraph

/-- All elements are equal, pair by pair; the first pair that is not ends the comparison. -/
def equalItems (eq : Object → Object → Option Bool) : List Object → List Object → Option Bool
  | [], [] => some true
  | a :: as, b :: bs => do
    if ← eq a b then equalItems eq as bs else return false
  | _, _ => some false

/-- Every key of the first list has an equal value in the second map. -/
def equalEntries (eq : Object → Object → Option Bool) (m : OrderedMap Object) :
    List (String × Object) → Option Bool
  | [] => some true
  | (k, a) :: r =>
    match m.get? k with
    | none => some false
    | some b => do
      if ← eq a b then equalEntries eq m r else return false

/-- The comparison inside the pairs of containers `seen`, which are taken to be equal, or nothing if
it goes too deep. -/
def equalWithin (g : ObjectGraph) :
    (fuel : Nat) → (seen : List (ObjectId × ObjectId)) → Object → Object → Option Bool
  | 0, _, _, _ => none
  | _, _, .null, .null => some true
  | _, _, .bool a, .bool b => some (a == b)
  | _, _, .int a, .int b => some (a == b)
  | _, _, .float a, .float b => some (a.same b)
  | _, _, .string a, .string b => some (a == b)
  | _, _, .bytes a, .bytes b => some (a == b)
  | _, _, .pending a, .pending b => some (a == b)
  | fuel + 1, seen, .ref a, .ref b =>
    if a = b then some true
    else match g.read a, g.read b with
      | .list as, .list bs =>
        if (a, b) ∈ seen then some true
        else if as.length ≠ bs.length then some false
        else equalItems (g.equalWithin fuel ((a, b) :: seen)) as bs
      | .map as, .map bs =>
        if (a, b) ∈ seen then some true
        else if as.size ≠ bs.size then some false
        else equalEntries (g.equalWithin fuel ((a, b) :: seen)) bs as.entries
      -- an instance asks the other one whether it equals it
      | .native s x, .native t y => if s = t then g.equalWithin fuel seen y x else some false
      | _, _ => some false
  | _, _, _, _ => some false

/-- No comparison of a graph without cycles of native instances goes deeper than this. -/
def equalityDepth (g : ObjectGraph) : Nat :=
  (g.size * g.size + 1) * (g.size + 1) + 1

def equal? (g : ObjectGraph) (a b : Object) : Option Bool :=
  g.equalWithin g.equalityDepth [] a b

end TaggedGraph.ObjectGraph
