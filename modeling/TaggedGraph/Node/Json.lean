import TaggedGraph.Json.Value
import TaggedGraph.Node.Basic

namespace TaggedGraph

def Scalar.ofJsonNumber (n : JsonNumber) : Scalar :=
  match n.toInt64? with
  | some i => .int i
  | none => .float n.toBinary64

def Scalar.toJson? : Scalar → Option Json
  | null => some .null
  | bool b => some (.bool b)
  | int i => some (.ofInt64 i)
  | float x => some (.ofBinary64 x)
  | string s => some (.string s)
  | binary _ => none

namespace NodeGraph

mutual

def addJson (g : NodeGraph) : Json → NodeId × NodeGraph
  | .null => g.new (.scalar .null)
  | .bool b => g.new (.scalar (.bool b))
  | .number n => g.new (.scalar (.ofJsonNumber n))
  | .string s => g.new (.scalar (.string s))
  | .array items =>
    let (ids, g) := g.addJsonItems items
    g.new (.sequence ids)
  | .object entries =>
    let (ids, g) := g.addJsonEntries entries
    g.new (.mapping (.ofList ids))

def addJsonItems (g : NodeGraph) : List Json → List NodeId × NodeGraph
  | [] => ([], g)
  | v :: r =>
    let (n, g) := g.addJson v
    let (ids, g) := g.addJsonItems r
    (n :: ids, g)

def addJsonEntries (g : NodeGraph) : List (String × Json) → List (String × NodeId) × NodeGraph
  | [] => ([], g)
  | (k, v) :: r =>
    let (n, g) := g.addJson v
    let (ids, g) := g.addJsonEntries r
    ((k, n) :: ids, g)

end

def toJsonOn (g : NodeGraph) : (fuel : Nat) → NodeId → EncodeM Json
  | 0, _ => failure
  | fuel + 1, n => EncodeM.visit n do
    match g.content n with
    | .scalar s => s.toJson?
    | .sequence items => return .array (← items.mapM (g.toJsonOn fuel))
    | .mapping entries => return .ofEntries (← entries.entries.mapM fun e => do
        return (e.1, ← g.toJsonOn fuel e.2))

/-- A path without repetition is never longer than the graph is large. -/
def toJson? (g : NodeGraph) (n : NodeId) : Option Json :=
  (g.toJsonOn (g.size + 1) n).run' []

end NodeGraph

end TaggedGraph
