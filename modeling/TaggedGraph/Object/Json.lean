import TaggedGraph.Json.Value
import TaggedGraph.Object.Basic

namespace TaggedGraph

def Object.ofJsonNumber (n : JsonNumber) : Object :=
  match n.toInt64? with
  | some i => .int i
  | none => .float n.toBinary64

namespace ObjectGraph

mutual

def addJson (g : ObjectGraph) : Json → Object × ObjectGraph
  | .null => (.null, g)
  | .bool b => (.bool b, g)
  | .number n => (.ofJsonNumber n, g)
  | .string s => (.string s, g)
  | .array items =>
    let (os, g) := g.addJsonItems items
    g.new (.list os)
  | .object entries =>
    let (os, g) := g.addJsonEntries entries
    g.new (.map (.ofList os))

def addJsonItems (g : ObjectGraph) : List Json → List Object × ObjectGraph
  | [] => ([], g)
  | v :: r =>
    let (o, g) := g.addJson v
    let (os, g) := g.addJsonItems r
    (o :: os, g)

def addJsonEntries (g : ObjectGraph) :
    List (String × Json) → List (String × Object) × ObjectGraph
  | [] => ([], g)
  | (k, v) :: r =>
    let (o, g) := g.addJson v
    let (os, g) := g.addJsonEntries r
    ((k, o) :: os, g)

end

def toJsonOn (g : ObjectGraph) : (fuel : Nat) → Object → EncodeM Json
  | 0, _ => failure
  | _, .null => return .null
  | _, .bool b => return .bool b
  | _, .int i => return .ofInt64 i
  | _, .float x => return .ofBinary64 x
  | _, .string s => return .string s
  | _, .bytes _ => failure
  | _, .pending _ => failure
  | fuel + 1, .ref id => EncodeM.visit id do
    match g.read id with
    | .list items => return .array (← items.mapM (g.toJsonOn fuel))
    | .map entries => return .ofEntries (← entries.entries.mapM fun e => do
        return (e.1, ← g.toJsonOn fuel e.2))
    | .native _ _ => failure

/-- A path without repetition is never longer than the graph is large. -/
def toJson? (g : ObjectGraph) (o : Object) : Option Json :=
  (g.toJsonOn (g.size + 1) o).run' []

end ObjectGraph

end TaggedGraph
