import TaggedGraph.Node.Inspect
import TaggedGraph.Object.Basic

namespace TaggedGraph

/-- Steps that find a text, unless it goes too deep. The state is the containers that are being
shown, the innermost first. -/
abbrev InspectM := StateT (List ObjectId) Option

/-- Runs the steps inside the container `id`, unless it is being shown already. -/
def InspectM.visit {α : Type} (id : ObjectId) (inside : InspectM α) : InspectM (Option α) := do
  if id ∈ (← get) then return none
  modify (id :: ·)
  let a ← inside
  modify (·.erase id)
  return some a

def Cell.label : Cell → String
  | list _ => "List"
  | map _ => "Map"
  | native .. => "Native"

def Object.inspectPlain : Object → String
  | null => "Null"
  | bool b => Inspect.call "Bool" [Inspect.bool b]
  | int i => Inspect.call "Int" [Int.repr i.toInt]
  | float x => Inspect.call "Float" [Decimal.write .plain x]
  | string s => Inspect.call "String" [Text.quote s]
  | bytes b => Inspect.call "Bytes" ["len=" ++ Nat.repr b.length]
  | pending n => Inspect.call "Pending" [NodeId.inspect n]
  | ref _ => ""

namespace ObjectGraph

/-- The text of the cell at `id`. `inside` gives the texts of its parts. -/
def inspectCell (inside : Object → InspectM String) (id : ObjectId) : Cell → InspectM String
  | .list items => do
    match ← InspectM.visit id (items.mapM inside) with
    | some texts => return Inspect.list texts
    | none => return "[...]"
  | .map entries => do
    match ← InspectM.visit id (entries.values.mapM inside) with
    | some texts => return Inspect.map ((entries.keys.map Text.quote).zip texts)
    | none => return "\x7b...\x7d"
  | .native type payload => return Inspect.call type.label [← inside payload]

def inspectOn (g : ObjectGraph) : (fuel : Nat) → Object → InspectM String
  | 0, _ => failure
  | fuel + 1, .ref id =>
    return Inspect.call (g.read id).label [← inspectCell (g.inspectOn fuel) id (g.read id)]
  | _, o => return o.inspectPlain

/-- No text of a graph without cycles of native instances goes deeper than this. -/
def inspectDepth (g : ObjectGraph) : Nat :=
  (g.size + 1) * (g.size + 1) + 1

def inspect? (g : ObjectGraph) (o : Object) : Option String :=
  (g.inspectOn g.inspectDepth o).run' []

/-- The text of a list or a map, without the name of its kind. -/
def inspectContainer? (g : ObjectGraph) (id : ObjectId) : Option String :=
  match g.read id with
  | .native .. => none
  | c => (inspectCell (g.inspectOn g.inspectDepth) id c).run' []

end ObjectGraph

end TaggedGraph
