import TaggedGraph.Node.Basic

namespace TaggedGraph

/-- A native type: its qualified name, and the name its instances are shown with. Types are told
apart by `id`. -/
structure NativeType where
  id : Nat
  name : String
  label : String
deriving DecidableEq

abbrev ObjectId := Nat

inductive Object
  | null
  | bool (b : Bool)
  | int (i : Int64)
  | float (x : Binary64)
  | string (s : String)
  | bytes (b : List UInt8)
  /-- A list, a map or a native instance. -/
  | ref (id : ObjectId)
  /-- A reference to a node whose conversion is not finished. -/
  | pending (node : NodeId)
deriving DecidableEq

instance : Inhabited Object := ⟨.null⟩

inductive Cell
  | list (items : List Object)
  | map (entries : OrderedMap Object)
  | native (type : NativeType) (payload : Object)
deriving DecidableEq

instance : Inhabited Cell := ⟨.list []⟩

def Cell.parts : Cell → List Object
  | list items => items
  | map entries => entries.values
  | native _ payload => [payload]

def Cell.isContainer : Cell → Bool
  | native _ _ => false
  | _ => true

abbrev ObjectGraph := Heap Cell

namespace Object

def id? : Object → Option ObjectId
  | ref id => some id
  | _ => none

def isPending : Object → Bool
  | pending _ => true
  | _ => false

/-- Both are the same list, map or native instance. -/
def isSame (a b : Object) : Bool :=
  match a, b with
  | ref i, ref j => i == j
  | _, _ => false

def string? : Object → Option String
  | string s => some s
  | _ => none

def int? : Object → Option Int64
  | int i => some i
  | _ => none

/-- The value as a floating-point number; an integer is rounded. -/
def float? : Object → Option Binary64
  | float x => some x
  | int i => some (.ofInt i.toInt)
  | _ => none

theorem isSame_iff (a b : Object) : a.isSame b = true ↔ ∃ i, a = ref i ∧ b = ref i := by
  cases a <;> cases b <;> simp [isSame]
  exact ⟨fun h => h.symm, fun h => h.symm⟩

end Object

namespace ObjectGraph

def new (g : ObjectGraph) (c : Cell) : Object × ObjectGraph :=
  let (id, g) := g.alloc c
  (.ref id, g)

def cell? (g : ObjectGraph) : Object → Option Cell
  | .ref id => some (g.read id)
  | _ => none

def list? (g : ObjectGraph) (o : Object) : Option (List Object) :=
  match g.cell? o with
  | some (.list items) => some items
  | _ => none

def map? (g : ObjectGraph) (o : Object) : Option (OrderedMap Object) :=
  match g.cell? o with
  | some (.map entries) => some entries
  | _ => none

def native? (g : ObjectGraph) (o : Object) : Option (NativeType × Object) :=
  match g.cell? o with
  | some (.native type payload) => some (type, payload)
  | _ => none

/-- A short description of the kind of value, the type's name for an instance. -/
def kind (g : ObjectGraph) : Object → String
  | .null => "null"
  | .bool _ => "bool"
  | .int _ => "int"
  | .float _ => "float"
  | .string _ => "string"
  | .bytes _ => "bytes"
  | .ref id =>
    match g.read id with
    | .list _ => "list"
    | .map _ => "map"
    | .native type _ => type.name
  | .pending _ => "pending"

def parts (g : ObjectGraph) : Object → List Object
  | .ref id => (g.read id).parts
  | _ => []

inductive Reachable (g : ObjectGraph) : Object → Object → Prop
  | refl (o : Object) : Reachable g o o
  | step {o p q : Object} : Reachable g o p → q ∈ g.parts p → Reachable g o q

def push (g : ObjectGraph) (id : ObjectId) (o : Object) : ObjectGraph :=
  match g.read id with
  | .list items => g.write id (.list (items ++ [o]))
  | _ => g

/-- Replaces an element of a list; an index past its end changes nothing. -/
def set (g : ObjectGraph) (id : ObjectId) (index : Nat) (o : Object) : ObjectGraph :=
  match g.read id with
  | .list items => g.write id (.list (items.set index o))
  | _ => g

def insert (g : ObjectGraph) (id : ObjectId) (key : String) (o : Object) : ObjectGraph :=
  match g.read id with
  | .map entries => g.write id (.map (entries.insert key o))
  | _ => g

def setPayload (g : ObjectGraph) (id : ObjectId) (o : Object) : ObjectGraph :=
  match g.read id with
  | .native type _ => g.write id (.native type o)
  | _ => g

def clear (g : ObjectGraph) (id : ObjectId) : ObjectGraph :=
  match g.read id with
  | .list _ => g.write id (.list [])
  | .map _ => g.write id (.map ∅)
  | .native _ _ => g

end ObjectGraph

end TaggedGraph
