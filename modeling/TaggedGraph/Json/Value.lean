import TaggedGraph.Ascending
import TaggedGraph.Binary64

namespace TaggedGraph

inductive JsonNumber
  | int (i : Int)
  | float (x : Binary64)
deriving DecidableEq

/-- Objects hold each key once, in ascending order. -/
inductive Json
  | null
  | bool (b : Bool)
  | number (n : JsonNumber)
  | string (s : String)
  | array (items : List Json)
  | object (entries : List (String × Json))

instance : Inhabited Json := ⟨.null⟩

namespace JsonNumber

def inInt64 (i : Int) : Bool :=
  -0x8000000000000000 ≤ i && i < 0x8000000000000000

/-- An integer is written as it is, and needs 64 bits with or without a sign. -/
def Valid : JsonNumber → Prop
  | int i => -0x8000000000000000 ≤ i ∧ i < 0x10000000000000000
  | float x => x.isFinite = true

/-- The number as a signed integer, if it is one and has that range. -/
def toInt64? : JsonNumber → Option Int64
  | int i => if inInt64 i then some (Int64.ofInt i) else none
  | float _ => none

def toBinary64 : JsonNumber → Binary64
  | int i => Binary64.ofInt i
  | float x => x

end JsonNumber

namespace Json

/-- A number that is not finite has no written form and becomes null. -/
def ofBinary64 (x : Binary64) : Json :=
  if x.isFinite then number (.float x) else null

def ofInt64 (i : Int64) : Json :=
  number (.int i.toInt)

/-- The object with the given entries. Of entries with one key the last one stays. -/
def ofEntries (l : List (String × Json)) : Json :=
  object (Ascending.ofList Prod.fst l)

/-- Keys are in ascending order, and numbers in range, all the way down. -/
inductive Valid : Json → Prop
  | null : Valid null
  | bool (b : Bool) : Valid (bool b)
  | number (n : JsonNumber) (hn : n.Valid) : Valid (number n)
  | string (s : String) : Valid (string s)
  | array (items : List Json) (h : ∀ v ∈ items, Valid v) : Valid (array items)
  | object (entries : List (String × Json)) (hs : Ascending.Sorted Prod.fst entries)
      (h : ∀ e ∈ entries, Valid e.2) : Valid (object entries)

end Json

/-- Steps that find structured data, if there is any. The state is the path on which they walk, the
innermost first. -/
abbrev EncodeM := StateT (List Nat) Option

/-- Runs the steps with `id` pushed onto the path, unless it is on the path already, and pops it. -/
def EncodeM.visit {α : Type} (id : Nat) (inside : EncodeM α) : EncodeM α := do
  if id ∈ (← get) then failure
  modify (id :: ·)
  let a ← inside
  modify List.tail
  return a

end TaggedGraph
