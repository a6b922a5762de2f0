namespace TaggedGraph

/-- A text that stands for nothing has no value. -/
inductive Document
  | null
  | bool (b : Bool)
  | text (s : Option String)
  | number
  /-- A number that denotes no machine number. -/
  | unreadable
  /-- A date or a time. -/
  | moment
  | list (items : List Document)
  | table (entries : List (Option String × Document))

instance : Inhabited Document := ⟨.null⟩

/-- How a format treats what a record has no use for. -/
structure Dialect where
  /-- Items after the last field are ignored. -/
  extraItems : Bool
  /-- An unreadable number spoils even an entry that is ignored. -/
  strictNumbers : Bool
  /-- What stands beside the name of a choice when it is written as a table. -/
  isBlank : Document → Bool

namespace Document

mutual

def hasUnreadable : Document → Bool
  | unreadable => true
  | list items => itemsUnreadable items
  | table entries => entriesUnreadable entries
  | _ => false

def itemsUnreadable : List Document → Bool
  | [] => false
  | d :: r => d.hasUnreadable || itemsUnreadable r

def entriesUnreadable : List (Option String × Document) → Bool
  | [] => false
  | (_, d) :: r => d.hasUnreadable || entriesUnreadable r

end

def bool? : Document → Option Bool
  | bool b => some b
  | _ => none

def text? : Document → Option String
  | text s => s
  | _ => none

def texts? : Document → Option (List String)
  | list items => items.mapM text?
  | _ => none

def optionalText? : Option Document → Option (Option String)
  | none => some none
  | some null => some none
  | some d => d.text?.map some

/-- A name, or a table with that name as its only key. -/
def choice? (d : Dialect) : Document → Option String
  | text s => s
  | table [(key, v)] => if d.isBlank v then key else none
  | _ => none

/-- The entry may be there although no field has its key. -/
def isIgnorable (d : Dialect) (v : Document) : Bool :=
  !d.strictNumbers || !v.hasUnreadable

/-- The values of the fields of a record. A record is a table, in which other keys are ignored and
no field occurs twice, or the list of its fields. A date or a time counts as a table of other
keys. -/
def fields? (d : Dialect) (names : List String) : Document → Option (List (Option Document))
  | table entries => do
    let entries ← entries.mapM fun e => e.1.map (·, e.2)
    let known := entries.filter fun e => names.contains e.1
    let others := entries.filter fun e => !names.contains e.1
    if (known.map Prod.fst).eraseDups.length = known.length ∧
        others.all fun e => e.2.isIgnorable d then
      return names.map fun n => known.lookup n
    else none
  | list items =>
    if items.length ≤ names.length ∨ d.extraItems then
      some (names.mapIdx fun i _ => items[i]?)
    else none
  | moment => some (names.map fun _ => none)
  | _ => none

/-- The value of a field, or a default if there is none. -/
def field? {α : Type} (read : Document → Option α) (default : α) : Option Document → Option α
  | none => some default
  | some d => read d

end Document

end TaggedGraph
