namespace TaggedGraph.Toml

/-- How a table was made, which decides who may still add to it. -/
inductive TableKind
  | header
  | implied
  | dotted
  | inline
deriving DecidableEq

inductive Value
  | text (s : String)
  | bool (b : Bool)
  | number
  /-- A number in good form that denotes no machine number. -/
  | unreadable
  /-- A date, a time, or both. -/
  | moment
  | array (items : List Value)
  | table (kind : TableKind) (entries : List (String × Value))
  /-- Tables that are made one after the other by headers. -/
  | tables (items : List (List (String × Value)))

instance : Inhabited Value := ⟨.number⟩

abbrev Entries := List (String × Value)

namespace Entries

/-- Replaces the value of a key, or adds one, as `f` decides. -/
def alter (key : String) (f : Option Value → Option Value) : Entries → Option Entries
  | [] => (f none).map fun v => [(key, v)]
  | (k, v) :: r =>
    if k = key then (f (some v)).map fun v => (k, v) :: r
    else (alter key f r).map ((k, v) :: ·)

/-- Changes the table at the end of a path of headers, and makes the tables that are missing. -/
def under (f : Entries → Option Entries) : (path : List String) → Entries → Option Entries
  | [], es => f es
  | key :: path, es => es.alter key fun
    | none => (under f path []).map (.table .implied)
    | some (.table .inline _) => none
    | some (.table kind inner) => (under f path inner).map (.table kind)
    | some (.tables items) =>
      match items.getLast? with
      | some last => (under f path last).map fun new => .tables (items.dropLast ++ [new])
      | none => none
    | some _ => none

/-- The header `[key]`. A table is made once by a header of its own. -/
def openTable (key : String) (es : Entries) : Option Entries :=
  es.alter key fun
    | none => some (.table .header [])
    | some (.table .implied inner) => some (.table .header inner)
    | some _ => none

def openItem (key : String) (es : Entries) : Option Entries :=
  es.alter key fun
    | none => some (.tables [[]])
    | some (.tables items) => some (.tables (items ++ [[]]))
    | some _ => none

/-- Gives a dotted key its value. Only tables made by dotted keys get entries in this way; the way
to them may lead through the last one of tables that headers made. -/
def assign (v : Value) (key : String) : (path : List String) → Entries → Option Entries
  | [], es => es.alter key fun
    | none => some v
    | some _ => none
  | k :: path, es => es.alter k fun
    | none => (assign v key path []).map (.table .dotted)
    | some (.table kind inner) =>
      if kind = .dotted ∨ (kind = .implied ∧ path ≠ []) then
        (assign v key path inner).map (.table kind)
      else none
    | some (.tables items) =>
      match items.getLast? with
      | some last =>
        if path = [] then none
        else (assign v key path last).map fun new => .tables (items.dropLast ++ [new])
      | none => none
    | some _ => none

end Entries

end TaggedGraph.Toml
