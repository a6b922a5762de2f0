import TaggedGraph.Toml.Quoted
import TaggedGraph.Toml.Scalar

namespace TaggedGraph.Toml

def skipSpace (s : List Char) : List Char :=
  s.dropWhile isSpace

def isBareKey (c : Char) : Bool :=
  Text.isDigit c || ('a' ≤ c && c ≤ 'z') || ('A' ≤ c && c ≤ 'Z') || c == '_' || c == '-'

def readKeyPart (s : List Char) : Option (String × List Char) :=
  match s.takeWhile isBareKey with
  | [] => readQuoted s
  | key => some (String.ofList key, s.dropWhile isBareKey)

/-- How deep arrays and tables may be nested in a value, and how many parts a key may have. -/
def depthLimit : Nat := 80

def readKeyParts : (parts : Nat) → List Char → Option (List String × List Char)
  | 0, _ => none
  | parts + 1, s => do
    let (key, r) ← readKeyPart (skipSpace s)
    match skipSpace r with
    | '.' :: r => do
      let (keys, r) ← readKeyParts parts r
      return (key :: keys, r)
    | r => return ([key], r)

def readKey (s : List Char) : Option (List String × List Char) :=
  readKeyParts depthLimit s

/-- Skips a comment, if one begins here. A comment holds plain characters only. -/
def skipComment (s : List Char) : List Char :=
  match s with
  | '#' :: r => r.dropWhile isPlain
  | s => s

def readBreak : List Char → Option (List Char)
  | '\n' :: r => some r
  | '\r' :: '\n' :: r => some r
  | _ => none

def skipLines : (fuel : Nat) → List Char → List Char
  | 0, s => s
  | fuel + 1, s =>
    let r := skipComment (skipSpace s)
    match readBreak r with
    | some r => skipLines fuel r
    | none => r

def assignPath (path : List String) (v : Value) (es : Entries) : Option Entries :=
  match path.getLast? with
  | some key => es.assign v key path.dropLast
  | none => none

mutual

/-- Reads a value, with arrays and tables nested at most `depth` deep. -/
def readValue (depth : Nat) : (fuel : Nat) → List Char → Option (Value × List Char)
  | 0, _ => none
  | fuel + 1, s =>
    match s with
    | '[' :: r =>
      if depth = 0 then none
      else do
        let (items, r) ← readItems (depth - 1) fuel (skipLines (r.length + 1) r)
        return (.array items, r)
    | '\x7b' :: r =>
      if depth = 0 then none
      else do
        let (es, r) ← readPairs (depth - 1) fuel [] (skipLines (r.length + 1) r)
        return (.table .inline es, r)
    | c :: _ =>
      if c = '"' ∨ c = '\'' then (readText s).map fun p => (.text p.1, p.2) else readScalar s
    | [] => none

/-- Reads the items of an array up to its end. A comma may follow the last one. -/
def readItems (depth : Nat) : (fuel : Nat) → List Char → Option (List Value × List Char)
  | 0, _ => none
  | fuel + 1, s =>
    match s with
    | ']' :: r => some ([], r)
    | s => do
      let (v, r) ← readValue depth fuel s
      match skipLines (r.length + 1) r with
      | ']' :: r => return ([v], r)
      | ',' :: r => do
        let (items, r) ← readItems depth fuel (skipLines (r.length + 1) r)
        return (v :: items, r)
      | _ => none

/-- Reads the entries of a table in line up to its end. A comma may follow the last one, and space,
comments and line breaks may stand between any two of its marks. -/
def readPairs (depth : Nat) : (fuel : Nat) → Entries → List Char → Option (Entries × List Char)
  | 0, _, _ => none
  | fuel + 1, es, s =>
    match s with
    | '\x7d' :: r => some (es, r)
    | s => do
      let (path, r) ← readKey s
      let r ← expect '=' (skipLines (r.length + 1) r)
      let (v, r) ← readValue depth fuel (skipLines (r.length + 1) r)
      let es ← assignPath path v es
      match skipLines (r.length + 1) r with
      | '\x7d' :: r => return (es, r)
      | ',' :: r => readPairs depth fuel es (skipLines (r.length + 1) r)
      | _ => none

end

/-- What is left after the end of a line. -/
def finishLine (s : List Char) : Option (List Char) :=
  match skipComment (skipSpace s) with
  | [] => some []
  | r => readBreak r

/-- The table that keys belong to, and all tables so far. -/
structure State where
  path : List String
  root : Entries

def readHeader (st : State) (s : List Char) : Option (State × List Char) := do
  let (path, r) ← readKey s
  let r ← expect ']' r
  let key ← path.getLast?
  return (⟨path, ← st.root.under (·.openTable key) path.dropLast⟩, r)

def readItemHeader (st : State) (s : List Char) : Option (State × List Char) := do
  let (path, r) ← readKey s
  let r ← expect ']' (← expect ']' r)
  let key ← path.getLast?
  return (⟨path, ← st.root.under (·.openItem key) path.dropLast⟩, r)

def readPair (st : State) (s : List Char) : Option (State × List Char) := do
  let (path, r) ← readKey s
  let r := skipSpace (← expect '=' r)
  -- at most two steps for each character
  let (v, r) ← readValue depthLimit (2 * r.length + 2) r
  return (⟨st.path, ← st.root.under (assignPath path v) st.path⟩, r)

def readStatement (st : State) (s : List Char) : Option (State × List Char) :=
  match s with
  | '[' :: '[' :: r => readItemHeader st r
  | '[' :: r => readHeader st r
  | s => readPair st s

def readStatements : (fuel : Nat) → State → List Char → Option Entries
  | 0, _, _ => none
  | fuel + 1, st, s =>
    match skipLines (s.length + 1) s with
    | [] => some st.root
    | s => do
      let (st, r) ← readStatement st s
      readStatements fuel st (← finishLine r)

/-- Reads a whole text. A byte order mark in front is ignored. -/
def parse? (s : String) : Option Entries :=
  let chars := match s.toList with
    | '\ufeff' :: r => r
    | s => s
  readStatements (chars.length + 1) ⟨[], []⟩ chars

end TaggedGraph.Toml
