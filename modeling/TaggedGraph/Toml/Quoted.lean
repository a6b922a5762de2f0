import TaggedGraph.Text.Digits

namespace TaggedGraph.Toml

def isPlain (c : Char) : Bool :=
  c == '\t' || (0x20 ≤ c.toNat && c.toNat != 0x7f)

def isSpace (c : Char) : Bool :=
  c == ' ' || c == '\t'

def scalarValue? (digits : List Char) : Option Char := do
  let n ← Text.hexValue? digits
  if n < 0xd800 ∨ (0xdfff < n ∧ n < 0x110000) then return Char.ofNat n else none

def readEscape : List Char → Option (Char × List Char)
  | 'b' :: r => some ('\x08', r)
  | 't' :: r => some ('\t', r)
  | 'n' :: r => some ('\n', r)
  | 'f' :: r => some ('\x0c', r)
  | 'r' :: r => some ('\r', r)
  | 'e' :: r => some ('\x1b', r)
  | '"' :: r => some ('"', r)
  | '\\' :: r => some ('\\', r)
  | 'x' :: a :: b :: r => (scalarValue? [a, b]).map (·, r)
  | 'u' :: a :: b :: c :: d :: r => (scalarValue? [a, b, c, d]).map (·, r)
  | 'U' :: a :: b :: c :: d :: e :: f :: g :: h :: r =>
    (scalarValue? [a, b, c, d, e, f, g, h]).map (·, r)
  | _ => none

def skipBlank : List Char → List Char
  | '\r' :: '\n' :: r => skipBlank r
  | c :: r => if isSpace c || c == '\n' then skipBlank r else c :: r
  | [] => []

/-- A backslash at the end of a line takes the space and the line breaks after it with it. -/
def skipLineEnd? (s : List Char) : Option (List Char) :=
  match s.dropWhile isSpace with
  | '\n' :: r => some (skipBlank r)
  | '\r' :: '\n' :: r => some (skipBlank r)
  | _ => none

def quotesAhead (q : Char) (s : List Char) : Nat :=
  (s.takeWhile (· == q)).length

/-- Reads on to the closing quote. The first character of `s` is past the opening one. -/
def readLine (q : Char) (escapes : Bool) : (fuel : Nat) → List Char → Option (List Char × List Char)
  | 0, _ => none
  | fuel + 1, s =>
    match s with
    | [] => none
    | c :: r =>
      if c = q then some ([], r)
      else if c = '\\' ∧ escapes then do
        let (c, r) ← readEscape r
        let (t, r) ← readLine q escapes fuel r
        return (c :: t, r)
      else if isPlain c then do
        let (t, r) ← readLine q escapes fuel r
        return (c :: t, r)
      else none

/-- Reads on to three closing quotes. One or two more quotes before them belong to the text. -/
def readLines (q : Char) (escapes : Bool) :
    (fuel : Nat) → List Char → Option (List Char × List Char)
  | 0, _ => none
  | fuel + 1, s =>
    match s with
    | [] => none
    | c :: r =>
      let more (c : Char) (r : List Char) := do
        let (t, r) ← readLines q escapes fuel r
        return (c :: t, r)
      if c = q then
        let n := quotesAhead q s
        if n < 3 then more c r
        else if n ≤ 5 then some (List.replicate (n - 3) q, s.drop n)
        else none
      else if c = '\\' ∧ escapes then
        match skipLineEnd? r with
        | some r => readLines q escapes fuel r
        | none => do
          let (c, r) ← readEscape r
          more c r
      else if isPlain c || c == '\n' || (c == '\r' && r.head? == some '\n') then more c r
      else none

/-- A line break right after the opening quotes is no part of the text. -/
def dropFirstBreak : List Char → List Char
  | '\n' :: r => r
  | '\r' :: '\n' :: r => r
  | s => s

def readQuoted : List Char → Option (String × List Char)
  | '"' :: r => (readLine '"' true (r.length + 1) r).map fun p => (String.ofList p.1, p.2)
  | '\'' :: r => (readLine '\'' false (r.length + 1) r).map fun p => (String.ofList p.1, p.2)
  | _ => none

def readText : List Char → Option (String × List Char)
  | '"' :: '"' :: '"' :: r =>
    (readLines '"' true (r.length + 1) (dropFirstBreak r)).map fun p => (String.ofList p.1, p.2)
  | '\'' :: '\'' :: '\'' :: r =>
    (readLines '\'' false (r.length + 1) (dropFirstBreak r)).map fun p => (String.ofList p.1, p.2)
  | s => readQuoted s

end TaggedGraph.Toml
