import TaggedGraph.Json.Numeral

namespace TaggedGraph

/-- What was written, with repeated keys and with numerals that stand for no number. A string is
missing where it holds half of a surrogate pair. -/
inductive JsonSyntax
  | null
  | bool (b : Bool)
  | number (n : Numeral)
  | string (s : Option String)
  | array (items : List JsonSyntax)
  | object (entries : List (Option String × JsonSyntax))

instance : Inhabited JsonSyntax := ⟨.null⟩

namespace JsonSyntax

def isSpace (c : Char) : Bool :=
  c == ' ' || c == '\n' || c == '\t' || c == '\r'

def skipSpace (s : List Char) : List Char :=
  s.dropWhile isSpace

def escaped? : Char → Option Char
  | '"' => some '"'
  | '\\' => some '\\'
  | '/' => some '/'
  | 'b' => some '\x08'
  | 'f' => some '\x0c'
  | 'n' => some '\n'
  | 'r' => some '\r'
  | 't' => some '\t'
  | _ => none

/-- Reads a string after its opening quote as code points and halves of surrogate pairs. -/
def readUnits : List Char → Option (List Nat × List Char)
  | [] => none
  | '"' :: r => some ([], r)
  | '\\' :: 'u' :: a :: b :: c :: d :: r => do
    let n ← Text.hexValue? [a, b, c, d]
    let (units, rest) ← readUnits r
    return (n :: units, rest)
  | '\\' :: e :: r => do
    let c ← escaped? e
    let (units, rest) ← readUnits r
    return (c.toNat :: units, rest)
  | c :: r =>
    if c.toNat < 0x20 then none
    else do
      let (units, rest) ← readUnits r
      return (c.toNat :: units, rest)

def isHigh (n : Nat) : Bool := 0xd800 ≤ n && n ≤ 0xdbff
def isLow (n : Nat) : Bool := 0xdc00 ≤ n && n ≤ 0xdfff

/-- Joins the halves of surrogate pairs. A half alone stands for nothing. -/
def joinUnits : List Nat → Option (List Char)
  | [] => some []
  | [n] => if isHigh n || isLow n then none else some [Char.ofNat n]
  | n :: m :: r =>
    if isHigh n then
      if isLow m then
        (Char.ofNat (0x10000 + (n - 0xd800) * 0x400 + (m - 0xdc00)) :: ·) <$> joinUnits r
      else none
    else if isLow n then none
    else (Char.ofNat n :: ·) <$> joinUnits (m :: r)

def readString (s : List Char) : Option (Option String × List Char) := do
  let (units, rest) ← readUnits s
  return ((joinUnits units).map String.ofList, rest)

def readDigits (s : List Char) : List Char × List Char :=
  (s.takeWhile Text.isDigit, s.dropWhile Text.isDigit)

def readWhole (s : List Char) : Option (List Char × List Char) :=
  match readDigits s with
  | ([], _) => none
  | ('0' :: _ :: _, _) => none
  | (digits, rest) => some (digits, rest)

def readFraction : List Char → Option (List Char × List Char)
  | '.' :: r =>
    match readDigits r with
    | ([], _) => none
    | (digits, rest) => some (digits, rest)
  | s => some ([], s)

def readExponent (s : List Char) : Option (Option (Bool × List Char) × List Char) :=
  let digits (negative : Bool) (r : List Char) :=
    match readDigits r with
    | ([], _) => none
    | (digits, rest) => some (some (negative, digits), rest)
  match s with
  | c :: r =>
    if c = 'e' ∨ c = 'E' then
      match r with
      | '-' :: r => digits true r
      | '+' :: r => digits false r
      | r => digits false r
    else some (none, s)
  | [] => some (none, s)

def readNumeral (s : List Char) : Option (Numeral × List Char) := do
  let (negative, s) := match s with
    | '-' :: r => (true, r)
    | s => (false, s)
  let (whole, s) ← readWhole s
  let (fraction, s) ← readFraction s
  let (exponent, s) ← readExponent s
  return (⟨negative, whole, fraction, exponent⟩, s)

mutual

/-- Reads a value. At most two steps are made for each character. -/
def readValue : (fuel : Nat) → List Char → Option (JsonSyntax × List Char)
  | 0, _ => none
  | fuel + 1, s =>
    match skipSpace s with
    | 'n' :: 'u' :: 'l' :: 'l' :: r => some (null, r)
    | 't' :: 'r' :: 'u' :: 'e' :: r => some (bool true, r)
    | 'f' :: 'a' :: 'l' :: 's' :: 'e' :: r => some (bool false, r)
    | '"' :: r => do
      let (text, r) ← readString r
      return (string text, r)
    | '[' :: r =>
      match skipSpace r with
      | ']' :: r => some (array [], r)
      | r => do
        let (items, r) ← readItems fuel r
        return (array items, r)
    | '\x7b' :: r =>
      match skipSpace r with
      | '\x7d' :: r => some (object [], r)
      | r => do
        let (entries, r) ← readEntries fuel r
        return (object entries, r)
    | r => do
      let (n, r) ← readNumeral r
      return (number n, r)

def readItems : (fuel : Nat) → List Char → Option (List JsonSyntax × List Char)
  | 0, _ => none
  | fuel + 1, s => do
    let (v, r) ← readValue fuel s
    match skipSpace r with
    | ']' :: r => return ([v], r)
    | ',' :: r => do
      let (items, r) ← readItems fuel r
      return (v :: items, r)
    | _ => none

def readEntries : (fuel : Nat) → List Char → Option (List (Option String × JsonSyntax) × List Char)
  | 0, _ => none
  | fuel + 1, s =>
    match skipSpace s with
    | '"' :: r => do
      let (key, r) ← readString r
      match skipSpace r with
      | ':' :: r => do
        let (v, r) ← readValue fuel r
        match skipSpace r with
        | '\x7d' :: r => return ([(key, v)], r)
        | ',' :: r => do
          let (entries, r) ← readEntries fuel r
          return ((key, v) :: entries, r)
        | _ => none
      | _ => none
    | _ => none

end

/-- The whole text is one value, with nothing but space around it. -/
def parse? (s : String) : Option JsonSyntax := do
  let (v, r) ← readValue (2 * s.length + 2) s.toList
  if skipSpace r = [] then return v else none

mutual

/-- The value, if all of it stands for something and nothing is nested deeper than `depth`. -/
def value? (depth : Nat) : JsonSyntax → Option Json
  | null => some .null
  | bool b => some (.bool b)
  | number n => n.value?.map .number
  | string s => s.map .string
  | array items =>
    if depth = 0 then none else (itemValues? (depth - 1) items).map .array
  | object entries =>
    if depth = 0 then none else (entryValues? (depth - 1) entries).map .ofEntries

def itemValues? (depth : Nat) : List JsonSyntax → Option (List Json)
  | [] => some []
  | v :: r => do
    return (← v.value? depth) :: (← itemValues? depth r)

def entryValues? (depth : Nat) : List (Option String × JsonSyntax) → Option (List (String × Json))
  | [] => some []
  | (key, v) :: r => do
    return (← key, ← v.value? depth) :: (← entryValues? depth r)

end

def depthLimit : Nat := 127

end JsonSyntax

def Json.parse? (s : String) : Option Json := do
  (← JsonSyntax.parse? s).value? JsonSyntax.depthLimit

end TaggedGraph
