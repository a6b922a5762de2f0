import TaggedGraph.Binary64
import TaggedGraph.Text.Split
import TaggedGraph.Toml.Moment
import TaggedGraph.Toml.Quoted
import TaggedGraph.Toml.Value

namespace TaggedGraph.Toml

def beginsWith (isDigit : Char → Bool) (part : List Char) : Bool :=
  part.head?.any isDigit

/-- The part ends with a digit, or is one character long. -/
def endsWith (isDigit : Char → Bool) (part : List Char) : Bool :=
  part.length == 1 || part.getLast?.any isDigit

/-- Takes the underscores out of a number. They stand one by one between digits, or after its
sign. -/
def ungroup? (isDigit : Char → Bool) (s : List Char) : Option (List Char) :=
  match Text.splitAt '_' s with
  | first :: rest =>
    if rest = [] ∨
        (rest.all (beginsWith isDigit) ∧ (first :: rest.dropLast).all (endsWith isDigit)) then
      some (first :: rest).flatten
    else none
  | [] => none

def readSign : List Char → Bool × List Char
  | '-' :: r => (true, r)
  | '+' :: r => (false, r)
  | s => (false, s)

def radixValue (radix : Nat) (digits : List Char) : Nat :=
  digits.foldl (fun n c => radix * n + Text.hexDigitValue c) 0

/-- What an integer without underscores denotes. It needs 128 bits at most. -/
def integerValue (radix : Nat) (isDigit : Char → Bool) (s : List Char) : Value :=
  let (negative, digits) := readSign s
  let n := radixValue radix digits
  if digits ≠ [] ∧ digits.all isDigit ∧
      ((negative ∧ n ≤ Nat.pow 2 127) ∨ (!negative ∧ n < Nat.pow 2 128)) then
    .number
  else .unreadable

def isOctalDigit (c : Char) : Bool := '0' ≤ c && c ≤ '7'
def isBinaryDigit (c : Char) : Bool := c == '0' || c == '1'

/-- The digits after a mark such as `0x`; there may be none. -/
def radixInteger? (radix : Nat) (isDigit : Char → Bool) (s : List Char) : Option Value :=
  if s.all fun c => isDigit c || c == '_' then
    (ungroup? isDigit s).map (integerValue radix isDigit)
  else none

def cutFirst (isMark : Char → Bool) (s : List Char) : List Char × Option (List Char) :=
  match s.dropWhile (!isMark ·) with
  | [] => (s, none)
  | _ :: r => (s.takeWhile (!isMark ·), some r)

def isExponentMark (c : Char) : Bool := c == 'e' || c == 'E'

/-- What a float without underscores denotes. -/
def floatValue (s : List Char) : Value :=
  let (mantissa, exponent) := cutFirst isExponentMark (readSign s).2
  let (whole, fraction) := cutFirst (· == '.') mantissa
  let (negative, exponent) := readSign (exponent.getD [])
  let fraction := fraction.getD []
  let scale : Int := Text.digitsValue exponent
  let scale := (if negative then -scale else scale) - fraction.length
  let x := Binary64.ofDecimal false (Text.digitsValue (whole ++ fraction)) scale
  if x.isFinite then .number else .unreadable

/-- Skips digits and underscores with a digit among them. -/
def skipDigits (zeros : Bool) (s : List Char) : Option (List Char) :=
  let digits := s.takeWhile fun c => Text.isDigit c || c == '_'
  let count := digits.countP Text.isDigit
  if count = 0 ∨ (1 < count ∧ s.head? = some '0' ∧ !zeros) then none
  else some (s.drop digits.length)

def skipFraction : List Char → Option (List Char)
  | '.' :: r => skipDigits true r
  | s => some s

def skipExponent : List Char → Option (List Char)
  | c :: r => if isExponentMark c then skipDigits true (readSign r).2 else some (c :: r)
  | [] => some []

/-- The form of a float without its sign: digits, then a fraction, then an exponent. Only the first
digits must not have a zero in front. -/
def isFloat (s : List Char) : Bool :=
  (do skipExponent (← skipFraction (← skipDigits false s))) == some []

/-- A date, a time or a number. The text is `s` with its sign. -/
def decimal? (text s : List Char) : Option Value :=
  let rest := s.dropWhile Text.isDigit
  let zero := s.head? == some '0'
  match rest with
  | [] =>
    if zero ∧ s ≠ ['0'] then none else some (integerValue 10 Text.isDigit text)
  | c :: _ =>
    if c = '-' ∨ c = ':' then if isMoment text then some .moment else none
    else if rest.contains ' ' then none
    else if rest.any fun c => c == '.' || isExponentMark c then
      if isFloat s then (ungroup? Text.isDigit text).map floatValue else none
    else if c = '_' ∧ !zero then
      (ungroup? Text.isHexDigit text).map (integerValue 10 Text.isDigit)
    else none

def signed? (text s : List Char) : Option Value :=
  if s = ['i', 'n', 'f'] ∨ s = ['n', 'a', 'n'] then some .number
  else match s with
    | c :: _ => if Text.isDigit c ∨ c = '_' then decimal? text s else none
    | [] => none

def scalar? (s : List Char) : Option Value :=
  match s with
  | ['t', 'r', 'u', 'e'] => some (.bool true)
  | ['f', 'a', 'l', 's', 'e'] => some (.bool false)
  | '0' :: 'x' :: r => radixInteger? 16 Text.isHexDigit r
  | '0' :: 'o' :: r => radixInteger? 8 isOctalDigit r
  | '0' :: 'b' :: r => radixInteger? 2 isBinaryDigit r
  | '+' :: r => signed? s r
  | '-' :: r => signed? s r
  | s => signed? s s

def isBare (c : Char) : Bool :=
  !(c == '=' || c == ',' || c == '[' || c == ']' || c == '\x7b' || c == '\x7d' || c == '#' ||
    isSpace c || c == '\r' || c == '\n')

/-- Cuts off a value without quotes. Space belongs to it if more of it follows. -/
def readBare : (fuel : Nat) → List Char → List Char × List Char
  | 0, s => ([], s)
  | fuel + 1, s =>
    let word := s.takeWhile isBare
    let rest := s.dropWhile isBare
    let space := rest.takeWhile isSpace
    match rest.dropWhile isSpace with
    | c :: r =>
      if space ≠ [] ∧ isBare c ∧ c ≠ '.' ∧ c ≠ '"' ∧ c ≠ '\'' then
        let (more, r) := readBare fuel (c :: r)
        (word ++ space ++ more, r)
      else (word, rest)
    | [] => (word, rest)

def readScalar (s : List Char) : Option (Value × List Char) :=
  let (text, r) := readBare (s.length + 1) s
  (scalar? text).map (·, r)

end TaggedGraph.Toml
