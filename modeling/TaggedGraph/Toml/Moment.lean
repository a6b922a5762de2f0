import TaggedGraph.Text.Digits

namespace TaggedGraph.Toml

def digits? (n : Nat) (s : List Char) : Option (Nat × List Char) :=
  let d := s.take n
  if d.length = n ∧ d.all Text.isDigit then some (Text.digitsValue d, s.drop n) else none

def expect (c : Char) : List Char → Option (List Char)
  | d :: r => if c = d then some r else none
  | [] => none

def isLeapYear (y : Nat) : Bool :=
  y % 4 == 0 && (y % 100 != 0 || y % 400 == 0)

def daysOfMonth (y m : Nat) : Nat :=
  if m = 2 then (if isLeapYear y then 29 else 28)
  else if m = 4 ∨ m = 6 ∨ m = 9 ∨ m = 11 then 30 else 31

def readDate (s : List Char) : Option (List Char) := do
  let (y, s) ← digits? 4 s
  let (m, s) ← digits? 2 (← expect '-' s)
  let (d, s) ← digits? 2 (← expect '-' s)
  if 1 ≤ m ∧ m ≤ 12 ∧ 1 ≤ d ∧ d ≤ daysOfMonth y m then return s else none

/-- The seconds after the minutes, which may be missing, and the fraction after the seconds. -/
def readSeconds : List Char → Option (List Char)
  | ':' :: r => do
    let (seconds, r) ← digits? 2 r
    if seconds ≤ 60 then
      match r with
      | '.' :: r =>
        if (r.takeWhile Text.isDigit).isEmpty then none else return r.dropWhile Text.isDigit
      | r => return r
    else none
  | s => some s

def readTime (s : List Char) : Option (List Char) := do
  let (h, s) ← digits? 2 s
  let (m, s) ← digits? 2 (← expect ':' s)
  if h < 24 ∧ m < 60 then readSeconds s else none

def readOffset (s : List Char) : Option (List Char) :=
  let hours (r : List Char) : Option (List Char) := do
    let (h, r) ← digits? 2 r
    let (m, r) ← digits? 2 (← expect ':' r)
    if h < 24 ∧ m < 60 then return r else none
  match s with
  | 'Z' :: r => some r
  | 'z' :: r => some r
  | '+' :: r => hours r
  | '-' :: r => hours r
  | s => some s

/-- A date, a time, or both with or without an offset. -/
def isMoment (s : List Char) : Bool :=
  let rest := match readDate s with
    | some [] => some []
    | some (c :: r) =>
      if c = 'T' ∨ c = 't' ∨ c = ' ' then (readTime r).bind readOffset else none
    | none => readTime s
  rest == some []

end TaggedGraph.Toml
