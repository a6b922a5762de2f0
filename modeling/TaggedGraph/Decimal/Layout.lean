import TaggedGraph.Decimal.Shortest

namespace TaggedGraph.Decimal

/-- The decisions of a written form: how many digits follow the point at least, and outside which
points an exponent is written. -/
structure Layout where
  fractionDigits : Nat
  positional : Option (Int × Int)

def Layout.plain : Layout := ⟨0, none⟩

/-- A fraction is always written, and an exponent below `10 ^ -4` and from `10 ^ 16` on. -/
def Layout.marked : Layout := ⟨1, some (-3, 16)⟩

def zeros (n : Nat) : List Char :=
  List.replicate n '0'

def padRight (n : Nat) (s : List Char) : List Char :=
  s ++ zeros (n - s.length)

def withFraction (whole fraction : List Char) : List Char :=
  if fraction.isEmpty then whole else whole ++ '.' :: fraction

def positionalText (l : Layout) (d : Digits) : List Char :=
  let s := if d.digits = 0 then [] else Nat.toDigits 10 d.digits
  if d.point ≤ 0 then
    withFraction ['0'] (padRight l.fractionDigits (zeros (-d.point).toNat ++ s))
  else
    let s := padRight d.point.toNat s
    withFraction (s.take d.point.toNat) (padRight l.fractionDigits (s.drop d.point.toNat))

def exponentText (d : Digits) : List Char :=
  let s := Nat.toDigits 10 d.digits
  withFraction (s.take 1) (s.drop 1) ++ 'e' :: (Int.repr (d.point - 1)).toList

def magnitudeText (l : Layout) (d : Digits) : List Char :=
  match l.positional with
  | none => positionalText l d
  | some (low, high) =>
    if d.digits = 0 ∨ (low ≤ d.point ∧ d.point ≤ high) then positionalText l d else exponentText d

def write (l : Layout) (x : Binary64) : String :=
  if x.isNaN then "NaN"
  else
    let sign := if x.isNegative then "-" else ""
    if x.isFinite then sign ++ String.ofList (magnitudeText l (shortest x)) else sign ++ "inf"

end TaggedGraph.Decimal
