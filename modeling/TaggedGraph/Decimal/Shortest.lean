import TaggedGraph.Binary64

namespace TaggedGraph.Decimal

/-- The number `0.d₁d₂… * 10 ^ point`, where `d₁d₂…` are the digits of `digits`. -/
structure Digits where
  digits : Nat
  point : Int
deriving DecidableEq

/-- The numbers between `low / unit` and `high / unit` read back as `value / unit`, the ends
themselves only if `closed`. -/
structure Interval where
  low : Nat
  value : Nat
  high : Nat
  unit : Nat
  closed : Bool

namespace Interval

/-- The interval of a positive finite number. The lower half is narrower where the exponent
changes. -/
def ofBinary64 (x : Binary64) : Interval :=
  let m := x.significand
  let scale := Nat.pow 2 (x.exponent - 2).toNat
  let narrow := x.fractionField = 0 ∧ x.exponentField > 1
  { low := (4 * m - if narrow then 1 else 2) * scale
    value := 4 * m * scale
    high := (4 * m + 2) * scale
    unit := Nat.pow 2 (2 - x.exponent).toNat
    closed := m % 2 == 0 }

/-- The point `d * 10 ^ e` reads back. -/
def contains (i : Interval) (d : Nat) (e : Int) : Bool :=
  let p := d * Nat.pow 10 e.toNat * i.unit
  let s := Nat.pow 10 (-e).toNat
  (i.low * s < p || (i.closed && i.low * s == p)) &&
    (p < i.high * s || (i.closed && p == i.high * s))

/-- The value in units of `10 ^ e`, as a ratio. -/
def grid (i : Interval) (e : Int) : Nat × Nat :=
  (i.value * Nat.pow 10 (-e).toNat, i.unit * Nat.pow 10 e.toNat)

/-- The least `k ≤ start` for which the value is below `10 ^ k`, or `start - fuel`. -/
def leadingPoint (i : Interval) : (fuel : Nat) → (start : Int) → Int
  | 0, k => k
  | fuel + 1, k =>
    let (n, d) := i.grid (k - 1)
    if n < d then leadingPoint i fuel (k - 1) else k

/-- A point that the value is below, at most three above the least one. -/
def pointBound (i : Interval) : Int :=
  -- a little more than the decimal logarithm of two
  ((i.value.log2 : Int) - (i.unit.log2 : Int) + 1) * 30103 / 100000 + 2

/-- The point of the grid `10 ^ e` that reads back and is nearest to the value; of two the upper. -/
def hit? (i : Interval) (e : Int) : Option Nat :=
  let (n, d) := i.grid e
  let below := n / d
  let r := n % d
  match i.contains below e && below != 0, i.contains (below + 1) e with
  | true, true => some (if 2 * r < d then below else below + 1)
  | true, false => some below
  | false, true => some (below + 1)
  | false, false => none

/-- The first hit on grids of `n`, `n + 1`, … digits. -/
def firstHit (i : Interval) (point : Int) : (fuel : Nat) → (n : Nat) → Option (Nat × Int)
  | 0, _ => none
  | fuel + 1, n =>
    match i.hit? (point - n) with
    | some d => some (d, point - n)
    | none => firstHit i point fuel (n + 1)

end Interval

def digitCount (n : Nat) : Nat :=
  (Nat.toDigits 10 n).length

def stripZeros : (fuel : Nat) → Nat → Nat
  | 0, n => n
  | fuel + 1, n => if n ≠ 0 ∧ n % 10 = 0 then stripZeros fuel (n / 10) else n

def Digits.ofScaled (d : Nat) (e : Int) : Digits :=
  ⟨stripZeros (digitCount d) d, e + digitCount d⟩

/-- The shortest digits of the magnitude of a finite number. -/
def shortest (x : Binary64) : Digits :=
  if x.isZero then ⟨0, 1⟩
  else
    let i := Interval.ofBinary64 x
    let point := i.leadingPoint 4 i.pointBound
    match i.firstHit point 17 1 with
    | some (d, e) => Digits.ofScaled d e
    | none => ⟨0, 1⟩

end TaggedGraph.Decimal
