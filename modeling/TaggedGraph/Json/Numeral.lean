import TaggedGraph.Json.Value
import TaggedGraph.Text.Digits

namespace TaggedGraph

/-- The parts of a written number. The exponent has a sign and digits. -/
structure Numeral where
  negative : Bool
  whole : List Char
  fraction : List Char
  exponent : Option (Bool × List Char)
deriving DecidableEq

namespace Numeral

def wordLimit : Nat := Nat.pow 2 64

/-- Appends digits to a number as long as it fits 64 bits. The rest are the digits left over. -/
def extend : Nat → List Char → Nat × List Char
  | n, [] => (n, [])
  | n, c :: r =>
    if 10 * n + Text.digitValue c < wordLimit then extend (10 * n + Text.digitValue c) r
    else (n, c :: r)

def powerOfTen (e : Nat) : Binary64 :=
  .ofDecimal false 1 e

def scaleDown : (fuel : Nat) → Binary64 → Nat → Binary64
  | 0, x, _ => x
  | fuel + 1, x, e =>
    if e ≤ 308 then x.div (powerOfTen e)
    else if x.isZero then x
    else scaleDown fuel (x.div (powerOfTen 308)) (e - 308)

/-- The number `digits * 10 ^ e`, unless it is out of range. -/
def scale? (digits : Nat) (e : Int) : Option Binary64 :=
  let x := Binary64.ofInt digits
  if e < 0 then some (scaleDown 4 x e.natAbs)
  else if e ≤ 308 then
    let y := x.mul (powerOfTen e.toNat)
    if y.isFinite then some y else none
  else if x.isZero then some x
  else none

/-- Digits beyond 64 bits are dropped, and the rest is scaled by a rounded power of ten: a long
numeral may miss the number nearest to it. -/
def float? (digits : Nat) (e : Int) : Option (Bool × List Char) → Option Binary64
  | none => scale? digits e
  | some (negative, s) =>
    if Text.digitsValue s < Nat.pow 2 31 then
      scale? digits (if negative then e - Text.digitsValue s else e + Text.digitsValue s)
    else if digits ≠ 0 ∧ !negative then none
    else some (.ofMagnitude false 0)

def signed (negative : Bool) (x : Binary64) : Binary64 :=
  if negative then x.neg else x

def value? (n : Numeral) : Option JsonNumber :=
  let (digits, dropped) := extend 0 n.whole
  if n.fraction = [] ∧ n.exponent = none ∧ dropped = [] then
    if !n.negative then some (.int digits)
    else if digits = 0 ∨ digits > Nat.pow 2 63 then some (.float (Binary64.ofInt digits).neg)
    else some (.int (-digits))
  else
    let (digits, rest) := extend digits n.fraction
    let e := (dropped.length : Int) - (n.fraction.length - rest.length : Nat)
    (float? digits e n.exponent).map fun x => .float (signed n.negative x)

end Numeral

end TaggedGraph
