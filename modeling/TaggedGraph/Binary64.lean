namespace TaggedGraph

/-- A double-precision number as a word. Two are the same iff their words are; by value they are
compared with `same`. -/
structure Binary64 where
  bits : UInt64
deriving DecidableEq

namespace Binary64

def signPlace : Nat := Nat.pow 2 63
def fractionPlace : Nat := Nat.pow 2 52
def exponentCount : Nat := 2048

def isNegative (x : Binary64) : Bool :=
  signPlace ≤ x.bits.toNat

def exponentField (x : Binary64) : Nat :=
  x.bits.toNat / fractionPlace % exponentCount

def fractionField (x : Binary64) : Nat :=
  x.bits.toNat % fractionPlace

def isFinite (x : Binary64) : Bool :=
  x.exponentField != exponentCount - 1

def isNaN (x : Binary64) : Bool :=
  !x.isFinite && x.fractionField != 0

def isZero (x : Binary64) : Bool :=
  x.bits.toNat % signPlace == 0

/-- A finite number is `significand * 2 ^ exponent` in magnitude. -/
def significand (x : Binary64) : Nat :=
  if x.exponentField = 0 then x.fractionField else fractionPlace + x.fractionField

def exponent (x : Binary64) : Int :=
  if x.exponentField = 0 then -1074 else (x.exponentField : Int) - 1075

/-- Equality of values: a NaN equals nothing, and the two zeros are equal. -/
def same (x y : Binary64) : Bool :=
  !x.isNaN && !y.isNaN && (x == y || x.isZero && y.isZero)

def ofMagnitude (negative : Bool) (magnitude : Nat) : Binary64 :=
  ⟨UInt64.ofNat (magnitude + if negative then signPlace else 0)⟩

def infinityMagnitude : Nat := (exponentCount - 1) * fractionPlace

def infinity (negative : Bool) : Binary64 :=
  ofMagnitude negative infinityMagnitude

def nan : Binary64 :=
  ofMagnitude false (infinityMagnitude + Nat.pow 2 51)

/-- The quotient rounded to the nearest integer, ties to the even one. -/
def roundQuotient (num den : Nat) : Nat :=
  let q := num / den
  let r := num % den
  if 2 * r > den || (2 * r == den && q % 2 == 1) then q + 1 else q

def scaleRatio (num den : Nat) (e : Int) : Nat × Nat :=
  (num * Nat.pow 2 (-e).toNat, den * Nat.pow 2 e.toNat)

/-- The exponent of the last place of the number nearest to a positive ratio. -/
def ratioExponent (num den : Nat) : Int :=
  let e : Int := (num.log2 : Int) - (den.log2 : Int) - 52
  let (n, d) := scaleRatio num den e
  max (if n < d * fractionPlace then e - 1 else e) (-1074)

/-- The number nearest to a ratio, ties to an even significand. -/
def ofRatio (negative : Bool) (num den : Nat) : Binary64 :=
  if num = 0 then ofMagnitude negative 0
  else
    let e := ratioExponent num den
    let (n, d) := scaleRatio num den e
    let magnitude := (e + 1074).toNat * fractionPlace + roundQuotient n d
    ofMagnitude negative (min magnitude infinityMagnitude)

def ofInt (i : Int) : Binary64 :=
  ofRatio (i < 0) i.natAbs 1

def ratio (x : Binary64) : Nat × Nat :=
  (x.significand * Nat.pow 2 x.exponent.toNat, Nat.pow 2 (-x.exponent).toNat)

def mul (x y : Binary64) : Binary64 :=
  ofRatio (x.isNegative != y.isNegative) (x.ratio.1 * y.ratio.1) (x.ratio.2 * y.ratio.2)

def div (x y : Binary64) : Binary64 :=
  ofRatio (x.isNegative != y.isNegative) (x.ratio.1 * y.ratio.2) (x.ratio.2 * y.ratio.1)

def neg (x : Binary64) : Binary64 :=
  ofMagnitude (!x.isNegative) (x.bits.toNat % signPlace)

/-- The number nearest to `digits * 10 ^ exponent`. -/
def ofDecimal (negative : Bool) (digits : Nat) (exponent : Int) : Binary64 :=
  if digits = 0 then ofMagnitude negative 0
  -- no such magnitude is finite, or different from zero, and the powers of ten stay small
  else if exponent > 400 then infinity negative
  else if exponent + (digits.log2 : Int) + 1 < -400 then ofMagnitude negative 0
  else ofRatio negative (digits * Nat.pow 10 exponent.toNat) (Nat.pow 10 (-exponent).toNat)

end Binary64

end TaggedGraph
