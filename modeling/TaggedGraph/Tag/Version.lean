import TaggedGraph.Text.Digits
import TaggedGraph.Text.Split

namespace TaggedGraph

structure Version where
  major : UInt64
  minor : UInt64
  patch : UInt64
deriving DecidableEq

namespace Version

/-- A number is written in decimal digits alone and fits 64 bits. -/
def parseNumber (s : List Char) : Option UInt64 :=
  if s ≠ [] ∧ s.all Text.isDigit ∧ Text.digitsValue s < UInt64.size then
    some (UInt64.ofNat (Text.digitsValue s))
  else none

def parse (s : String) : Option Version :=
  match Text.splitAt '.' s.toList with
  | [a, b, c] => do
    return ⟨← parseNumber a, ← parseNumber b, ← parseNumber c⟩
  | _ => none

def text (v : Version) : String :=
  Nat.repr v.major.toNat ++ "." ++ Nat.repr v.minor.toNat ++ "." ++ Nat.repr v.patch.toNat

def le (v w : Version) : Bool :=
  v.major < w.major ||
    v.major == w.major && (v.minor < w.minor || v.minor == w.minor && v.patch ≤ w.patch)

end Version

end TaggedGraph
