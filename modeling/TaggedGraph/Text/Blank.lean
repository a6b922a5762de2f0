namespace TaggedGraph.Text

/-- The property White_Space. -/
def isBlank (c : Char) : Bool :=
  (0x9 ≤ c.toNat && c.toNat ≤ 0xd) || c.toNat == 0x20 || c.toNat == 0x85 || c.toNat == 0xa0 ||
  c.toNat == 0x1680 || (0x2000 ≤ c.toNat && c.toNat ≤ 0x200a) ||
  (0x2028 ≤ c.toNat && c.toNat ≤ 0x2029) || c.toNat == 0x202f || c.toNat == 0x205f ||
  c.toNat == 0x3000

/-- The general category Cc. -/
def isControl (c : Char) : Bool :=
  c.toNat ≤ 0x1f || (0x7f ≤ c.toNat && c.toNat ≤ 0x9f)

/-- A text of solid characters can be an identifier. -/
def isSolid (c : Char) : Bool :=
  !isBlank c && !isControl c

def allSolid (s : String) : Bool :=
  s.toList.all isSolid

theorem allSolid_iff (s : String) : allSolid s = true ↔ ∀ c ∈ s.toList, isSolid c = true := by
  simp [allSolid]

end TaggedGraph.Text
