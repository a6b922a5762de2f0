namespace TaggedGraph.Text

def byteSize : List Char → Nat
  | [] => 0
  | c :: s => c.utf8Size + byteSize s

/-- The text from a byte offset on, none past its end or inside a character. -/
def tail? : List Char → Nat → Option (List Char)
  | s, 0 => some s
  | [], _ + 1 => none
  | c :: s, i + 1 => if c.utf8Size ≤ i + 1 then tail? s (i + 1 - c.utf8Size) else none

@[simp] theorem byteSize_nil : byteSize [] = 0 := rfl

@[simp] theorem byteSize_cons (c : Char) (s : List Char) :
    byteSize (c :: s) = c.utf8Size + byteSize s := rfl

@[simp] theorem byteSize_append (a b : List Char) :
    byteSize (a ++ b) = byteSize a + byteSize b := by
  induction a with
  | nil => simp
  | cons c a ih => simp [ih, Nat.add_assoc]

theorem byteSize_toList (s : String) : byteSize s.toList = s.utf8ByteSize := by
  suffices h : ∀ l, byteSize l = (String.ofList l).utf8ByteSize by simp [h]
  intro l
  induction l with
  | nil => simp
  | cons c l ih =>
    have hcons : String.ofList (c :: l) = String.singleton c ++ String.ofList l := by
      rw [String.singleton_eq_ofList, ← String.ofList_append, List.singleton_append]
    rw [byteSize_cons, ih, hcons, String.utf8ByteSize_append, String.utf8ByteSize_singleton]

/-- Only the empty text has no bytes. -/
@[simp] theorem byteSize_eq_zero {s : List Char} : byteSize s = 0 ↔ s = [] := by
  cases s with
  | nil => simp
  | cons c s => have := c.utf8Size_pos; simp; omega

/-- One text is split at an offset in one way. -/
theorem append_inj_of_byteSize {a a' b b' : List Char} (h : a ++ b = a' ++ b')
    (hs : byteSize a = byteSize a') : a = a' ∧ b = b' := by
  rcases List.append_eq_append_iff.mp h with ⟨d, rfl, rfl⟩ | ⟨d, rfl, rfl⟩
  all_goals
    simp only [byteSize_append] at hs
    obtain rfl : d = [] := byteSize_eq_zero.mp (by omega)
    simp

theorem tail?_eq_some {s t : List Char} {i : Nat} :
    tail? s i = some t ↔ ∃ a, s = a ++ t ∧ byteSize a = i := by
  induction s, i using tail?.induct with
  | case1 s =>
    simp only [tail?, Option.some.injEq]
    constructor
    · rintro rfl
      exact ⟨[], rfl, rfl⟩
    · rintro ⟨a, rfl, ha⟩
      simp [byteSize_eq_zero.mp ha]
  | case2 i => simp [tail?, byteSize]
  | case3 c s i hle ih =>
    simp only [tail?, if_pos hle, ih]
    clear ih
    constructor
    · rintro ⟨a, rfl, ha⟩
      exact ⟨c :: a, rfl, by simp only [byteSize_cons]; omega⟩
    · rintro ⟨_ | ⟨d, a⟩, hs, ha⟩
      · simp at ha
      · obtain ⟨rfl, rfl⟩ := List.cons.inj hs
        exact ⟨a, rfl, by simp only [byteSize_cons] at ha; omega⟩
  | case4 c s i hle =>
    simp only [tail?, if_neg hle, reduceCtorEq, false_iff]
    rintro ⟨_ | ⟨d, a⟩, hs, ha⟩
    · simp at ha
    · obtain ⟨rfl, rfl⟩ := List.cons.inj hs
      simp only [byteSize_cons] at ha
      omega

end TaggedGraph.Text
