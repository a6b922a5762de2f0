namespace TaggedGraph.Text

def splitAt (sep : Char) : List Char → List (List Char)
  | [] => [[]]
  | c :: r =>
    if c = sep then [] :: splitAt sep r
    else match splitAt sep r with
      | [] => [[c]]
      | part :: parts => (c :: part) :: parts

def cutLast (sep : Char) : List Char → Option (List Char × List Char)
  | [] => none
  | c :: r =>
    match cutLast sep r with
    | some (a, b) => some (c :: a, b)
    | none => if c = sep then some ([], r) else none

variable {sep : Char} {s a b : List Char}

theorem splitAt_eq_splitOn (sep : Char) (s : List Char) : splitAt sep s = s.splitOn sep := by
  induction s with
  | nil => simp [splitAt]
  | cons c r ih =>
    rw [splitAt, ih, List.splitOn_cons_eq_if_modifyHead]
    cases h : r.splitOn sep with
    | nil => exact absurd h (List.splitOn_ne_nil sep r)
    | cons part parts => simp

theorem cutLast_eq_none : cutLast sep s = none ↔ sep ∉ s := by
  induction s with
  | nil => simp [cutLast]
  | cons c r ih =>
    rw [List.mem_cons, not_or, ← ih, cutLast]
    cases cutLast sep r <;> simp [eq_comm]

theorem cutLast_append (hb : sep ∉ b) : cutLast sep (a ++ sep :: b) = some (a, b) := by
  induction a with
  | nil => simp [cutLast, cutLast_eq_none.2 hb]
  | cons c a ih => simp [cutLast, ih]

theorem cutLast_eq_some : cutLast sep s = some (a, b) ↔ s = a ++ sep :: b ∧ sep ∉ b := by
  constructor
  · intro h
    induction s generalizing a with
    | nil => cases h
    | cons c r ih =>
      cases hr : cutLast sep r with
      | some p =>
        simp only [cutLast, hr, Option.some.injEq, Prod.mk.injEq] at h
        obtain ⟨rfl, rfl⟩ := h
        obtain ⟨rfl, hb⟩ := ih hr
        exact ⟨rfl, hb⟩
      | none =>
        simp only [cutLast, hr, Option.ite_none_right_eq_some, Option.some.injEq,
          Prod.mk.injEq] at h
        obtain ⟨rfl, rfl, rfl⟩ := h
        exact ⟨rfl, cutLast_eq_none.1 hr⟩
  · rintro ⟨rfl, hb⟩
    exact cutLast_append hb

end TaggedGraph.Text
