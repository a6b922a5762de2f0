namespace TaggedGraph.Ascending

variable {α : Type}

def Sorted (key : α → String) (l : List α) : Prop :=
  l.Pairwise fun a b => key a < key b

/-- Puts `x` at its place; an element with the key of `x` gives way to it. -/
def place (key : α → String) (x : α) : List α → List α
  | [] => [x]
  | y :: r =>
    if key x < key y then x :: y :: r
    else if key x = key y then x :: r
    else y :: place key x r

/-- Of elements with one key the last one stays. -/
def ofList (key : α → String) (l : List α) : List α :=
  l.foldl (fun acc x => place key x acc) []

theorem mem_place_imp (key : α → String) (x y : α) (l : List α) (h : y ∈ place key x l) :
    y = x ∨ y ∈ l := by
  induction l with
  | nil => simp_all [place]
  | cons z r ih => grind [place]

theorem sorted_place (key : α → String) (x : α) (l : List α) (h : Sorted key l) :
    Sorted key (place key x l) := by
  induction l with
  | nil => simp [place, Sorted]
  | cons y r ih =>
    obtain ⟨hy, hr⟩ := List.pairwise_cons.1 h
    simp only [place]
    split
    · rename_i hxy
      exact List.pairwise_cons.2 ⟨fun z hz => by
        rcases List.mem_cons.1 hz with rfl | hz
        · exact hxy
        · exact String.lt_trans hxy (hy z hz), h⟩
    · split
      · rename_i hxy
        exact List.pairwise_cons.2 ⟨fun z hz => hxy ▸ hy z hz, hr⟩
      · rename_i hlt hne
        refine List.pairwise_cons.2 ⟨fun z hz => ?_, ih hr⟩
        -- the element that moves on is greater than the one that it passed
        rcases mem_place_imp key x z r hz with rfl | hz
        · exact String.not_le.1 fun hle => hne (String.le_antisymm hle (String.not_lt.1 hlt))
        · exact hy z hz

theorem sorted_ofList (key : α → String) (l : List α) : Sorted key (ofList key l) := by
  suffices h : ∀ acc, Sorted key acc →
      Sorted key (l.foldl (fun acc x => place key x acc) acc) from h [] List.Pairwise.nil
  induction l with
  | nil => exact fun _ h => h
  | cons x r ih => exact fun acc h => ih _ (sorted_place key x acc h)

theorem mem_place_of_key_ne (key : α → String) (x y : α) (l : List α) (h : y ∈ l)
    (hkey : key x ≠ key y) : y ∈ place key x l := by
  induction l with
  | nil => cases h
  | cons z r ih => grind [place]

theorem mem_place_self (key : α → String) (x : α) (l : List α) : x ∈ place key x l := by
  induction l with
  | nil => simp [place]
  | cons z r ih => grind [place]

theorem mem_ofList {key : α → String} (hkey : ∀ x y, key x = key y → x = y) {l : List α} {y : α} :
    y ∈ ofList key l ↔ y ∈ l := by
  suffices h : ∀ acc, y ∈ l.foldl (fun acc x => place key x acc) acc ↔ y ∈ l ∨ y ∈ acc by
    simpa [ofList] using h []
  induction l with
  | nil => simp
  | cons x r ih =>
    intro acc
    rw [List.foldl_cons, ih, List.mem_cons]
    have hplace : y ∈ place key x acc ↔ y = x ∨ y ∈ acc := by
      refine ⟨mem_place_imp key x y acc, fun h => ?_⟩
      by_cases hyx : y = x
      · exact hyx ▸ mem_place_self key y acc
      · exact mem_place_of_key_ne key x y acc (h.resolve_left hyx) fun he => hyx (hkey _ _ he).symm
    rw [hplace, or_left_comm, or_assoc]

end TaggedGraph.Ascending
