import Mathlib.Data.List.Infix
import TaggedGraph.Proofs.Tag.Matching

namespace TaggedGraph.TagPattern

/-- No wildcard is longer than two stars. -/
def WildcardsShort (s : List Char) : Prop :=
  ¬['*', '*', '*'] <:+: s

/-- The text before the first star has a colon, unless one was met before. -/
def WildcardsNamed (named : Bool) (s : List Char) : Prop :=
  ∀ before after, s = before ++ '*' :: after → '*' ∉ before → named = true ∨ ':' ∈ before

/-- The grammar of patterns. -/
structure IsPattern (s : List Char) : Prop where
  nonempty : s ≠ []
  solid : ∀ c ∈ s, Text.isBlank c = false ∧ Text.isControl c = false
  short : WildcardsShort s
  named : ∀ before after, s = before ++ '*' :: after → '*' ∉ before → ':' ∈ before

/-- Literals and wildcards take turns, and no literal is empty. -/
structure Alternating (ps : List Piece) : Prop where
  turns : ps.IsChain fun p q => p.isLiteral ≠ q.isLiteral
  nonempty : .literal [] ∉ ps

section Wildcards

variable {named : Bool} {c : Char} {r : List Char}

theorem wildcardsNamed_nil : WildcardsNamed named [] := by
  intro before after h
  exact absurd h.symm (by simp)

theorem wildcardsNamed_true (s : List Char) : WildcardsNamed true s :=
  fun _ _ _ _ => .inl rfl

theorem wildcardsNamed_star : WildcardsNamed named ('*' :: r) ↔ named = true := by
  constructor
  · intro h
    simpa using h [] r rfl (by simp)
  · rintro rfl
    exact wildcardsNamed_true _

theorem wildcardsNamed_cons (hc : c ≠ '*') :
    WildcardsNamed named (c :: r) ↔ WildcardsNamed (named || c == ':') r := by
  have hcolon (before : List Char) :
      (named || c == ':') = true ∨ ':' ∈ before ↔ named = true ∨ ':' ∈ c :: before := by
    rw [Bool.or_eq_true, beq_iff_eq, or_assoc, List.mem_cons, @eq_comm _ c]
  constructor
  · intro h before after hr hbefore
    rw [hcolon]
    exact h (c :: before) after (by rw [hr, List.cons_append]) (by simp [hbefore, hc.symm])
  · intro h before after hr hbefore
    cases before with
    | nil => exact absurd (List.cons.inj hr).1 hc
    | cons d before =>
      obtain ⟨rfl, rfl⟩ := List.cons.inj hr
      rw [← hcolon]
      exact h before after rfl fun hmem => hbefore (List.mem_cons_of_mem _ hmem)

theorem not_wildcardsShort : ¬WildcardsShort ('*' :: '*' :: '*' :: r) :=
  not_not.mpr (List.prefix_append ['*', '*', '*'] r).isInfix

theorem wildcardsShort_cons (hc : c ≠ '*') : WildcardsShort (c :: r) ↔ WildcardsShort r := by
  simp [WildcardsShort, List.infix_cons_iff, List.cons_prefix_cons, hc.symm]

theorem wildcardsShort_star (hr : ∀ t, r ≠ '*' :: t) :
    WildcardsShort ('*' :: r) ↔ WildcardsShort r := by
  have hnot : ¬['*', '*'] <+: r := by
    rintro ⟨t, rfl⟩
    exact hr _ rfl
  simp [WildcardsShort, List.infix_cons_iff, List.cons_prefix_cons, hnot]

theorem wildcardsShort_stars (hr : ∀ t, r ≠ '*' :: t) :
    WildcardsShort ('*' :: '*' :: r) ↔ WildcardsShort r := by
  have hnot : ¬['*'] <+: r := by
    rintro ⟨t, rfl⟩
    exact hr _ rfl
  rw [← wildcardsShort_star hr]
  simp [WildcardsShort, List.infix_cons_iff, List.cons_prefix_cons, hnot]

end Wildcards

theorem exists_map_ok {ε α β : Type} {x : Except ε α} {f : α → β} :
    (∃ b, f <$> x = .ok b) ↔ ∃ a, x = .ok a := by
  cases x with
  | error e => simp [Functor.map, Except.map]
  | ok a => simp [Functor.map, Except.map]

/-- A text is read iff its wildcards are short enough and come after a colon. -/
theorem exists_readPieces_iff {named : Bool} {s : List Char} :
    (∃ ps, readPieces named s = .ok ps) ↔ WildcardsShort s ∧ WildcardsNamed named s := by
  fun_induction readPieces named s with
  | case1 => simp [WildcardsShort, wildcardsNamed_nil]
  | case2 named r => simp [not_wildcardsShort]
  | case3 r hr ih =>
    rw [exists_map_ok, ih, wildcardsShort_stars hr]
    exact and_congr_right fun _ => iff_of_true (wildcardsNamed_true r) (wildcardsNamed_true _)
  | case4 named r hr hnamed | case6 named r _ hr hnamed => simp [wildcardsNamed_star, hnamed]
  | case5 r _ hr ih =>
    rw [exists_map_ok, ih, wildcardsShort_star hr]
    exact and_congr_right fun _ => iff_of_true (wildcardsNamed_true r) (wildcardsNamed_true _)
  | case7 named c r _ _ hc ih =>
    rw [exists_map_ok, ih, wildcardsShort_cons hc, wildcardsNamed_cons hc]

namespace Alternating

variable {ps : List Piece}

theorem nil : Alternating [] :=
  ⟨.nil, by simp⟩

theorem cons_wildcard {p : Piece} (h : Alternating ps) (hp : p.isLiteral = false)
    (hps : ∀ q ∈ ps.head?, q.isLiteral = true) : Alternating (p :: ps) where
  turns := by
    refine List.isChain_cons.2 ⟨fun q hq => ?_, h.turns⟩
    rw [hp, hps q hq]
    exact Bool.false_ne_true
  nonempty := by
    rw [List.mem_cons, not_or]
    refine ⟨?_, h.nonempty⟩
    rintro rfl
    cases hp

theorem prepend (h : Alternating ps) (c : Char) : Alternating (Piece.prepend c ps) := by
  obtain ⟨hturns, hnonempty⟩ := h
  rcases ps with _ | ⟨text | _ | _, ps⟩
  · exact ⟨.singleton _, by simp [Piece.prepend]⟩
  · -- the literal takes up the character
    rw [List.mem_cons, not_or] at hnonempty
    exact ⟨List.isChain_cons.2 (List.isChain_cons.1 hturns), by
      simpa [Piece.prepend] using hnonempty.2⟩
  all_goals
    refine ⟨List.isChain_cons.2 ⟨fun q hq => ?_, hturns⟩, by simpa [Piece.prepend] using hnonempty⟩
    obtain rfl := Option.mem_some_iff.1 hq
    exact Bool.noConfusion

end Alternating

theorem isLiteral_head {named : Bool} {s : List Char} {ps : List Piece}
    (h : readPieces named s = .ok ps) (hs : ∀ t, s ≠ '*' :: t) :
    ∀ q ∈ ps.head?, q.isLiteral = true := by
  intro q hq
  obtain ⟨qs, rfl⟩ := List.head?_eq_some_iff.1 hq
  have hsource := flatMap_readPieces h
  cases q with
  | literal => rfl
  | segment => exact absurd hsource.symm (hs _)
  | any => exact absurd hsource.symm (hs _)

theorem alternating_readPieces {named : Bool} {s : List Char} {ps : List Piece}
    (h : readPieces named s = .ok ps) : Alternating ps := by
  fun_induction readPieces named s generalizing ps with
  | case1 =>
    cases h
    exact .nil
  | case3 r hr ih | case5 r _ hr ih =>
    obtain ⟨qs, hqs, rfl⟩ := eq_of_map_ok h
    exact (ih hqs).cons_wildcard rfl (isLiteral_head hqs hr)
  | case7 _ c _ _ _ _ ih =>
    obtain ⟨qs, hqs, rfl⟩ := eq_of_map_ok h
    exact (ih hqs).prepend c
  | case2 | case4 | case6 => cases h

theorem all_isLiteral_prepend (c : Char) (ps : List Piece) :
    (Piece.prepend c ps).all Piece.isLiteral = ps.all Piece.isLiteral := by
  rcases ps with _ | ⟨_ | _ | _, ps⟩ <;> rfl

theorem all_isLiteral_readPieces {named : Bool} {s : List Char} {ps : List Piece}
    (h : readPieces named s = .ok ps) : ps.all Piece.isLiteral = true ↔ '*' ∉ s := by
  fun_induction readPieces named s generalizing ps with
  | case1 =>
    cases h
    simp
  | case3 | case5 =>
    obtain ⟨qs, -, rfl⟩ := eq_of_map_ok h
    simp [Piece.isLiteral]
  | case7 _ c r _ _ hc ih =>
    obtain ⟨qs, hqs, rfl⟩ := eq_of_map_ok h
    rw [all_isLiteral_prepend, ih hqs, List.mem_cons, not_or]
    exact (and_iff_right (Ne.symm hc)).symm
  | case2 | case4 | case6 => cases h

theorem exists_parse_iff (source : String) : (∃ p, parse source = .ok p) ↔
    source ≠ "" ∧ Text.allSolid source = true ∧
      ∃ ps, readPieces false source.toList = .ok ps := by
  unfold parse
  by_cases hempty : source = ""
  · simp [hempty]
  · cases hsolid : Text.allSolid source with
    | false => simp [hempty]
    | true => cases readPieces false source.toList <;> simp [hempty]

/-- A text is a pattern iff it follows the grammar. The pieces of a pattern take turns and spell
it, and it is literal iff it has no star. -/
theorem parse_iff_isPattern (source : String) :
    ((∃ p, parse source = .ok p) ↔ IsPattern source.toList) ∧
    ∀ p, parse source = .ok p → p.source = source ∧ Alternating p.pieces ∧
      p.pieces.flatMap Piece.source = source.toList ∧
      (p.isLiteral = true ↔ '*' ∉ source.toList) := by
  constructor
  · rw [exists_parse_iff, exists_readPieces_iff, Text.allSolid_iff]
    constructor
    · rintro ⟨hempty, hsolid, hshort, hnamed⟩
      refine ⟨by simpa using hempty, fun c hc => by simpa [Text.isSolid] using hsolid c hc, hshort,
        fun before after hs hbefore => ?_⟩
      simpa using hnamed before after hs hbefore
    · rintro ⟨hempty, hsolid, hshort, hnamed⟩
      refine ⟨by simpa using hempty, fun c hc => by simpa [Text.isSolid] using hsolid c hc, hshort,
        fun before after hs hbefore => .inr (hnamed before after hs hbefore)⟩
  · intro p hp
    obtain ⟨hsource, hpieces⟩ := parse_ok hp
    exact ⟨hsource, alternating_readPieces hpieces, flatMap_readPieces hpieces,
      all_isLiteral_readPieces hpieces⟩

end TaggedGraph.TagPattern
