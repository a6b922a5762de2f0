import Mathlib.Tactic
import TaggedGraph.Proofs.Outcome
import TaggedGraph.Tag.Pattern

namespace TaggedGraph.TagPattern

open Text

/-- The marks are on the ends of the beginnings of `s` with the property, and nowhere else. -/
structure Ends (s : List Char) (P : List Char → Prop) (m : Marks) : Prop where
  size : m.size = byteSize s + 1
  marked : ∀ i, m[i]? = some true ↔ ∃ a b, s = a ++ b ∧ byteSize a = i ∧ P a

namespace Ends

variable {s : List Char} {P Q : List Char → Prop} {m : Marks} {a b : List Char}

theorem blank (s : List Char) : Ends s (fun _ => False) (Marks.blank s) where
  size := by simp [Marks.blank]
  marked i := by simp [Marks.blank, Array.getElem?_replicate]

theorem congr (h : Ends s P m) (hPQ : ∀ a b, s = a ++ b → (P a ↔ Q a)) : Ends s Q m where
  size := h.size
  marked i := by
    rw [h.marked]
    constructor
    · rintro ⟨a, b, hs, hi, ha⟩
      exact ⟨a, b, hs, hi, (hPQ a b hs).mp ha⟩
    · rintro ⟨a, b, hs, hi, ha⟩
      exact ⟨a, b, hs, hi, (hPQ a b hs).mpr ha⟩

theorem lt_size (h : Ends s P m) (hs : s = a ++ b) : byteSize a < m.size := by
  rw [h.size, hs, byteSize_append]
  omega

theorem marked_iff (h : Ends s P m) (hs : s = a ++ b) : m[byteSize a]? = some true ↔ P a := by
  rw [h.marked]
  constructor
  · rintro ⟨a', b', hs', hi, ha'⟩
    rwa [(append_inj_of_byteSize (hs.symm.trans hs') hi.symm).1]
  · intro ha
    exact ⟨a, b, hs, rfl, ha⟩

theorem read (h : Ends s P m) (hs : s = a ++ b) :
    ∃ v, m[byteSize a]? = some v ∧ (v = true ↔ P a) := by
  have hlt := h.lt_size hs
  have hv : m[byteSize a]? = some m[byteSize a] := by simp
  refine ⟨_, hv, ?_⟩
  rw [← h.marked_iff hs, hv, Option.some.injEq]

theorem put (h : Ends s P m) (hs : s = a ++ b) (v : Bool) :
    ∃ m', m.put? (byteSize a) v = some m' ∧
      Ends s (fun x => if x = a then v = true else P x) m' := by
  refine ⟨m.set (byteSize a) v (h.lt_size hs), by simp [Marks.put?, h.lt_size hs], ?_, ?_⟩
  · simpa using h.size
  intro i
  rw [Array.getElem?_set]
  by_cases hi : byteSize a = i
  · rw [if_pos hi, Option.some.injEq]
    constructor
    · intro hv
      exact ⟨a, b, hs, hi, by simpa using hv⟩
    · rintro ⟨x, y, hxy, hx, hP⟩
      rwa [(append_inj_of_byteSize (hs.symm.trans hxy) (hi.trans hx.symm)).1.symm, if_pos rfl] at hP
  · rw [if_neg hi, h.marked]
    refine exists₂_congr fun x y => and_congr_right fun _ => and_congr_right fun hx => ?_
    rw [if_neg (by rintro rfl; exact hi hx)]

theorem contains_iff (h : Ends s P m) :
    m.toList.contains true = true ↔ ∃ a b, s = a ++ b ∧ P a := by
  rw [List.contains_iff_mem, List.mem_iff_getElem?]
  simp only [Array.getElem?_toList, h.marked]
  constructor
  · rintro ⟨i, a, b, hs, -, ha⟩
    exact ⟨a, b, hs, ha⟩
  · rintro ⟨a, b, hs, ha⟩
    exact ⟨_, a, b, hs, rfl, ha⟩

theorem mem_offsets (h : Ends s P m) {i : Nat} :
    i ∈ m.offsets ↔ ∃ a b, s = a ++ b ∧ byteSize a = i ∧ P a := by
  rw [← h.marked, Marks.offsets, List.mem_filter, List.mem_range, beq_iff_eq, and_iff_right_iff_imp]
  intro hi
  exact (Array.getElem?_eq_some_iff.mp hi).1

end Ends

/-- The texts that continue one with the property by a part that the piece stands for. -/
def After (p : Piece) (P : List Char → Prop) (x : List Char) : Prop :=
  ∃ a part, x = a ++ part ∧ P a ∧ p.Covers part

section Steps

variable {s : List Char} {P : List Char → Prop} {m : Marks}

theorem literalEnd_ends (text : List Char) {a b : List Char} (h : Ends s P m) (hs : s = a ++ b) :
    ∃ next, literalEnd text s m (byteSize a) = some next ∧
      Ends s (fun x => P x ∨ x = a ++ text) next := by
  rw [literalEnd, tail?_eq_some.mpr ⟨a, hs, rfl⟩, Option.any_some]
  by_cases hb : text.isPrefixOf b = true
  · obtain ⟨c, rfl⟩ := List.isPrefixOf_iff_prefix.mp hb
    obtain ⟨next, hput, hends⟩ := h.put (hs.trans (List.append_assoc a text c).symm) true
    refine ⟨next, by rw [if_pos hb, ← byteSize_append, hput], hends.congr fun x _ _ => ?_⟩
    by_cases hx : x = a ++ text <;> simp [hx]
  · refine ⟨m, by rw [if_neg hb], h.congr fun x y hxy => ?_⟩
    rw [iff_self_or]
    rintro rfl
    have : b = text ++ y := by simpa using hs.symm.trans hxy
    exact absurd (List.isPrefixOf_iff_prefix.mpr ⟨y, this.symm⟩) hb

theorem foldlM_literalEnd_ends (text : List Char) (is : List Nat)
    (his : ∀ i ∈ is, ∃ a b, s = a ++ b ∧ byteSize a = i) (h : Ends s P m) :
    ∃ next, is.foldlM (literalEnd text s) m = some next ∧
      Ends s (fun x => P x ∨ ∃ a, byteSize a ∈ is ∧ x = a ++ text) next := by
  induction is generalizing P m with
  | nil => exact ⟨m, rfl, h.congr fun x _ _ => by simp⟩
  | cons i is ih =>
    obtain ⟨a, b, hs, rfl⟩ := his i List.mem_cons_self
    obtain ⟨next, hnext, hends⟩ := literalEnd_ends text h hs
    obtain ⟨last, hlast, hlastEnds⟩ := ih (fun j hj => his j (List.mem_cons_of_mem _ hj)) hends
    refine ⟨last, by rw [List.foldlM_cons, hnext]; exact hlast, hlastEnds.congr fun x y hxy => ?_⟩
    rw [or_assoc]
    refine or_congr_right ⟨?_, ?_⟩
    · rintro (rfl | ⟨a', ha', rfl⟩)
      · exact ⟨a, List.mem_cons_self, rfl⟩
      · exact ⟨a', List.mem_cons_of_mem _ ha', rfl⟩
    · rintro ⟨a', ha', rfl⟩
      rcases List.mem_cons.mp ha' with ha' | ha'
      · have hs' : s = a' ++ (text ++ y) := by rw [hxy, List.append_assoc]
        exact .inl (by rw [(append_inj_of_byteSize (hs.symm.trans hs') ha'.symm).1])
      · exact .inr ⟨a', ha', rfl⟩

theorem literalEnds_ends (text : List Char) (h : Ends s P m) :
    ∃ next, literalEnds text s m = some next ∧ Ends s (After (.literal text) P) next := by
  have hoffsets : ∀ i ∈ m.offsets, ∃ a b, s = a ++ b ∧ byteSize a = i := by
    intro i hi
    obtain ⟨a, b, hs, hi, -⟩ := h.mem_offsets.mp hi
    exact ⟨a, b, hs, hi⟩
  obtain ⟨next, hnext, hends⟩ := foldlM_literalEnd_ends text m.offsets hoffsets (Ends.blank s)
  refine ⟨next, hnext, hends.congr fun x y hxy => ?_⟩
  rw [false_or]
  constructor
  · rintro ⟨a, hi, rfl⟩
    obtain ⟨a', b', hs, hi, ha⟩ := h.mem_offsets.mp hi
    have hs' : s = a ++ (text ++ y) := by rw [hxy, List.append_assoc]
    rw [(append_inj_of_byteSize (hs'.symm.trans hs) hi.symm).1]
    exact ⟨a', text, rfl, ha, rfl⟩
  · rintro ⟨a, part, rfl, ha, hpart⟩
    rw [show part = text from hpart] at hxy ⊢
    exact ⟨a, h.mem_offsets.mpr ⟨a, text ++ y, by rw [hxy, List.append_assoc], rfl, ha⟩, rfl⟩

/-- The texts that continue one with the property by a part that the wildcard stands for. -/
def Crossed (crossesSlash : Bool) (P : List Char → Prop) (x : List Char) : Prop :=
  ∃ a part, x = a ++ part ∧ P a ∧ (crossesSlash = true ∨ '/' ∉ part)

/-- The same with a part that is not empty. -/
def Entered (crossesSlash : Bool) (P : List Char → Prop) (x : List Char) : Prop :=
  ∃ a part, x = a ++ part ∧ part ≠ [] ∧ P a ∧ (crossesSlash = true ∨ '/' ∉ part)

variable {crossesSlash : Bool} {x : List Char}

theorem crossed_iff : Crossed crossesSlash P x ↔ Entered crossesSlash P x ∨ P x := by
  constructor
  · rintro ⟨a, part, hx, ha, hpart⟩
    by_cases hne : part = []
    · exact .inr (by rwa [hx, hne, List.append_nil])
    · exact .inl ⟨a, part, hx, hne, ha, hpart⟩
  · rintro (⟨a, part, hx, -, ha, hpart⟩ | hx)
    · exact ⟨a, part, hx, ha, hpart⟩
    · exact ⟨x, [], (List.append_nil x).symm, hx, by simp⟩

theorem not_entered_nil : ¬Entered crossesSlash P [] := by
  rintro ⟨a, part, hx, hne, -, -⟩
  exact hne (List.append_eq_nil_iff.mp hx.symm).2

theorem entered_snoc {c : Char} :
    Entered crossesSlash P (x ++ [c]) ↔
      Crossed crossesSlash P x ∧ (crossesSlash = true ∨ c ≠ '/') := by
  constructor
  · rintro ⟨a, part, hx, hne, ha, hpart⟩
    obtain ⟨part, d, rfl⟩ := (List.eq_nil_or_concat' part).resolve_left hne
    rw [← List.append_assoc] at hx
    obtain ⟨rfl, hc⟩ := List.append_inj' hx rfl
    obtain rfl : c = d := by simpa using hc
    rw [List.mem_append, not_or] at hpart
    exact ⟨⟨a, part, rfl, ha, hpart.imp_right And.left⟩,
      hpart.imp_right fun h => by simpa [eq_comm] using h.2⟩
  · rintro ⟨⟨a, part, rfl, ha, hpart⟩, hc⟩
    refine ⟨a, part ++ [c], by rw [List.append_assoc], by simp, ha, ?_⟩
    rcases hpart with hcross | hpart
    · exact .inl hcross
    · refine hc.imp_right fun hc => ?_
      simpa [hpart] using hc.symm

/-- What the wildcard reaches before the end of `seen`. -/
def CrossedBefore (crossesSlash : Bool) (P : List Char → Prop) (seen x : List Char) : Prop :=
  x <+: seen ∧ x ≠ seen ∧ Crossed crossesSlash P x

theorem crossedBefore_snoc {seen : List Char} {c : Char} :
    CrossedBefore crossesSlash P (seen ++ [c]) x ↔ x <+: seen ∧ Crossed crossesSlash P x := by
  rw [CrossedBefore, List.prefix_concat_iff, ← and_assoc]
  refine and_congr_left fun _ => ⟨fun h => h.1.resolve_left h.2, fun h => ⟨.inr h, ?_⟩⟩
  rintro rfl
  simpa using h.length_le

/-- One round of the loop marks the end of `seen` as the wildcard reaches it. -/
theorem wildcard_round (h : Ends s P m) {seen rest : List Char} {isOpen : Bool} {next : Marks}
    (hs : s = seen ++ rest) (hopen : isOpen = true ↔ Entered crossesSlash P seen)
    (hnext : Ends s (CrossedBefore crossesSlash P seen) next) :
    ∃ here last, m[byteSize seen]? = some here ∧
      ((isOpen || here) = true ↔ Crossed crossesSlash P seen) ∧
      next.put? (byteSize seen) (isOpen || here) = some last ∧
      Ends s (fun x => x <+: seen ∧ Crossed crossesSlash P x) last := by
  obtain ⟨here, hread, hhere⟩ := h.read hs
  have hreached : (isOpen || here) = true ↔ Crossed crossesSlash P seen := by
    rw [Bool.or_eq_true, hopen, hhere, crossed_iff]
  obtain ⟨last, hput, hlast⟩ := hnext.put hs (isOpen || here)
  refine ⟨here, last, hread, hreached, hput, hlast.congr fun x _ _ => ?_⟩
  by_cases hx : x = seen
  · simp [hx, hreached]
  · simp [hx, CrossedBefore]

/-- The loop from the end of `seen` on, where `isOpen` says whether the wildcard reaches that end
from an earlier mark. -/
theorem wildcardEnds_ends (h : Ends s P m) {seen rest : List Char} {isOpen : Bool} {next : Marks}
    (hs : s = seen ++ rest) (hopen : isOpen = true ↔ Entered crossesSlash P seen)
    (hnext : Ends s (CrossedBefore crossesSlash P seen) next) :
    ∃ last, wildcardEnds crossesSlash m isOpen (byteSize seen) rest next = some last ∧
      Ends s (Crossed crossesSlash P) last := by
  induction rest generalizing seen isOpen next with
  | nil =>
    obtain ⟨here, last, hread, -, hput, hlast⟩ := wildcard_round h hs hopen hnext
    refine ⟨last, by simp [wildcardEnds, hread, hput], hlast.congr fun x y hxy => ?_⟩
    have hx : x <+: seen := ⟨y, by rw [← hxy, hs, List.append_nil]⟩
    simp [hx]
  | cons c rest ih =>
    obtain ⟨here, next₁, hread, hreached, hput, hnext₁⟩ := wildcard_round h hs hopen hnext
    have hopen₁ : ((isOpen || here) && (crossesSlash || c != '/')) = true ↔
        Entered crossesSlash P (seen ++ [c]) := by
      rw [entered_snoc, Bool.and_eq_true, hreached, Bool.or_eq_true, bne_iff_ne]
    have hs₁ : s = (seen ++ [c]) ++ rest := by rw [hs, List.append_assoc]; rfl
    obtain ⟨last, hlast, hends⟩ :=
      ih hs₁ hopen₁ (hnext₁.congr fun x _ _ => crossedBefore_snoc.symm)
    refine ⟨last, ?_, hends⟩
    rw [byteSize_append] at hlast
    simpa [wildcardEnds, hread, hput] using hlast

theorem pieceEnds_ends (p : Piece) (h : Ends s P m) :
    ∃ next, pieceEnds s m p = some next ∧ Ends s (After p P) next := by
  have wildcard (crossesSlash : Bool) :
      ∃ next, wildcardEnds crossesSlash m false 0 s (Marks.blank s) = some next ∧
        Ends s (Crossed crossesSlash P) next := by
    have hs : s = [] ++ s := rfl
    have hnext : Ends s (CrossedBefore crossesSlash P []) (Marks.blank s) := by
      refine (Ends.blank s).congr fun x _ _ => ?_
      simp only [CrossedBefore, List.prefix_nil, false_iff, not_and]
      exact fun hx hne => absurd hx hne
    exact wildcardEnds_ends h hs (by simp [not_entered_nil]) hnext
  cases p with
  | literal text => exact literalEnds_ends text h
  | segment =>
    obtain ⟨next, hnext, hends⟩ := wildcard false
    exact ⟨next, hnext, hends.congr fun x _ _ => by simp [Crossed, After, Piece.Covers]⟩
  | any =>
    obtain ⟨next, hnext, hends⟩ := wildcard true
    exact ⟨next, hnext, hends.congr fun x _ _ => by simp [Crossed, After, Piece.Covers]⟩

end Steps

/-- The texts that continue one with the property by a part for each piece. -/
def AfterAll (ps : List Piece) (P : List Char → Prop) (x : List Char) : Prop :=
  ∃ a parts, x = a ++ parts ∧ P a ∧ Piece.CoverAll ps parts

section Runs

variable {s : List Char} {P : List Char → Prop} {m : Marks}

theorem afterAll_nil {x : List Char} : AfterAll [] P x ↔ P x := by
  simp [AfterAll, Piece.CoverAll]

theorem afterAll_cons {p : Piece} {ps : List Piece} {x : List Char} :
    AfterAll (p :: ps) P x ↔ AfterAll ps (After p P) x := by
  constructor
  · rintro ⟨a, _, rfl, ha, part, rest, rfl, hpart, hrest⟩
    exact ⟨a ++ part, rest, (List.append_assoc a part rest).symm, ⟨a, part, rfl, ha, hpart⟩, hrest⟩
  · rintro ⟨_, rest, rfl, ⟨a, part, rfl, ha, hpart⟩, hrest⟩
    exact ⟨a, part ++ rest, List.append_assoc a part rest, ha, part, rest, rfl, hpart, hrest⟩

/-- The marks once the pieces are read, with no early stop. -/
theorem foldlM_pieceEnds_ends (ps : List Piece) (h : Ends s P m) :
    ∃ last, ps.foldlM (pieceEnds s) m = some last ∧ Ends s (AfterAll ps P) last := by
  induction ps generalizing P m with
  | nil => exact ⟨m, rfl, h.congr fun x _ _ => afterAll_nil.symm⟩
  | cons p ps ih =>
    obtain ⟨next, hnext, hends⟩ := pieceEnds_ends p h
    obtain ⟨last, hlast, hlastEnds⟩ := ih hends
    refine ⟨last, by rw [List.foldlM_cons, hnext]; exact hlast, hlastEnds.congr fun x _ _ => ?_⟩
    exact afterAll_cons.symm

/-- The early stop gives the answer that the remaining pieces would. -/
theorem matchFrom_iff (ps : List Piece) (h : Ends s P m) :
    ∃ v, matchFrom s ps m = some v ∧ (v = true ↔ AfterAll ps P s) := by
  induction ps generalizing P m with
  | nil =>
    obtain ⟨v, hv, hP⟩ := h.read (List.append_nil s).symm
    exact ⟨v, hv, hP.trans afterAll_nil.symm⟩
  | cons p ps ih =>
    obtain ⟨next, hnext, hends⟩ := pieceEnds_ends p h
    obtain ⟨v, hv, hP⟩ := ih hends
    rw [afterAll_cons, matchFrom, hnext, Option.bind_eq_bind, Option.bind_some]
    by_cases hany : next.toList.contains true = true
    · exact ⟨v, by rw [if_pos hany, hv], hP⟩
    · refine ⟨false, by rw [if_neg hany], ?_⟩
      simp only [Bool.false_eq_true, false_iff]
      rintro ⟨a, rest, hs, ha, -⟩
      exact hany (hends.contains_iff.mpr ⟨a, rest, hs, ha⟩)

end Runs

theorem start_ends (s : List Char) :
    ∃ m, (Marks.blank s).put? 0 true = some m ∧ Ends s (· = []) m := by
  have hs : s = [] ++ s := rfl
  obtain ⟨m, hput, hends⟩ := (Ends.blank s).put hs true
  exact ⟨m, hput, hends.congr fun x _ _ => by simp⟩

theorem afterAll_start {ps : List Piece} {x : List Char} :
    AfterAll ps (· = []) x ↔ Piece.CoverAll ps x := by
  simp [AfterAll]

def marksAfter (pieces : List Piece) (s : List Char) : Option Marks := do
  pieces.foldlM (pieceEnds s) (← (Marks.blank s).put? 0 true)

theorem marksAfter_ends (pieces : List Piece) (s : List Char) :
    ∃ m, marksAfter pieces s = some m ∧ Ends s (Piece.CoverAll pieces) m := by
  obtain ⟨m, hm, hends⟩ := start_ends s
  obtain ⟨last, hlast, hlastEnds⟩ := foldlM_pieceEnds_ends pieces hends
  exact ⟨last, by rw [marksAfter, hm]; exact hlast, hlastEnds.congr fun x _ _ => afterAll_start⟩

theorem matchPieces_iff (pieces : List Piece) (s : List Char) :
    ∃ v, matchPieces pieces s = some v ∧ (v = true ↔ Piece.CoverAll pieces s) := by
  obtain ⟨m, hm, hends⟩ := start_ends s
  obtain ⟨v, hv, hiff⟩ := matchFrom_iff pieces hends
  exact ⟨v, by rw [matchPieces, hm]; exact hv, hiff.trans afterAll_start⟩

theorem flatMap_prepend (c : Char) (ps : List Piece) :
    (Piece.prepend c ps).flatMap Piece.source = c :: ps.flatMap Piece.source := by
  rcases ps with _ | ⟨_ | _ | _, ps⟩ <;> simp [Piece.prepend, Piece.source]

theorem flatMap_readPieces {named : Bool} {cs : List Char} {ps : List Piece}
    (h : readPieces named cs = .ok ps) : ps.flatMap Piece.source = cs := by
  fun_induction readPieces named cs generalizing ps with
  | case1 => cases h; rfl
  | case3 _ _ ih | case5 _ _ _ ih =>
    obtain ⟨qs, hqs, rfl⟩ := eq_of_map_ok h
    simp [Piece.source, ih hqs]
  | case7 _ c _ _ _ _ ih =>
    obtain ⟨qs, hqs, rfl⟩ := eq_of_map_ok h
    rw [flatMap_prepend, ih hqs]
  | case2 | case4 | case6 => cases h

theorem coverAll_iff_of_literal {ps : List Piece} (h : ps.all Piece.isLiteral = true)
    {s : List Char} : Piece.CoverAll ps s ↔ s = ps.flatMap Piece.source := by
  induction ps generalizing s with
  | nil => simp [Piece.CoverAll]
  | cons p ps ih =>
    rw [List.all_cons, Bool.and_eq_true] at h
    cases p with
    | literal text =>
      simp only [Piece.CoverAll, Piece.Covers, ih h.2, List.flatMap_cons, Piece.source]
      constructor
      · rintro ⟨part, rest, rfl, rfl, rfl⟩
        rfl
      · rintro rfl
        exact ⟨text, _, rfl, rfl, rfl⟩
    | segment | any => exact absurd h.1 (by decide)

theorem parse_ok {source : String} {p : TagPattern} (h : parse source = .ok p) :
    p.source = source ∧ readPieces false source.toList = .ok p.pieces := by
  unfold parse at h
  split_ifs at h with hempty hsolid
  split at h
  · rename_i pieces hpieces
    cases h
    exact ⟨rfl, hpieces⟩
  · cases h

theorem coverAll_iff_parts {ps : List Piece} {s : List Char} :
    Piece.CoverAll ps s ↔
      ∃ parts : List (List Char), s = parts.flatten ∧ List.Forall₂ Piece.Covers ps parts := by
  induction ps generalizing s with
  | nil => simp [Piece.CoverAll]
  | cons p ps ih =>
    simp only [Piece.CoverAll, ih, List.forall₂_cons_left_iff]
    constructor
    · rintro ⟨part, _, rfl, hpart, parts, rfl, hparts⟩
      exact ⟨part :: parts, by simp, part, parts, hpart, hparts, rfl⟩
    · rintro ⟨_, rfl, part, parts, hpart, hparts, rfl⟩
      exact ⟨part, parts.flatten, by simp, hpart, parts, rfl, hparts⟩

/-- The answer of a parsed pattern is the one of its pieces, also where it is compared as a
whole. -/
theorem matchPieces_eq_accepts {source : String} {p : TagPattern} (h : parse source = .ok p)
    (u : TagUri) : matchPieces p.pieces u.text.toList = some (p.accepts u) := by
  obtain ⟨v, hv, hiff⟩ := matchPieces_iff p.pieces u.text.toList
  rw [accepts]
  by_cases hliteral : p.isLiteral = true
  · obtain ⟨rfl, hpieces⟩ := parse_ok h
    rw [coverAll_iff_of_literal hliteral, flatMap_readPieces hpieces] at hiff
    rw [if_pos hliteral, hv, Option.some.injEq, Bool.eq_iff_iff, hiff, beq_iff_eq,
      String.toList_inj, eq_comm]
  · rw [if_neg hliteral, hv, Option.getD_some]

/-- A parsed pattern accepts the tags that split into consecutive parts, one for each piece. The
matcher answers for every tag, and after any number of pieces the marks are on the character
boundaries up to which the pieces cover the tag. -/
theorem accepts_iff_splits {source : String} {p : TagPattern} (h : parse source = .ok p)
    (u : TagUri) :
    (p.accepts u = true ↔ ∃ parts : List (List Char),
      u.text.toList = parts.flatten ∧ List.Forall₂ Piece.Covers p.pieces parts) ∧
    matchPieces p.pieces u.text.toList = some (p.accepts u) ∧
    ∀ n, ∃ marks, marksAfter (p.pieces.take n) u.text.toList = some marks ∧
      marks.size = u.text.utf8ByteSize + 1 ∧
      ∀ i, marks[i]? = some true ↔ ∃ parts : List (List Char), ∃ rest,
        u.text.toList = parts.flatten ++ rest ∧ byteSize parts.flatten = i ∧
          List.Forall₂ Piece.Covers (p.pieces.take n) parts := by
  have hmatch := matchPieces_eq_accepts h u
  obtain ⟨v, hv, hiff⟩ := matchPieces_iff p.pieces u.text.toList
  obtain rfl : v = p.accepts u := Option.some.inj (hv.symm.trans hmatch)
  refine ⟨hiff.trans coverAll_iff_parts, hmatch, fun n => ?_⟩
  obtain ⟨marks, hmarks, hends⟩ := marksAfter_ends (p.pieces.take n) u.text.toList
  refine ⟨marks, hmarks, by rw [hends.size, byteSize_toList], fun i => ?_⟩
  rw [hends.marked]
  constructor
  · rintro ⟨_, rest, hs, hi, hcover⟩
    obtain ⟨parts, rfl, hparts⟩ := coverAll_iff_parts.mp hcover
    exact ⟨parts, rest, hs, hi, hparts⟩
  · rintro ⟨parts, rest, hs, hi, hparts⟩
    exact ⟨_, rest, hs, hi, coverAll_iff_parts.mpr ⟨parts, rfl, hparts⟩⟩

/-- The wildcards stand for `é`, which takes two bytes, and for a text with a slash. -/
theorem accepts_iff_splits_accented :
    ∃ p u, parse "t:*/**a" = .ok p ∧ u.text = "t:é/é/a" ∧ p.accepts u = true := by
  obtain ⟨p, hp, hpieces⟩ : ∃ p, parse "t:*/**a" = .ok p ∧
      p.pieces = [.literal ['t', ':'], .segment, .literal ['/'], .any, .literal ['a']] :=
    ⟨_, rfl, rfl⟩
  refine ⟨p, ⟨"t:é/é/a", by decide, by decide⟩, hp, rfl, (accepts_iff_splits hp _).1.mpr ?_⟩
  refine ⟨[['t', ':'], ['é'], ['/'], ['é', '/'], ['a']], by decide, ?_⟩
  rw [hpieces]
  simp [Piece.Covers]

end TaggedGraph.TagPattern
