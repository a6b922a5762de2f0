import Mathlib.Data.List.DropRight
import TaggedGraph.Tag.Uri

namespace TaggedGraph

/-- One or more decimal digits that stand for `n`. Leading ones may be zero. -/
structure Text.Denotes (s : List Char) (n : Nat) : Prop where
  nonempty : s ≠ []
  digits : ∀ c ∈ s, c.isDigit = true
  value : Nat.ofDigitChars 10 s 0 = n

namespace Text

variable {s : List Char} {n : Nat}

theorem Denotes.notMem (h : Denotes s n) {c : Char} (hc : c.isDigit = false) : c ∉ s := by
  intro hmem
  rw [h.digits c hmem] at hc
  cases hc

theorem denotes_repr (n : Nat) : Denotes (Nat.repr n).toList n := by
  rw [Nat.toList_repr]
  exact ⟨Nat.toDigits_ne_nil, fun c hc => Nat.isDigit_of_mem_toDigits (by decide) (by decide) hc,
    Nat.ofDigitChars_ten_toDigits⟩

theorem isSolid_of_isDigit {c : Char} (h : c.isDigit = true) : isSolid c = true := by
  have hc : 48 ≤ c.toNat ∧ c.toNat ≤ 57 := by
    simpa [Char.isDigit, UInt32.le_iff_toNat_le] using h
  simp only [isSolid, isBlank, isControl, Bool.and_eq_true, Bool.not_eq_true', Bool.or_eq_false_iff,
    Bool.and_eq_false_iff, decide_eq_false_iff_not, beq_eq_false_iff_ne]
  omega

end Text

namespace Version

open Text

variable {s : List Char} {v : Version}

/-- Three numbers with a dot after the first and the second one. -/
def SpelledBy (v : Version) (s : List Char) : Prop :=
  ∃ a b c, s = a ++ '.' :: (b ++ '.' :: c) ∧
    Denotes a v.major.toNat ∧ Denotes b v.minor.toNat ∧ Denotes c v.patch.toNat

theorem parseNumber_eq_some {n : UInt64} : parseNumber s = some n ↔ Denotes s n.toNat := by
  have hvalue : digitsValue s = Nat.ofDigitChars 10 s 0 := rfl
  rw [parseNumber, Option.ite_none_right_eq_some, Option.some.injEq, hvalue, List.all_eq_true]
  constructor
  · rintro ⟨⟨hne, hdigits, hlt⟩, rfl⟩
    exact ⟨hne, hdigits, (UInt64.toNat_ofNat_of_lt' hlt).symm⟩
  · rintro ⟨hne, hdigits, hn⟩
    rw [hn]
    exact ⟨⟨hne, hdigits, n.toNat_lt⟩, UInt64.ofNat_toNat⟩

theorem splitOn_dot {a b c : List Char} {k l m : Nat} (ha : Denotes a k) (hb : Denotes b l)
    (hc : Denotes c m) : (a ++ '.' :: (b ++ '.' :: c)).splitOn '.' = [a, b, c] := by
  have hparts : ∀ part ∈ [a, b, c], '.' ∉ part := by
    simpa using ⟨ha.notMem rfl, hb.notMem rfl, hc.notMem rfl⟩
  have hjoin : a ++ '.' :: (b ++ '.' :: c) = ['.'].intercalate [a, b, c] := by
    simp [List.intercalate]
  rw [hjoin, List.splitOn_intercalate '.' hparts (by simp)]

theorem parse_eq_some : parse (String.ofList s) = some v ↔ v.SpelledBy s := by
  rw [parse, String.toList_ofList, splitAt_eq_splitOn]
  constructor
  · intro h
    have hjoin : ['.'].intercalate (s.splitOn '.') = s := List.intercalate_splitOn '.'
    split at h
    · rename_i a b c hsplit
      obtain ⟨major, ha, h⟩ := Option.bind_eq_some_iff.1 h
      obtain ⟨minor, hb, h⟩ := Option.bind_eq_some_iff.1 h
      obtain ⟨patch, hc, h⟩ := Option.bind_eq_some_iff.1 h
      obtain rfl := Option.some.inj h
      rw [hsplit] at hjoin
      exact ⟨a, b, c, by simpa [List.intercalate] using hjoin.symm, parseNumber_eq_some.1 ha,
        parseNumber_eq_some.1 hb, parseNumber_eq_some.1 hc⟩
    · cases h
  · rintro ⟨a, b, c, rfl, ha, hb, hc⟩
    simp [splitOn_dot ha hb hc, parseNumber_eq_some.2 ha, parseNumber_eq_some.2 hb,
      parseNumber_eq_some.2 hc]

theorem spelledBy_text (v : Version) : v.SpelledBy v.text.toList := by
  refine ⟨_, _, _, ?_, denotes_repr _, denotes_repr _, denotes_repr _⟩
  simp [text]

theorem SpelledBy.notMem (h : v.SpelledBy s) : '-' ∉ s := by
  obtain ⟨a, b, c, rfl, ha, hb, hc⟩ := h
  simp [ha.notMem, hb.notMem, hc.notMem]

theorem SpelledBy.isSolid (h : v.SpelledBy s) : ∀ c ∈ s, isSolid c = true := by
  obtain ⟨a, b, c, rfl, ha, hb, hc⟩ := h
  have hdot : Text.isSolid '.' = true := by decide
  intro d hd
  simp only [List.mem_append, List.mem_cons] at hd
  rcases hd with hd | rfl | hd | rfl | hd
  · exact isSolid_of_isDigit (ha.digits d hd)
  · exact hdot
  · exact isSolid_of_isDigit (hb.digits d hd)
  · exact hdot
  · exact isSolid_of_isDigit (hc.digits d hd)

end Version

namespace TagUri

open Text

variable {u : TagUri} {v : Version}

/-- The name is what comes after the last `/` or `:`, or everything if there is none. -/
def IsLastPart (base name : List Char) : Prop :=
  (∀ c ∈ name, c ≠ '/' ∧ c ≠ ':') ∧
    (base = name ∨ ∃ before sep, (sep = '/' ∨ sep = ':') ∧ base = before ++ sep :: name)

theorem parse_ok_of_solid {text : String} (hne : text ≠ "") (h : allSolid text = true) :
    parse text = .ok ⟨text, hne, h⟩ := by
  rw [parse, dif_neg hne, dif_pos h]

theorem split_eq_some {b : String} : u.split = some (b, v) ↔
    ∃ t, u.text.toList = b.toList ++ '-' :: t ∧ '-' ∉ t ∧ v.SpelledBy t := by
  constructor
  · intro h
    obtain ⟨⟨a, t⟩, hcut, h⟩ := Option.bind_eq_some_iff.1 h
    obtain ⟨w, hparse, h⟩ := Option.bind_eq_some_iff.1 h
    obtain ⟨rfl, rfl⟩ := Prod.mk.inj (Option.some.inj h)
    obtain ⟨htext, ht⟩ := cutLast_eq_some.1 hcut
    exact ⟨t, by rw [htext, String.toList_ofList], ht, Version.parse_eq_some.1 hparse⟩
  · rintro ⟨t, htext, ht, hspelled⟩
    rw [split, cutLast_eq_some.2 ⟨htext, ht⟩]
    simp [Version.parse_eq_some.2 hspelled]

theorem version_eq_some : u.version = some v ↔ u.split = some (u.base, v) := by
  rw [version, base]
  cases u.split with
  | none => simp
  | some p => simp [Prod.ext_iff]

theorem base_of_version_none (h : u.version = none) : u.base = u.text := by
  rw [base, Option.map_eq_none_iff.1 h]

/-- The text of a tag with a version is its base, a `-` and the text of the version. -/
theorem text_of_version (h : u.version = some v) :
    ∃ t, u.text = u.base ++ "-" ++ String.ofList t ∧ '-' ∉ t ∧ v.SpelledBy t := by
  obtain ⟨t, htext, ht, hspelled⟩ := split_eq_some.1 (version_eq_some.1 h)
  exact ⟨t, by simp [← String.toList_inj, htext], ht, hspelled⟩

theorem version_iff : u.version = some v ↔
    ∃ before t, u.text.toList = before ++ '-' :: t ∧ '-' ∉ t ∧ v.SpelledBy t := by
  constructor
  · intro h
    exact ⟨_, split_eq_some.1 (version_eq_some.1 h)⟩
  · rintro ⟨before, t, htext, ht, hspelled⟩
    have hsplit : u.split = some (String.ofList before, v) :=
      split_eq_some.2 ⟨t, by rw [htext, String.toList_ofList], ht, hspelled⟩
    rw [version, hsplit, Option.map_some]

theorem isLastPart_name (u : TagUri) : IsLastPart u.base.toList u.name.toList := by
  have hname : u.name.toList = u.base.toList.rtakeWhile (!isSeparator ·) := by
    rw [name, String.toList_ofList, List.rtakeWhile]
  have hjoin : u.base.toList.rdropWhile (!isSeparator ·) ++ u.name.toList = u.base.toList := by
    rw [hname, List.rdropWhile_append_rtakeWhile]
  have hlast := List.rdropWhile_last_not (!isSeparator ·) u.base.toList
  constructor
  · intro c hc
    rw [hname] at hc
    simpa [isSeparator] using List.mem_rtakeWhile_imp hc
  · rcases List.eq_nil_or_concat' (u.base.toList.rdropWhile (!isSeparator ·)) with
      hnil | ⟨before, sep, hbefore⟩
    · exact .inl (by rw [← hjoin, hnil, List.nil_append])
    · rw [hbefore] at hjoin hlast
      refine .inr ⟨before, sep, ?_, by rw [← hjoin, List.append_assoc, List.singleton_append]⟩
      simpa [isSeparator, or_iff_not_imp_left] using hlast (by simp)

theorem parse_join {b : String} (hb : allSolid b = true) (v : Version) :
    ∃ u, parse (b ++ "-" ++ v.text) = .ok u ∧ u.base = b ∧ u.version = some v := by
  have htext : (b ++ "-" ++ v.text).toList = b.toList ++ '-' :: v.text.toList := by simp
  have hspelled := v.spelledBy_text
  have hne : b ++ "-" ++ v.text ≠ "" := by simp
  have hsolid : allSolid (b ++ "-" ++ v.text) = true := by
    rw [allSolid_iff, htext]
    intro c hc
    rcases List.mem_append.1 hc with hc | hc
    · exact (allSolid_iff b).1 hb c hc
    · rcases List.mem_cons.1 hc with rfl | hc
      · decide
      · exact hspelled.isSolid c hc
  refine ⟨_, parse_ok_of_solid hne hsolid, ?_⟩
  have hsplit : split ⟨b ++ "-" ++ v.text, hne, hsolid⟩ = some (b, v) :=
    split_eq_some.2 ⟨_, htext, hspelled.notMem, hspelled⟩
  exact ⟨by rw [base, hsplit], by rw [version, hsplit, Option.map_some]⟩

/-- Splitting a tag undoes joining a base and a version. A tag has a version iff the text after its
last `-` is that of one, and is then joined from it and the base; otherwise the base is all of the
tag. The name is the last part of the base. -/
theorem split_inverts_join :
    (∀ (b : String) (v : Version),
      (∀ c ∈ b.toList, isBlank c = false ∧ isControl c = false) →
      ∃ u, parse (b ++ "-" ++ v.text) = .ok u ∧ u.base = b ∧ u.version = some v) ∧
    ∀ u : TagUri,
      (∀ v, u.version = some v ↔
        ∃ before t, u.text.toList = before ++ '-' :: t ∧ '-' ∉ t ∧ v.SpelledBy t) ∧
      (∀ v, u.version = some v →
        ∃ t, u.text = u.base ++ "-" ++ String.ofList t ∧ '-' ∉ t ∧ v.SpelledBy t) ∧
      (u.version = none → u.base = u.text) ∧
      IsLastPart u.base.toList u.name.toList := by
  refine ⟨fun b v hb => parse_join ((allSolid_iff b).2 fun c hc => ?_) v, fun u =>
    ⟨fun v => version_iff, fun v => text_of_version, base_of_version_none, isLastPart_name u⟩⟩
  obtain ⟨hblank, hcontrol⟩ := hb c hc
  simp [isSolid, hblank, hcontrol]

-- a base of no characters, one that looks like a version, and a number that needs 65 bits
example :
    (parse "-1.0.0").toOption.map (fun u => (u.base, u.name, u.version)) =
      some ("", "", some ⟨1, 0, 0⟩) ∧
    (parse "t:a-1.0.0-007.2.3").toOption.map (fun u => (u.base, u.name, u.version)) =
      some ("t:a-1.0.0", "a-1.0.0", some ⟨7, 2, 3⟩) ∧
    (parse "t:a-18446744073709551616.0.0").toOption.map (fun u => u.version) = some none := by
  decide +kernel

end TagUri

end TaggedGraph
