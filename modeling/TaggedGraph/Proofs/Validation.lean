import Mathlib.Tactic
import TaggedGraph.Proofs.Ascending
import TaggedGraph.Proofs.Converters
import TaggedGraph.Proofs.Loaded

namespace TaggedGraph

/-- What a converter declares of itself. -/
structure Declaration where
  className : String
  patterns : List String
  types : List TypeRef
  selects : Bool

structure Converter.Gives {β : Type} (c : Converter β) (d : Declaration) : Prop where
  className : c.className = .ok d.className
  patterns : c.patterns = .ok d.patterns
  types : c.types = .ok d.types
  selector : c.selector = .ok d.selects

/-- A named type that no type can have as its name. -/
def TypeRef.Malformed (r : TypeRef) : Prop :=
  ∃ name, r = .named name ∧
    (name = "" ∨ ∃ ch ∈ name.toList, Text.isBlank ch = true ∨ Text.isControl ch = true)

namespace Declaration

def PatternsParse (sources : List String) : Prop :=
  ∀ s ∈ sources, ∃ p, TagPattern.parse s = .ok p

/-- The tags are the defined ones that some pattern matches, each once and in ascending order. -/
structure Resolves (d : Declaration) (definitions : List TagDefinition) (tags : List TagUri) :
    Prop where
  sorted : tags.Pairwise fun t u => t.text < u.text
  mem_iff : ∀ t, t ∈ tags ↔ (∃ x ∈ definitions, x.tag = t) ∧
    ∃ s ∈ d.patterns, ∃ p, TagPattern.parse s = .ok p ∧ p.accepts t = true

/-- The complaint about a converter that leaves the choice among its tags open. -/
def complaint (d : Declaration) (tags : List TagUri) : List Warning :=
  match tags with
  | first :: _ => [⟨.deprecation, "Converter " ++ d.className ++
      " handles multiple tags for this extension, but does not implement a tag selector. Using '" ++
      first.text ++ "' for every object. This will be an error in a future version"⟩]
  | [] => []

/-- The verdict over a declaration, with the warnings recorded. -/
inductive Verdict (d : Declaration) (legacy : Bool) (definitions : List TagDefinition) :
    Except ConfigurationError (List TagUri) → List Warning → Prop
  | malformedPattern {before : List String} {s : String} {after : List String} {e : TagError}
      (hsplit : d.patterns = before ++ s :: after) (hbefore : PatternsParse before)
      (hs : TagPattern.parse s = .error e) :
      Verdict d legacy definitions (.error (.malformedTagPattern d.className e)) []
  | malformedType {before : List TypeRef} {name : String} {after : List TypeRef}
      (hpatterns : PatternsParse d.patterns) (hsplit : d.types = before ++ .named name :: after)
      (hbefore : ∀ r ∈ before, ¬r.Malformed) (hname : (TypeRef.named name).Malformed) :
      Verdict d legacy definitions (.error (.typeMismatch d.className name)) []
  | ambiguous {tags : List TagUri} (hpatterns : PatternsParse d.patterns)
      (htypes : ∀ r ∈ d.types, ¬r.Malformed) (htags : d.Resolves definitions tags)
      (hmany : 1 < tags.length) (hselects : d.selects = false) (hlegacy : legacy = false) :
      Verdict d legacy definitions (.error (.ambiguousTags d.className tags)) []
  | deprecated {tags : List TagUri} (hpatterns : PatternsParse d.patterns)
      (htypes : ∀ r ∈ d.types, ¬r.Malformed) (htags : d.Resolves definitions tags)
      (hmany : 1 < tags.length) (hselects : d.selects = false) (hlegacy : legacy = true) :
      Verdict d legacy definitions (.ok tags) (d.complaint tags)
  | accepted {tags : List TagUri} (hpatterns : PatternsParse d.patterns)
      (htypes : ∀ r ∈ d.types, ¬r.Malformed) (htags : d.Resolves definitions tags)
      (hfew : 1 < tags.length → d.selects = true) :
      Verdict d legacy definitions (.ok tags) []

end Declaration

theorem forall_or_first {α : Type} (P : α → Prop) (l : List α) : (∀ x ∈ l, P x) ∨
    ∃ before x after, l = before ++ x :: after ∧ (∀ y ∈ before, P y) ∧ ¬P x := by
  induction l with
  | nil => exact .inl (by simp)
  | cons x r ih =>
    by_cases hx : P x
    · rcases ih with h | ⟨before, y, after, rfl, hbefore, hy⟩
      · exact .inl (List.forall_mem_cons.mpr ⟨hx, h⟩)
      · exact .inr ⟨x :: before, y, after, rfl, List.forall_mem_cons.mpr ⟨hx, hbefore⟩, hy⟩
    · exact .inr ⟨[], x, r, rfl, by simp, hx⟩

theorem TypeRef.isWellFormed_iff (r : TypeRef) : r.isWellFormed = true ↔ ¬r.Malformed := by
  cases r with
  | direct type => simp [isWellFormed, Malformed]
  | named name => simp [isWellFormed, Malformed, Text.allSolid_iff, Text.isSolid]

theorem TypeRef.find?_malformed_none {types : List TypeRef} :
    types.find? (fun t => !t.isWellFormed) = none ↔ ∀ r ∈ types, ¬r.Malformed := by
  simp [List.find?_eq_none, isWellFormed_iff]

theorem TypeRef.find?_malformed_some {types : List TypeRef} {bad : TypeRef} :
    types.find? (fun t => !t.isWellFormed) = some bad ↔ bad.Malformed ∧
      ∃ before after, types = before ++ bad :: after ∧ ∀ r ∈ before, ¬r.Malformed := by
  simp only [List.find?_eq_some_iff_append, Bool.not_not, isWellFormed_iff, Bool.not_eq_true',
    ← Bool.not_eq_true, not_not]

namespace Converter

variable {β : Type} {c : Converter β} {d : Declaration} {info : ExtensionInfo}
  {definitions : List TagDefinition} {ps : List TagPattern} {tags : List TagUri}

theorem parsePatterns_of_parse (className : String) {sources : List String}
    (h : Declaration.PatternsParse sources) : ∃ ps, parsePatterns className sources = .ok ps := by
  induction sources with
  | nil => exact ⟨[], rfl⟩
  | cons s r ih =>
    obtain ⟨⟨p, hp⟩, hr⟩ := List.forall_mem_cons.mp h
    obtain ⟨ps, hps⟩ := ih hr
    exact ⟨p :: ps, by simp [parsePatterns, hp, hps, Functor.map, Except.map]⟩

theorem parsePatterns_of_error {className : String} {sources before after : List String}
    {s : String} {e : TagError} (hsplit : sources = before ++ s :: after)
    (h : Declaration.PatternsParse before) (hs : TagPattern.parse s = .error e) :
    parsePatterns className sources = .error (.invalid (.malformedTagPattern className e)) := by
  subst hsplit
  induction before with
  | nil => simp [parsePatterns, hs]
  | cons q r ih =>
    obtain ⟨⟨p, hp⟩, hr⟩ := List.forall_mem_cons.mp h
    simp [parsePatterns, hp, ih hr, Functor.map, Except.map]

theorem exists_mem_parsePatterns {className : String} {sources : List String} {t : TagUri}
    (h : parsePatterns className sources = .ok ps) : (∃ p ∈ ps, p.accepts t = true) ↔
      ∃ s ∈ sources, ∃ p, TagPattern.parse s = .ok p ∧ p.accepts t = true := by
  induction sources generalizing ps with
  | nil => cases h; simp
  | cons s r ih =>
    unfold parsePatterns at h
    cases hs : TagPattern.parse s with
    | error => simp [hs] at h
    | ok p =>
      rw [hs] at h
      obtain ⟨qs, hqs, rfl⟩ := eq_of_map_ok h
      simp [hs, ih hqs]

theorem resolves_resolve (hps : parsePatterns d.className d.patterns = .ok ps) :
    d.Resolves definitions (resolve definitions ps) where
  sorted := Ascending.sorted_ofList _ _
  mem_iff t := by
    rw [mem_resolve, List.any_eq_true, List.any_eq_true, exists_mem_parsePatterns hps]
    simp only [decide_eq_true_eq]

theorem eq_resolve (hps : parsePatterns d.className d.patterns = .ok ps)
    (h : d.Resolves definitions tags) : tags = resolve definitions ps := by
  have h' : d.Resolves definitions _ := resolves_resolve hps
  exact Ascending.Sorted.eq_of_mem h.sorted h'.sorted
    fun t => (h.mem_iff t).trans (h'.mem_iff t).symm

theorem load_malformedPattern (hc : c.Gives d) {f : LoadFailure}
    (h : parsePatterns d.className d.patterns = .error f) :
    c.load info definitions = .error f := by
  simp [load, hc.className, hc.patterns, h, Except.mapError, bind, Except.bind]

theorem load_malformedType (hc : c.Gives d) (hps : parsePatterns d.className d.patterns = .ok ps)
    {bad : TypeRef} (h : d.types.find? (fun t => !t.isWellFormed) = some bad) :
    c.load info definitions = .error (.invalid (.typeMismatch d.className bad.name)) := by
  simp [load, hc.className, hc.patterns, hc.types, hps, h, Except.mapError, bind, Except.bind,
    throw, throwThe, MonadExceptOf.throw]

/-- A converter with sound patterns and types is refused for an open choice among tags only. -/
theorem load_wellFormed (hc : c.Gives d) (hps : parsePatterns d.className d.patterns = .ok ps)
    (h : d.types.find? (fun t => !t.isWellFormed) = none) :
    c.load info definitions =
      if 1 < (resolve definitions ps).length ∧ d.selects = false ∧ info.legacy = false then
        .error (.invalid (.ambiguousTags d.className (resolve definitions ps)))
      else .ok ⟨c, info, resolve definitions ps, d.types⟩ := by
  simp only [load, hc.className, hc.patterns, hc.types, hps, h, Except.mapError, bind, Except.bind]
  by_cases hmany : 1 < (resolve definitions ps).length
  · cases hselects : d.selects <;> cases hlegacy : info.legacy <;>
      simp [hmany, hc.selector, hselects, throw, throwThe, MonadExceptOf.throw, pure, Except.pure]
  · simp [hmany, pure, Except.pure]

def outcome (c : Converter β) (info : ExtensionInfo) (types : List TypeRef) :
    Except ConfigurationError (List TagUri) → Except LoadFailure (LoadedConverter β)
  | .error e => .error (.invalid e)
  | .ok tags => .ok ⟨c, info, tags, types⟩

theorem outcome_injective (types : List TypeRef) : Function.Injective (c.outcome info types) := by
  intro v w h
  cases v <;> cases w <;> simp_all [outcome]

theorem deprecation?_eq (hc : c.Gives d) :
    (LoadedConverter.mk c info tags d.types).deprecation?.toList =
      if 1 < tags.length ∧ d.selects = false then d.complaint tags else [] := by
  rcases tags with _ | ⟨first, _ | ⟨second, r⟩⟩
  · simp [LoadedConverter.deprecation?]
  · simp [LoadedConverter.deprecation?]
  · cases hselects : d.selects <;>
      simp [LoadedConverter.deprecation?, LoadedConverter.className, selects, hc.className,
        hc.selector, hselects, Declaration.complaint]

theorem loadRecording_of_verdict (hc : c.Gives d)
    {verdict : Except ConfigurationError (List TagUri)} {ws : List Warning}
    (h : d.Verdict info.legacy definitions verdict ws) :
    c.loadRecording info definitions = (c.outcome info d.types verdict, ws) := by
  unfold loadRecording
  cases h with
  | malformedPattern hsplit hbefore hs =>
    rw [load_malformedPattern hc (parsePatterns_of_error hsplit hbefore hs)]
    rfl
  | malformedType hpatterns hsplit hbefore hname =>
    obtain ⟨ps, hps⟩ := parsePatterns_of_parse d.className hpatterns
    have hfind := TypeRef.find?_malformed_some.mpr ⟨hname, _, _, hsplit, hbefore⟩
    rw [load_malformedType hc hps hfind]
    rfl
  | ambiguous hpatterns htypes htags hmany hselects hlegacy =>
    obtain ⟨ps, hps⟩ := parsePatterns_of_parse d.className hpatterns
    obtain rfl := eq_resolve hps htags
    rw [load_wellFormed hc hps (TypeRef.find?_malformed_none.mpr htypes),
      if_pos ⟨hmany, hselects, hlegacy⟩]
    rfl
  | deprecated hpatterns htypes htags hmany hselects hlegacy =>
    obtain ⟨ps, hps⟩ := parsePatterns_of_parse d.className hpatterns
    obtain rfl := eq_resolve hps htags
    rw [load_wellFormed hc hps (TypeRef.find?_malformed_none.mpr htypes),
      if_neg (by simp [hlegacy])]
    simp only [deprecation?_eq hc, if_pos (And.intro hmany hselects), outcome]
  | accepted hpatterns htypes htags hfew =>
    obtain ⟨ps, hps⟩ := parsePatterns_of_parse d.className hpatterns
    obtain rfl := eq_resolve hps htags
    have hnot : ¬(1 < (resolve definitions ps).length ∧ d.selects = false) := by
      rintro ⟨hmany, hselects⟩
      exact absurd (hfew hmany) (by simp [hselects])
    rw [load_wellFormed hc hps (TypeRef.find?_malformed_none.mpr htypes), if_neg (by tauto)]
    simp only [deprecation?_eq hc, if_neg hnot, outcome]

end Converter

theorem Declaration.exists_verdict (d : Declaration) (legacy : Bool)
    (definitions : List TagDefinition) : ∃ verdict ws, d.Verdict legacy definitions verdict ws := by
  rcases forall_or_first (fun s => ∃ p, TagPattern.parse s = .ok p) d.patterns with
    hpatterns | ⟨before, s, after, hsplit, hbefore, hs⟩
  · rcases forall_or_first (fun r : TypeRef => ¬r.Malformed) d.types with
      htypes | ⟨before, bad, after, hsplit, hbefore, hbad⟩
    · obtain ⟨ps, hps⟩ := Converter.parsePatterns_of_parse d.className hpatterns
      have htags : d.Resolves definitions _ := Converter.resolves_resolve hps
      by_cases hopen : 1 < (Converter.resolve definitions ps).length ∧ d.selects = false
      · cases hlegacy : legacy with
        | false => exact ⟨_, _, .ambiguous hpatterns htypes htags hopen.1 hopen.2 rfl⟩
        | true => exact ⟨_, _, .deprecated hpatterns htypes htags hopen.1 hopen.2 rfl⟩
      · exact ⟨_, _, .accepted hpatterns htypes htags (by simpa using hopen)⟩
    · obtain ⟨name, rfl, hname⟩ := not_not.mp hbad
      exact ⟨_, _, .malformedType hpatterns hsplit hbefore ⟨name, rfl, hname⟩⟩
  · cases he : TagPattern.parse s with
    | error e => exact ⟨_, _, .malformedPattern hsplit hbefore he⟩
    | ok p => exact absurd ⟨p, he⟩ hs

namespace Converter

variable {β : Type} {c : Converter β} {d : Declaration} {info : ExtensionInfo}
  {definitions : List TagDefinition}

theorem loadRecording_iff_verdict (hc : c.Gives d)
    (verdict : Except ConfigurationError (List TagUri)) (ws : List Warning) :
    c.loadRecording info definitions = (c.outcome info d.types verdict, ws) ↔
      d.Verdict info.legacy definitions verdict ws := by
  refine ⟨fun h => ?_, loadRecording_of_verdict hc⟩
  obtain ⟨verdict', ws', h'⟩ := d.exists_verdict info.legacy definitions
  obtain ⟨hv, hws⟩ := Prod.mk.inj (h.symm.trans (loadRecording_of_verdict hc h'))
  rwa [outcome_injective d.types hv, hws]

theorem load_resolves (hc : c.Gives d) {l : LoadedConverter β}
    (h : c.load info definitions = .ok l) : l.converter = c ∧ d.Resolves definitions l.tags := by
  obtain ⟨verdict, ws, hverdict⟩ := d.exists_verdict info.legacy definitions
  have hload : .ok l = c.outcome info d.types verdict := by
    have := loadRecording_of_verdict hc hverdict
    rw [loadRecording, h] at this
    exact congrArg Prod.fst this
  cases hverdict with
  | malformedPattern | malformedType | ambiguous => cases hload
  | deprecated _ _ htags | accepted _ _ htags =>
    cases hload
    exact ⟨rfl, htags⟩

def recorded (info : ExtensionInfo) (definitions : List TagDefinition) (cs : List (Converter β)) :
    List Warning :=
  cs.flatMap fun c => (c.loadRecording info definitions).2

theorem loadAll_of_loads {cs : List (Converter β)}
    (h : ∀ c ∈ cs, ∃ l, c.load info definitions = .ok l) :
    ∃ ls, List.Forall₂ (fun c l => c.load info definitions = .ok l) cs ls ∧
      loadAll info definitions cs = (.ok ls, recorded info definitions cs) := by
  induction cs with
  | nil => exact ⟨[], .nil, rfl⟩
  | cons c r ih =>
    obtain ⟨⟨l, hl⟩, hr⟩ := List.forall_mem_cons.mp h
    obtain ⟨ls, hls, hall⟩ := ih hr
    refine ⟨l :: ls, .cons hl hls, ?_⟩
    simp only [loadAll, loadRecording, hl, hall, recorded, List.flatMap_cons]
    rfl

theorem loadAll_of_error {cs before after : List (Converter β)} {f : LoadFailure}
    (hsplit : cs = before ++ c :: after)
    (h : ∀ b ∈ before, ∃ l, b.load info definitions = .ok l)
    (hc : c.load info definitions = .error f) :
    loadAll info definitions cs = (.error f, recorded info definitions before) := by
  subst hsplit
  induction before with
  | nil => simp [loadAll, loadRecording, hc, recorded]
  | cons b r ih =>
    obtain ⟨⟨l, hl⟩, hr⟩ := List.forall_mem_cons.mp h
    simp only [List.cons_append, loadAll, loadRecording, hl, ih hr, recorded, List.flatMap_cons]
    rfl

end Converter

namespace Extension

variable {β : Type} {e : Extension β} {serial : Nat} {package : Option PackageInfo}
  {info : ExtensionInfo} {definitions : List TagDefinition} {cs : List (Converter β)}

theorem load_eq (hinfo : e.identify serial package = .ok info)
    (hdefinitions : e.definitions = .ok definitions) (hcs : e.converters = .ok cs) :
    e.load serial package = ((⟨info, definitions, ·⟩) <$> (Converter.loadAll info definitions cs).1,
      (Converter.loadAll info definitions cs).2) := by
  simp [load, hinfo, hdefinitions, hcs, bind, Except.bind, pure, Except.pure]

/-- An extension loads with all its converters, or fails as its first refused one does. The
warnings are those of the converters that were loaded. -/
theorem load_cases (hinfo : e.identify serial package = .ok info)
    (hdefinitions : e.definitions = .ok definitions) (hcs : e.converters = .ok cs) :
    (∃ ls, List.Forall₂ (fun c l => c.load info definitions = .ok l) cs ls ∧
      e.load serial package =
        (.ok ⟨info, definitions, ls⟩, Converter.recorded info definitions cs)) ∨
    ∃ before c after f, cs = before ++ c :: after ∧
      (∀ b ∈ before, ∃ l, b.load info definitions = .ok l) ∧ c.load info definitions = .error f ∧
      e.load serial package = (.error f, Converter.recorded info definitions before) := by
  rw [load_eq hinfo hdefinitions hcs]
  rcases forall_or_first (fun c => ∃ l, c.load info definitions = .ok l) cs with
    h | ⟨before, c, after, hsplit, hbefore, hc⟩
  · obtain ⟨ls, hls, hall⟩ := Converter.loadAll_of_loads h
    exact .inl ⟨ls, hls, by rw [hall]; rfl⟩
  · cases hload : c.load info definitions with
    | ok l => exact absurd ⟨l, hload⟩ hc
    | error f =>
      have hall := Converter.loadAll_of_error hsplit hbefore hload
      exact .inr ⟨before, c, after, f, hsplit, hbefore, hload, by rw [hall]; rfl⟩

theorem load_ok_iff (hinfo : e.identify serial package = .ok info)
    (hdefinitions : e.definitions = .ok definitions) (hcs : e.converters = .ok cs) :
    (∃ l, (e.load serial package).1 = .ok l) ↔ ∀ c ∈ cs, ∃ l, c.load info definitions = .ok l := by
  rcases load_cases hinfo hdefinitions hcs with
    ⟨ls, hls, hload⟩ | ⟨before, c, after, f, hsplit, -, hc, hload⟩
  · refine iff_of_true ⟨_, congrArg Prod.fst hload⟩ fun c hmem => ?_
    obtain ⟨l, -, hl⟩ := forall₂_exists_right hls hmem
    exact ⟨l, hl⟩
  · refine iff_of_false ?_ fun h => ?_
    · rintro ⟨l, hl⟩
      rw [hload] at hl
      cases hl
    · obtain ⟨l, hl⟩ := h c (by simp [hsplit])
      rw [hc] at hl
      cases hl

end Extension

namespace LoadedConverter

/-- Without a selector the tag is the least one, if there is any. -/
theorem selectTag_of_not_selects {l : LoadedConverter Behaviour} (hl : l.converter.selects = false)
    (hsorted : l.tags.Pairwise fun t u => t.text < u.text) (ctx : Context) (g : ObjectGraph)
    (o : Object) : (l.selectTag ctx g o = none ↔ l.tags = []) ∧
      ∀ t, l.selectTag ctx g o = some t ↔ t ∈ l.tags ∧ ∀ u ∈ l.tags, t.text ≤ u.text := by
  rw [selectTag, if_neg (by simp [hl])]
  cases htags : l.tags with
  | nil => simp
  | cons first r =>
    rw [htags, List.pairwise_cons] at hsorted
    have hleast : ∀ u ∈ first :: r, first.text ≤ u.text :=
      List.forall_mem_cons.mpr ⟨String.le_refl _, fun u hu => String.not_lt.1 fun h =>
        String.lt_irrefl _ (String.lt_trans h (hsorted.1 u hu))⟩
    refine ⟨by simp, fun t => ?_⟩
    rw [List.head?_cons, Option.some.injEq]
    constructor
    · rintro rfl
      exact ⟨List.mem_cons_self, hleast⟩
    · rintro ⟨ht, hmin⟩
      exact TagUri.eq_of_text _ _
        (String.le_antisymm (hleast t ht) (hmin first List.mem_cons_self))

end LoadedConverter

/-- A converter is judged by its declaration alone, in the order patterns, types, tags, and every
declaration has a verdict. Without a selector it writes its least tag. An extension loads iff all
its converters do, fails as the first that does not, and records the warnings of those before. -/
theorem loading_validates {c : Converter Behaviour} {d : Declaration} (hc : c.Gives d)
    {e : Extension Behaviour} {serial : Nat} {package : Option PackageInfo} {info : ExtensionInfo}
    {definitions : List TagDefinition} {cs : List (Converter Behaviour)}
    (hinfo : e.identify serial package = .ok info) (hdefinitions : e.definitions = .ok definitions)
    (hcs : e.converters = .ok cs) :
    ((∃ verdict ws, d.Verdict info.legacy definitions verdict ws) ∧
      ∀ verdict ws, c.loadRecording info definitions = (c.outcome info d.types verdict, ws) ↔
        d.Verdict info.legacy definitions verdict ws) ∧
    (∀ l, c.load info definitions = .ok l → d.selects = false → ∀ ctx g o,
      (l.selectTag ctx g o = none ↔ l.tags = []) ∧
      ∀ t, l.selectTag ctx g o = some t ↔ t ∈ l.tags ∧ ∀ u ∈ l.tags, t.text ≤ u.text) ∧
    ((∃ l, (e.load serial package).1 = .ok l) ↔ ∀ b ∈ cs, ∃ l, b.load info definitions = .ok l) ∧
    ((∃ ls, List.Forall₂ (fun b l => b.load info definitions = .ok l) cs ls ∧
        e.load serial package =
          (.ok ⟨info, definitions, ls⟩, Converter.recorded info definitions cs)) ∨
      ∃ before b after f, cs = before ++ b :: after ∧
        (∀ x ∈ before, ∃ l, x.load info definitions = .ok l) ∧ b.load info definitions = .error f ∧
        e.load serial package = (.error f, Converter.recorded info definitions before)) := by
  refine ⟨⟨d.exists_verdict _ _, Converter.loadRecording_iff_verdict hc⟩, ?_,
    Extension.load_ok_iff hinfo hdefinitions hcs, Extension.load_cases hinfo hdefinitions hcs⟩
  intro l hl hselects ctx g o
  obtain ⟨rfl, htags⟩ := Converter.load_resolves hc hl
  have hnot : l.converter.selects = false := by rw [Converter.selects, hc.selector, hselects]
  exact LoadedConverter.selectTag_of_not_selects hnot htags.sorted ctx g o

def openChoice : Converter Behaviour :=
  ⟨0, .ok "Open", .ok ["now", "later"], .ok [.named "Now"], .ok false, .keep⟩

def misnamed : Converter Behaviour :=
  ⟨1, .ok "Misnamed", .ok ["now"], .ok [.named "a b"], .ok false, .keep⟩

def legacyInfo : ExtensionInfo := ⟨0, none, none, true, "Legacy"⟩

def legacyDefinitions : List TagDefinition :=
  [⟨tagNow, [], none, none⟩, ⟨tagLater, [], none, none⟩, ⟨tagNow, [], none, none⟩]

/-- The first converter of the extension loads with a warning, the second one does not load. -/
def legacyExtension : Extension Behaviour :=
  ⟨.ok none, .ok true, .ok "Legacy", .ok legacyDefinitions, .ok [openChoice, misnamed, openChoice]⟩

def openComplaint : Warning :=
  ⟨.deprecation, "Converter " ++ "Open" ++
    " handles multiple tags for this extension, but does not implement a tag selector. Using '" ++
    "later" ++ "' for every object. This will be an error in a future version"⟩

theorem loading_validates_legacy :
    Declaration.Verdict ⟨"Open", ["now", "later"], [.named "Now"], false⟩ true legacyDefinitions
        (.ok [tagLater, tagNow]) [openComplaint] ∧
      (¬∃ l, (legacyExtension.load 0 none).1 = .ok l) ∧
      (legacyExtension.load 0 none).2 = [openComplaint] := by
  have hc : openChoice.Gives ⟨"Open", ["now", "later"], [.named "Now"], false⟩ :=
    ⟨rfl, rfl, rfl, rfl⟩
  have hinfo : legacyExtension.identify 0 none = .ok legacyInfo := rfl
  have hdefinitions : legacyExtension.definitions = .ok legacyDefinitions := rfl
  obtain ⟨⟨-, hverdict⟩, -, hload, -⟩ := loading_validates hc hinfo hdefinitions rfl
  refine ⟨(hverdict _ _).mp rfl, fun h => ?_, rfl⟩
  obtain ⟨l, hl⟩ := hload.mp h misnamed (by simp)
  cases hl

end TaggedGraph
