import TaggedGraph.Extension.Loaded
import TaggedGraph.Proofs.Forall2
import TaggedGraph.Proofs.Outcome

namespace TaggedGraph

variable {β : Type}

theorem TagUri.eq_of_text (u v : TagUri) (h : u.text = v.text) : u = v := by
  cases u
  cases v
  cases h
  rfl

/-- One of the declared patterns accepts the tag. -/
def Converter.declares (c : Converter β) (t : TagUri) : Bool :=
  match c.patterns with
  | .ok sources => sources.any fun source =>
    match TagPattern.parse source with
    | .ok p => p.accepts t
    | .error _ => false
  | .error _ => false

def LoadedExtension.defines (e : LoadedExtension β) (t : TagUri) : Bool :=
  e.definitions.any fun d => d.tag = t

namespace Converter

variable {c : Converter β} {info : ExtensionInfo} {definitions : List TagDefinition}
  {l : LoadedConverter β} {t : TagUri}

theorem any_parsePatterns {className : String} {sources : List String} {ps : List TagPattern}
    (h : parsePatterns className sources = .ok ps) :
    (ps.any fun p => p.accepts t) = sources.any fun source =>
      match TagPattern.parse source with
      | .ok p => p.accepts t
      | .error _ => false := by
  induction sources generalizing ps with
  | nil =>
    cases h
    rfl
  | cons source r ih =>
    unfold parsePatterns at h
    cases hsource : TagPattern.parse source with
    | error => simp [hsource] at h
    | ok p =>
      rw [hsource] at h
      obtain ⟨qs, hqs, rfl⟩ := eq_of_map_ok h
      simp [hsource, ih hqs]

theorem mem_resolve {ps : List TagPattern} : t ∈ resolve definitions ps ↔
    (definitions.any fun d => d.tag = t) ∧ ps.any fun p => p.accepts t := by
  simp only [resolve, Ascending.mem_ofList TagUri.eq_of_text, List.mem_filter, List.mem_map,
    List.any_eq_true, decide_eq_true_eq]

/-- The tags of a loaded converter are those that its extension defines and it declares. -/
theorem load_ok (h : c.load info definitions = .ok l) : l.converter = c ∧ l.extension = info ∧
    ∀ t, t ∈ l.tags ↔ (definitions.any fun d => d.tag = t) ∧ c.declares t := by
  unfold load at h
  obtain ⟨className, -, h⟩ := exists_of_bind_ok h
  obtain ⟨sources, hsources, h⟩ := exists_of_bind_ok h
  obtain ⟨ps, hps, h⟩ := exists_of_bind_ok h
  obtain ⟨types, -, h⟩ := exists_of_bind_ok h
  have hl : l = ⟨c, info, resolve definitions ps, types⟩ := by
    split at h
    · cases h
    · dsimp only at h
      split at h
      · obtain ⟨selects, -, h⟩ := exists_of_bind_ok h
        split at h
        · cases h
        · exact (Except.ok.inj h).symm
      · exact (Except.ok.inj h).symm
  subst hl
  refine ⟨rfl, rfl, fun t => ?_⟩
  rw [mem_resolve, any_parsePatterns hps, declares, mapError_eq_ok.1 hsources]

theorem loadAll_ok {cs : List (Converter β)} {ls : List (LoadedConverter β)}
    (h : (loadAll info definitions cs).1 = .ok ls) :
    List.Forall₂ (fun c l => c.load info definitions = .ok l) cs ls := by
  induction cs generalizing ls with
  | nil =>
    cases h
    exact .nil
  | cons c r ih =>
    unfold loadAll loadRecording at h
    cases hc : c.load info definitions with
    | error => simp [hc] at h
    | ok l =>
      rw [hc] at h
      obtain ⟨ls', hls', rfl⟩ := eq_of_map_ok h
      exact .cons hc (ih hls')

end Converter

theorem Extension.load_ok {e : Extension β} {serial : Nat} {package : Option PackageInfo}
    {l : LoadedExtension β} (h : (e.load serial package).1 = .ok l) :
    e.identify serial package = .ok l.info ∧ e.definitions = .ok l.definitions ∧
      ∃ cs, e.converters = .ok cs ∧
        List.Forall₂ (fun c lc => c.load l.info l.definitions = .ok lc) cs l.converters := by
  unfold load at h
  dsimp only at h
  split at h
  · cases h
  · rename_i info definitions cs hdeclared
    obtain ⟨info', hinfo, hdeclared⟩ := exists_of_bind_ok hdeclared
    obtain ⟨definitions', hdefinitions, hdeclared⟩ := exists_of_bind_ok hdeclared
    obtain ⟨cs', hcs, hdeclared⟩ := exists_of_bind_ok hdeclared
    cases hdeclared
    obtain ⟨ls, hls, rfl⟩ := eq_of_map_ok h
    exact ⟨hinfo, hdefinitions, cs, hcs, Converter.loadAll_ok hls⟩

theorem Extension.converters_ok {e : Extension β} {serial : Nat} {package : Option PackageInfo}
    {l : LoadedExtension β} (h : (e.load serial package).1 = .ok l) {c : LoadedConverter β}
    (hc : c ∈ l.converters) : c.extension = l.info ∧
      ∀ t, c.tags.contains t = (l.defines t && c.converter.declares t) := by
  obtain ⟨-, -, cs, -, hcs⟩ := load_ok h
  obtain ⟨c', -, hload⟩ := forall₂_exists_left hcs hc
  obtain ⟨rfl, hinfo, htags⟩ := Converter.load_ok hload
  refine ⟨hinfo, fun t => ?_⟩
  rw [Bool.eq_iff_iff, List.contains_iff_mem, Bool.and_eq_true]
  exact htags t

end TaggedGraph
