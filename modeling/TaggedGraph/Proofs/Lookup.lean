import Mathlib.Data.List.Basic
import TaggedGraph.Proofs.FirstOfEach
import TaggedGraph.Proofs.Loaded

namespace TaggedGraph

variable {β : Type}

/-- Results of loads, each with a serial number of its own, of extensions whose converters have ids
of their own. An extension or a converter may be there more than once. -/
structure Coherent (es : List (LoadedExtension β)) : Prop where
  loaded : ∀ l ∈ es, ∃ (e : Extension β) (serial : Nat) (package : Option PackageInfo),
    (e.load serial package).1 = .ok l
  serial : ∀ l ∈ es, ∀ l' ∈ es, l.info.serial = l'.info.serial → l = l'
  id : ∀ l ∈ es, ∀ c ∈ l.converters, ∀ c' ∈ l.converters, c.converter.id = c'.converter.id →
    c.converter = c'.converter

namespace Coherent

variable {es es₁ es₂ : List (LoadedExtension β)} {l l' : LoadedExtension β}
  {c c' : LoadedConverter β}

theorem sublist (h : Coherent es) (hes : es₁.Sublist es) : Coherent es₁ where
  loaded l hl := h.loaded l (hes.subset hl)
  serial l hl l' hl' := h.serial l (hes.subset hl) l' (hes.subset hl')
  id l hl := h.id l (hes.subset hl)

theorem extension_eq (h : Coherent es) (hl : l ∈ es) (hc : c ∈ l.converters) :
    c.extension = l.info := by
  obtain ⟨e, serial, package, hload⟩ := h.loaded l hl
  exact (Extension.converters_ok hload hc).1

theorem contains_tags (h : Coherent es) (hl : l ∈ es) (hc : c ∈ l.converters) (t : TagUri) :
    c.tags.contains t = (l.defines t && c.converter.declares t) := by
  obtain ⟨e, serial, package, hload⟩ := h.loaded l hl
  exact (Extension.converters_ok hload hc).2 t

theorem eq_of_identity (h : Coherent es) (hc : c ∈ es.flatMap (·.converters))
    (hc' : c' ∈ es.flatMap (·.converters)) (hid : c.identity = c'.identity) : c = c' := by
  obtain ⟨l, hl, hc⟩ := List.mem_flatMap.1 hc
  obtain ⟨l', hl', hc'⟩ := List.mem_flatMap.1 hc'
  obtain ⟨hid, hserial⟩ := Prod.mk.inj hid
  rw [h.extension_eq hl hc, h.extension_eq hl' hc'] at hserial
  obtain rfl := h.serial l hl l' hl' hserial
  obtain ⟨e, serial, package, hload⟩ := h.loaded l hl
  obtain ⟨-, -, cs, -, hcs⟩ := Extension.load_ok hload
  obtain ⟨d, -, hd⟩ := forall₂_exists_left hcs hc
  obtain ⟨d', -, hd'⟩ := forall₂_exists_left hcs hc'
  obtain rfl := (Converter.load_ok hd).1
  obtain rfl := (Converter.load_ok hd').1
  rw [h.id l hl c hc c' hc' hid] at hd
  exact Except.ok.inj (hd.symm.trans hd')

end Coherent

/-- The converters for a tag in order of priority: their own extension defines it, and they declare
it. -/
def candidates (es : List (LoadedExtension β)) (t : TagUri) : List (LoadedConverter β) :=
  es.flatMap fun e => e.converters.filter fun c => e.defines t && c.converter.declares t

namespace Registry

variable {es es₁ es₂ : List (LoadedExtension β)}

theorem converters_ofExtensions (h : Coherent es) : (ofExtensions es).converters =
    firstOfEach LoadedConverter.identity (es.flatMap (·.converters)) :=
  firstOfEach_flatMap _ fun l hl l' hl' hserial => by rw [h.serial l hl l' hl' hserial]

theorem find?_converters (h : Coherent es) (p : LoadedConverter β → Bool) :
    (ofExtensions es).converters.find? p = (es.flatMap (·.converters)).find? p := by
  rw [converters_ofExtensions h, List.find?_eq_findSome?_guard, List.find?_eq_findSome?_guard]
  exact findSome?_firstOfEach fun c hc c' hc' hid => by rw [h.eq_of_identity hc hc' hid]

theorem definitions_ofExtensions (h : Coherent es) (p : TagDefinition → Bool) :
    (ofExtensions es).definitions.find? p = (es.flatMap (·.definitions)).find? p := by
  rw [definitions, List.find?_flatMap, List.find?_flatMap]
  exact findSome?_firstOfEach fun l hl l' hl' hserial => by rw [h.serial l hl l' hl' hserial]

theorem candidates_eq_filter (h : Coherent es) (t : TagUri) :
    candidates es t = (es.flatMap (·.converters)).filter fun c => c.tags.contains t := by
  rw [candidates, List.filter_flatMap]
  refine List.flatMap_congr fun l hl => List.filter_congr fun c hc => ?_
  exact (h.contains_tags hl hc t).symm

theorem converterForTag_ofExtensions (h : Coherent es) (t : TagUri) :
    (ofExtensions es).converterForTag t = (candidates es t).head? := by
  rw [converterForTag_eq_find?, find?_converters h, candidates_eq_filter h, List.head?_filter]

theorem definition_ofExtensions (h : Coherent es) (t : TagUri) :
    (ofExtensions es).definition t = (es.flatMap (·.definitions)).find? fun d => d.tag = t := by
  rw [definition_eq_find?, definitions_ofExtensions h]
  congr 1
  funext d
  simp [eq_comm]

theorem converterForTag_eq_none_iff (h : Coherent es) (t : TagUri) :
    (ofExtensions es).converterForTag t = none ↔
      ∀ e ∈ es, e.defines t → ∀ c ∈ e.converters, c.converter.declares t = false := by
  rw [converterForTag_ofExtensions h, List.head?_eq_none_iff, candidates]
  simp only [List.flatMap_eq_nil_iff, List.filter_eq_nil_iff, Bool.and_eq_true, not_and,
    Bool.not_eq_true]
  grind

/-- The first registered answers every question: for a tag the first converter whose extension
defines it and that declares it, among all converters of all extensions in order, and what is
registered later is asked only where there was no answer. -/
theorem first_registered_wins (h : Coherent es) :
    (∀ t, (ofExtensions es).converterForTag t = (candidates es t).head? ∧
      ((ofExtensions es).converterForTag t = none ↔
        ∀ e ∈ es, e.defines t → ∀ c ∈ e.converters, c.converter.declares t = false) ∧
      (ofExtensions es).handlesTag t = ((ofExtensions es).converterForTag t).isSome ∧
      (ofExtensions es).definition t =
        (es.flatMap (·.definitions)).find? fun d => d.tag = t) ∧
    ((ofExtensions es).converters.map LoadedConverter.identity =
        ((es.flatMap (·.converters)).map LoadedConverter.identity).eraseDups ∧
      ∀ c, c ∈ (ofExtensions es).converters ↔ c ∈ es.flatMap (·.converters)) ∧
    ∀ es₁ es₂, es = es₁ ++ es₂ →
      (∀ t, (ofExtensions es).converterForTag t =
        ((ofExtensions es₁).converterForTag t).or ((ofExtensions es₂).converterForTag t)) ∧
      (∀ q, (ofExtensions es).converterForType q =
        ((ofExtensions es₁).converterForType q).or ((ofExtensions es₂).converterForType q)) ∧
      (∀ type, (ofExtensions es).converterForInstance type =
        ((ofExtensions es₁).converterForInstance type).or
          ((ofExtensions es₂).converterForInstance type)) ∧
      ∀ t, (ofExtensions es).definition t =
        ((ofExtensions es₁).definition t).or ((ofExtensions es₂).definition t) := by
  refine ⟨fun t => ⟨converterForTag_ofExtensions h t, converterForTag_eq_none_iff h t,
    handlesTag_eq_isSome _ t, definition_ofExtensions h t⟩, ⟨?_, fun c => ?_⟩, ?_⟩
  · rw [converters_ofExtensions h, map_firstOfEach]
  · rw [converters_ofExtensions h]
    exact mem_firstOfEach_iff fun c hc c' hc' => h.eq_of_identity hc hc'
  rintro es₁ es₂ rfl
  have h₁ : Coherent es₁ := h.sublist (List.sublist_append_left _ _)
  have h₂ : Coherent es₂ := h.sublist (List.sublist_append_right _ _)
  have hfind (p : LoadedConverter β → Bool) : (ofExtensions (es₁ ++ es₂)).converters.find? p =
      ((ofExtensions es₁).converters.find? p).or ((ofExtensions es₂).converters.find? p) := by
    rw [find?_converters h, find?_converters h₁, find?_converters h₂, List.flatMap_append,
      List.find?_append]
  refine ⟨fun t => ?_, fun q => hfind _, fun type => hfind _, fun t => ?_⟩
  · rw [converterForTag_eq_find?, converterForTag_eq_find?, converterForTag_eq_find?, hfind]
  · rw [definition_ofExtensions h, definition_ofExtensions h₁, definition_ofExtensions h₂,
      List.flatMap_append, List.find?_append]

end Registry

def tagA : TagUri := ⟨"t:a", by decide, by decide⟩
def tagB : TagUri := ⟨"t:b", by decide, by decide⟩

def anyTag : Converter Unit := ⟨0, .ok "AnyTag", .ok ["t:*"], .ok [], .ok true, ()⟩
def onlyB : Converter Unit := ⟨0, .ok "OnlyB", .ok ["t:b"], .ok [], .ok false, ()⟩

def firstInfo : ExtensionInfo := ⟨0, none, none, false, "First"⟩
def secondInfo : ExtensionInfo := ⟨1, none, none, false, "Second"⟩

def firstExtension : LoadedExtension Unit :=
  ⟨firstInfo, [⟨tagA, [], none, none⟩],
    [⟨anyTag, firstInfo, [tagA], []⟩, ⟨anyTag, firstInfo, [tagA], []⟩]⟩

def secondExtension : LoadedExtension Unit :=
  ⟨secondInfo, [⟨tagA, [], none, none⟩, ⟨tagB, [], none, none⟩],
    [⟨onlyB, secondInfo, [tagB], []⟩, ⟨{ anyTag with id := 1 }, secondInfo, [tagA, tagB], []⟩]⟩

def overlapping : List (LoadedExtension Unit) :=
  [firstExtension, secondExtension, firstExtension]

theorem firstExtension_loaded :
    ((⟨.ok none, .ok false, .ok "First", .ok [⟨tagA, [], none, none⟩], .ok [anyTag, anyTag]⟩ :
      Extension Unit).load 0 none).1 = .ok firstExtension :=
  rfl

theorem secondExtension_loaded :
    ((⟨.ok none, .ok false, .ok "Second", .ok [⟨tagA, [], none, none⟩, ⟨tagB, [], none, none⟩],
      .ok [onlyB, { anyTag with id := 1 }]⟩ : Extension Unit).load 1 none).1 =
        .ok secondExtension :=
  rfl

theorem overlapping_coherent : Coherent overlapping where
  loaded := by
    simp only [overlapping, List.forall_mem_cons, List.not_mem_nil, false_imp_iff, implies_true,
      and_true]
    exact ⟨⟨_, 0, none, firstExtension_loaded⟩, ⟨_, 1, none, secondExtension_loaded⟩,
      ⟨_, 0, none, firstExtension_loaded⟩⟩
  serial := by simp [overlapping, firstExtension, secondExtension, firstInfo, secondInfo]
  id := by simp [overlapping, firstExtension, secondExtension, anyTag, onlyB]

theorem first_registered_wins_overlapping :
    Coherent overlapping ∧
      (∀ t, (Registry.ofExtensions overlapping).converterForTag t =
        (candidates overlapping t).head?) ∧
      ((Registry.ofExtensions overlapping).converterForTag tagA).map (·.identity) = some (0, 0) ∧
      ((Registry.ofExtensions overlapping).converterForTag tagB).map (·.identity) = some (0, 1) ∧
      (Registry.ofExtensions overlapping).converters.map (·.identity) =
        [(0, 0), (0, 1), (1, 1)] :=
  ⟨overlapping_coherent,
    fun t => ((Registry.first_registered_wins overlapping_coherent).1 t).1,
    by decide +kernel, by decide +kernel, by decide +kernel⟩

end TaggedGraph
