import Mathlib.Data.List.Find
import TaggedGraph.Proofs.Lookup

namespace TaggedGraph

variable {β : Type}

/-- The converter declares the type, directly or by its name. -/
def LoadedConverter.Declares (c : LoadedConverter β) (t : NativeType) : Prop :=
  .direct t ∈ c.types ∨ .named t.name ∈ c.types

instance (c : LoadedConverter β) (t : NativeType) : Decidable (c.Declares t) :=
  inferInstanceAs (Decidable (_ ∨ _))

def firstDeclaring (es : List (LoadedExtension β)) (t : NativeType) : Option (LoadedConverter β) :=
  (es.flatMap (·.converters)).find? fun c => c.Declares t

/-- The types there are. Each is known by its name, and what converters declare directly is among
them. -/
structure KnownTypes (es : List (LoadedExtension β)) (types : NativeType → Prop) : Prop where
  eq_of_name : ∀ t, types t → ∀ u, types u → t.name = u.name → t = u
  declared : ∀ c ∈ es.flatMap (·.converters), ∀ u, .direct u ∈ c.types → types u

theorem TypeRef.answers_iff (r q : TypeRef) : r.answers q = true ↔ r.name = q.name := by
  rw [answers, Bool.or_eq_true, decide_eq_true_iff, decide_eq_true_iff]
  exact ⟨fun h => h.elim (congrArg name) id, .inr⟩

namespace LoadedConverter

variable {c : LoadedConverter β} {t : NativeType} {q : TypeRef}

theorem handlesInstance_iff : c.handlesInstance t = true ↔ c.Declares t := by
  rw [handlesInstance, List.any_eq_true, Declares]
  constructor
  · rintro ⟨r, hr, hfits⟩
    cases r with
    | direct u =>
      obtain rfl : u = t := of_decide_eq_true hfits
      exact .inl hr
    | named name =>
      obtain rfl : t.name = name := of_decide_eq_true hfits
      exact .inr hr
  · rintro (h | h)
    · exact ⟨_, h, decide_eq_true rfl⟩
    · exact ⟨_, h, decide_eq_true rfl⟩

/-- Only the name of what is asked for counts. -/
theorem handlesType_iff {types : NativeType → Prop}
    (hname : ∀ u, types u → u.name = t.name → u = t)
    (hdeclared : ∀ u, .direct u ∈ c.types → types u) (hq : q.name = t.name) :
    c.handlesType q = true ↔ c.Declares t := by
  rw [handlesType, List.any_eq_true, Declares]
  simp only [TypeRef.answers_iff, hq]
  constructor
  · rintro ⟨r, hr, hrt⟩
    cases r with
    | direct u =>
      obtain rfl := hname u (hdeclared u hr) hrt
      exact .inl hr
    | named name =>
      obtain rfl : name = t.name := hrt
      exact .inr hr
  · rintro (h | h)
    · exact ⟨_, h, rfl⟩
    · exact ⟨_, h, rfl⟩

end LoadedConverter

namespace Registry

variable {es : List (LoadedExtension β)} {types : NativeType → Prop} {t : NativeType}

theorem converterForInstance_eq_firstDeclaring (h : Coherent es) (t : NativeType) :
    (ofExtensions es).converterForInstance t = firstDeclaring es t := by
  rw [converterForInstance, find?_converters h, firstDeclaring]
  congr 1
  funext c
  rw [Bool.eq_iff_iff, LoadedConverter.handlesInstance_iff, decide_eq_true_iff]

theorem converterForType_eq_firstDeclaring (h : Coherent es) (hknown : KnownTypes es types)
    (ht : types t) {q : TypeRef} (hq : q.name = t.name) :
    (ofExtensions es).converterForType q = firstDeclaring es t := by
  rw [converterForType, find?_converters h, firstDeclaring]
  refine List.find?_congr fun c hc => ?_
  rw [Bool.eq_iff_iff, decide_eq_true_iff]
  exact LoadedConverter.handlesType_iff (fun u hu => hknown.eq_of_name u hu t ht)
    (hknown.declared c hc) hq

end Registry

end TaggedGraph
