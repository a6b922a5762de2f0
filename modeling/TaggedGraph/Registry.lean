import TaggedGraph.Extension.Loaded

namespace TaggedGraph

variable {β γ : Type}

/-- The elements whose key no element before them has. -/
def firstOfEach {κ α : Type} [DecidableEq κ] (key : α → κ) : List α → List α
  | [] => []
  | x :: r => x :: (firstOfEach key r).filter fun y => key y ≠ key x

/-- A position for each key. -/
abbrev Index (κ : Type) := List (κ × Nat)

namespace Index

variable {κ α : Type} [DecidableEq κ]

/-- A key that has a position keeps it. -/
def enter (i : Nat) (index : Index κ) (k : κ) : Index κ :=
  if (index.lookup k).isSome then index else (k, i) :: index

def enterAll (keys : α → List κ) : (start : Nat) → List α → Index κ → Index κ
  | _, [], index => index
  | start, x :: r, index => enterAll keys (start + 1) r ((keys x).foldl (enter start) index)

/-- Where in the list each key stands first. -/
def ofList (keys : α → List κ) (l : List α) : Index κ :=
  enterAll keys 0 l []

theorem lookup_enter (i : Nat) (index : Index κ) (k j : κ) :
    (index.enter i k).lookup j = (index.lookup j).or (if j = k then some i else none) := by
  unfold enter
  split
  · rename_i h
    obtain ⟨p, hp⟩ := Option.isSome_iff_exists.1 h
    by_cases hj : j = k
    · rw [hj, hp]; rfl
    · rw [if_neg hj, Option.or_none]
  · rename_i h
    rw [List.lookup_cons]
    by_cases hj : j = k
    · subst hj
      rw [beq_self_eq_true, if_pos rfl, Option.not_isSome_iff_eq_none.1 h]; rfl
    · rw [beq_false_of_ne hj, if_neg hj, Option.or_none]

theorem lookup_foldl_enter (i : Nat) (ks : List κ) (index : Index κ) (j : κ) :
    (ks.foldl (enter i) index).lookup j =
      (index.lookup j).or (if ks.contains j then some i else none) := by
  induction ks generalizing index with
  | nil => simp
  | cons k ks ih =>
    rw [List.foldl_cons, ih, lookup_enter, Option.or_assoc]
    by_cases hj : j = k <;> simp [hj]

theorem lookup_enterAll (keys : α → List κ) (start : Nat) (l : List α) (index : Index κ) (j : κ) :
    (enterAll keys start l index).lookup j =
      (index.lookup j).or ((l.findIdx? fun x => (keys x).contains j).map (· + start)) := by
  induction l generalizing start index with
  | nil => simp [enterAll]
  | cons x r ih =>
    rw [enterAll, ih, lookup_foldl_enter, Option.or_assoc, List.findIdx?_cons]
    cases (keys x).contains j with
    | true => simp
    | false => simp [Function.comp_def, Nat.add_comm, Nat.add_left_comm]

theorem lookup_ofList (keys : α → List κ) (l : List α) (k : κ) :
    (ofList keys l).lookup k = l.findIdx? fun x => (keys x).contains k := by
  simp [ofList, lookup_enterAll]

/-- What stands at the position of a key is the first element that has it. -/
theorem bind_lookup_ofList (keys : α → List κ) (l : List α) (k : κ) :
    ((ofList keys l).lookup k).bind (l[·]?) = l.find? fun x => (keys x).contains k := by
  rw [lookup_ofList, List.find?_eq_bind_findIdx?_getElem?]

end Index

/-- Active extensions in order of priority. Where several answer, the first one wins. -/
structure Registry (β : Type) where
  extensions : List (LoadedExtension β)
  converters : List (LoadedConverter β)

namespace Registry

def ofExtensions (es : List (LoadedExtension β)) : Registry β :=
  let extensions := firstOfEach (·.info.serial) es
  ⟨extensions, firstOfEach LoadedConverter.identity (extensions.flatMap (·.converters))⟩

def empty : Registry β := ofExtensions []

def definitions (r : Registry β) : List TagDefinition :=
  r.extensions.flatMap (·.definitions)

/-- Where the converters for each tag stand. -/
def tagIndex (r : Registry β) : Index TagUri :=
  .ofList (·.tags) r.converters

def definitionIndex (r : Registry β) : Index TagUri :=
  .ofList (fun d => [d.tag]) r.definitions

def converterForTag (r : Registry β) (t : TagUri) : Option (LoadedConverter β) :=
  (r.tagIndex.lookup t).bind (r.converters[·]?)

def converterForType (r : Registry β) (q : TypeRef) : Option (LoadedConverter β) :=
  r.converters.find? fun c => c.handlesType q

def converterForInstance (r : Registry β) (t : NativeType) : Option (LoadedConverter β) :=
  r.converters.find? fun c => c.handlesInstance t

def handlesTag (r : Registry β) (t : TagUri) : Bool :=
  (r.tagIndex.lookup t).isSome

def handlesType (r : Registry β) (q : TypeRef) : Bool :=
  (r.converterForType q).isSome

def definition (r : Registry β) (t : TagUri) : Option TagDefinition :=
  (r.definitionIndex.lookup t).bind (r.definitions[·]?)

theorem converterForTag_eq_find? (r : Registry β) (t : TagUri) :
    r.converterForTag t = r.converters.find? fun c => c.tags.contains t :=
  Index.bind_lookup_ofList ..

theorem mem_of_converterForTag {r : Registry β} {t : TagUri} {c : LoadedConverter β}
    (h : r.converterForTag t = some c) : c ∈ r.converters := by
  rw [converterForTag_eq_find?] at h
  exact List.mem_of_find?_eq_some h

theorem handlesTag_eq_isSome (r : Registry β) (t : TagUri) :
    r.handlesTag t = (r.converterForTag t).isSome := by
  rw [handlesTag, tagIndex, Index.lookup_ofList, List.findIdx?_isSome, converterForTag_eq_find?,
    List.isSome_find?]

theorem definition_eq_find? (r : Registry β) (t : TagUri) :
    r.definition t = r.definitions.find? fun d => [d.tag].contains t :=
  Index.bind_lookup_ofList ..

def map (f : β → γ) (r : Registry β) : Registry γ :=
  ⟨r.extensions.map (·.map f), r.converters.map (·.map f)⟩

def inspect (r : Registry β) : String :=
  Inspect.record "ExtensionRegistry"
    [("extensions", Inspect.list (r.extensions.map (·.inspect))),
     ("converters", Nat.repr r.converters.length)]

end Registry

end TaggedGraph
