import TaggedGraph.Ascending
import TaggedGraph.Extension.Basic
import TaggedGraph.Warning

namespace TaggedGraph

variable {β γ : Type}

inductive ConfigurationError
  | malformedTagPattern (converter : String) (source : TagError)
  | typeMismatch (converter typeName : String)
  | ambiguousTags (converter : String) (tags : List TagUri)
deriving DecidableEq

def ConfigurationError.message : ConfigurationError → String
  | malformedTagPattern converter source =>
    "Converter " ++ converter ++ " declares a malformed tag pattern: " ++ source.message
  | typeMismatch converter typeName =>
    "Converter " ++ converter ++ " declares an invalid type '" ++ typeName ++ "'"
  | ambiguousTags converter tags =>
    "Converter " ++ converter ++ " handles multiple tags for this extension (" ++
      Inspect.commas (tags.map TagUri.text) ++ "), but does not implement a tag selector"

inductive LoadFailure
  | panicked (panic : Panic)
  | invalid (error : ConfigurationError)
deriving DecidableEq

/-- A converter with the tags it resolved, in ascending order. -/
structure LoadedConverter (β : Type) where
  converter : Converter β
  extension : ExtensionInfo
  tags : List TagUri
  types : List TypeRef

namespace LoadedConverter

def className (c : LoadedConverter β) : String :=
  match c.converter.className with
  | .ok name => name
  | .error _ => ""

/-- The same converter of the same loaded extension. -/
def identity (c : LoadedConverter β) : Nat × Nat :=
  (c.converter.id, c.extension.serial)

def handlesType (c : LoadedConverter β) (r : TypeRef) : Bool :=
  c.types.any fun t => t.answers r

def handlesInstance (c : LoadedConverter β) (t : NativeType) : Bool :=
  c.types.any fun r => r.fits t

def inspect (c : LoadedConverter β) : String :=
  "<ConverterProxy class: " ++ c.className ++ " package: " ++
    PackageInfo.describe c.extension.package ++ ">"

def map (f : β → γ) (c : LoadedConverter β) : LoadedConverter γ :=
  { c with converter := { c.converter with behaviour := f c.converter.behaviour } }

/-- The complaint about several tags without a choice among them. -/
def deprecation? (c : LoadedConverter β) : Option Warning :=
  match c.tags with
  | first :: _ :: _ =>
    if c.converter.selects then none
    else some ⟨.deprecation, "Converter " ++ c.className ++
      " handles multiple tags for this extension, but does not implement a tag selector. Using '" ++
      first.text ++ "' for every object. This will be an error in a future version"⟩
  | _ => none

end LoadedConverter

namespace Converter

def parsePatterns (className : String) : List String → Except LoadFailure (List TagPattern)
  | [] => .ok []
  | s :: r =>
    match TagPattern.parse s with
    | .ok p => (p :: ·) <$> parsePatterns className r
    | .error e => .error (.invalid (.malformedTagPattern className e))

/-- The defined tags that some pattern accepts, each once and in ascending order. -/
def resolve (definitions : List TagDefinition) (patterns : List TagPattern) : List TagUri :=
  Ascending.ofList TagUri.text
    ((definitions.map TagDefinition.tag).filter fun u => patterns.any (·.accepts u))

/-- Whether there is a selector is asked only of a converter of several tags. -/
def load (c : Converter β) (info : ExtensionInfo) (definitions : List TagDefinition) :
    Except LoadFailure (LoadedConverter β) := do
  let className ← c.className.mapError .panicked
  let patterns ← parsePatterns className (← c.patterns.mapError .panicked)
  let types ← c.types.mapError LoadFailure.panicked
  match types.find? fun t => !t.isWellFormed with
  | some bad => throw (.invalid (.typeMismatch className bad.name))
  | none =>
    let tags := resolve definitions patterns
    if tags.length > 1 then
      let selects ← c.selector.mapError LoadFailure.panicked
      if !selects && !info.legacy then
        throw (.invalid (.ambiguousTags className tags))
    return ⟨c, info, tags, types⟩

/-- The loaded converter, or why it is refused, and the warnings that are recorded. -/
def loadRecording (c : Converter β) (info : ExtensionInfo) (definitions : List TagDefinition) :
    Except LoadFailure (LoadedConverter β) × List Warning :=
  match c.load info definitions with
  | .error e => (.error e, [])
  | .ok l => (.ok l, l.deprecation?.toList)

/-- Loads converters up to the first that fails. The warnings are those of the loaded ones. -/
def loadAll (info : ExtensionInfo) (definitions : List TagDefinition) :
    List (Converter β) → Except LoadFailure (List (LoadedConverter β)) × List Warning
  | [] => (.ok [], [])
  | c :: r =>
    match c.loadRecording info definitions with
    | (.error e, met) => (.error e, met)
    | (.ok l, met) =>
      let (ls, ws) := loadAll info definitions r
      ((l :: ·) <$> ls, met ++ ws)

end Converter

structure LoadedExtension (β : Type) where
  info : ExtensionInfo
  definitions : List TagDefinition
  converters : List (LoadedConverter β)

namespace LoadedExtension

def isIdentifiedBy (e : LoadedExtension β) (id : String) : Bool :=
  e.info.uri = some id || e.info.packageName = some id

def inspect (e : LoadedExtension β) : String :=
  "<ExtensionProxy URI: " ++ e.info.uri.getD "(none)" ++ " class: " ++ e.info.className ++
    " package: " ++ PackageInfo.describe e.info.package ++ " legacy: " ++
    Inspect.bool e.info.legacy ++ ">"

def map (f : β → γ) (e : LoadedExtension β) : LoadedExtension γ :=
  { e with converters := e.converters.map (·.map f) }

end LoadedExtension

namespace Extension

/-- What an extension says of itself, before its converters are looked at. -/
def identify (e : Extension β) (serial : Nat) (package : Option PackageInfo) :
    Except Panic ExtensionInfo := do
  return ⟨serial, ← e.uri, package, ← e.legacy, ← e.className⟩

def load (e : Extension β) (serial : Nat) (package : Option PackageInfo) :
    Except LoadFailure (LoadedExtension β) × List Warning :=
  let declared : Except Panic (ExtensionInfo × List TagDefinition × List (Converter β)) := do
    return (← e.identify serial package, ← e.definitions, ← e.converters)
  match declared with
  | .error p => (.error (.panicked p), [])
  | .ok (info, definitions, converters) =>
    let (ls, ws) := Converter.loadAll info definitions converters
    ((⟨info, definitions, ·⟩) <$> ls, ws)

end Extension

end TaggedGraph
