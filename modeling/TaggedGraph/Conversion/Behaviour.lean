import TaggedGraph.Object.Inspect
import TaggedGraph.Registry

namespace TaggedGraph

structure ConvertOptions where
  suppressUnresolvedTagWarnings : Bool
deriving DecidableEq

namespace ConvertOptions

instance : Inhabited ConvertOptions := ⟨⟨false⟩⟩

def inspect (o : ConvertOptions) : String :=
  Inspect.record "ConvertOptions"
    [("suppress_unresolved_tag_warnings", Inspect.bool o.suppressUnresolvedTagWarnings)]

end ConvertOptions

/-- Steps on the object graph. What a failing step has written stays written. -/
abbrev GraphM := ExceptT String (StateM ObjectGraph)

structure Context where
  registry : Registry Unit
  options : ConvertOptions

def Context.inspect (c : Context) : String :=
  Inspect.record "SerializationContext"
    [("registry", c.registry.inspect), ("options", c.options.inspect)]

inductive Phase
  | notStarted
  | placeholderEmitted
  | finished
deriving DecidableEq

def Phase.name : Phase → String
  | notStarted => "NotStarted"
  | placeholderEmitted => "PlaceholderEmitted"
  | finished => "Finished"

inductive DeferredError
  | notEmitted
  | finishedTwice
  | failed (message : String)
deriving DecidableEq

def DeferredError.message : DeferredError → String
  | notEmitted => "deferred conversion finished before its placeholder was emitted"
  | finishedTwice => "deferred conversion finished twice"
  | failed message => message

/-- An object that is handed out before it is complete. -/
structure Deferred where
  placeholder : Object
  completion : GraphM Unit
  phase : Phase

namespace Deferred

def new (placeholder : Object) (completion : GraphM Unit) : Deferred :=
  ⟨placeholder, completion, .notStarted⟩

def emit (d : Deferred) : Object × Deferred :=
  (d.placeholder, { d with phase :=
    if d.phase = .notStarted then .placeholderEmitted else d.phase })

/-- Runs the completion, at most once and only after the placeholder was handed out. -/
def finish (d : Deferred) (g : ObjectGraph) : Except DeferredError Unit × Deferred × ObjectGraph :=
  match d.phase with
  | .notStarted => (.error .notEmitted, d, g)
  | .finished => (.error .finishedTwice, d, g)
  | .placeholderEmitted =>
    let (r, g) := d.completion.run g
    (r.mapError .failed, { d with phase := .finished }, g)

def inspect (d : Deferred) (g : ObjectGraph) : String :=
  Inspect.record "Deferred"
    [("placeholder", Text.quote (g.kind d.placeholder)), ("phase", d.phase.name)]

end Deferred

inductive FromTree
  | ready (o : Object)
  | deferred (d : Deferred)

def FromTree.inspect? (g : ObjectGraph) : FromTree → Option String
  | ready o => return Inspect.call "Ready" [← g.inspect? o]
  | deferred d => some (Inspect.call "Deferred" [d.inspect g])

structure Behaviour where
  selectTag : Context → ObjectGraph → Object → List TagUri → Option TagUri
  toTree : Context → Object → Option TagUri → GraphM Object
  fromTree : Context → Object → TagUri → GraphM FromTree

structure Session where
  registry : Registry Behaviour
  options : ConvertOptions

def Session.context (s : Session) : Context :=
  ⟨s.registry.map fun _ => (), s.options⟩

/-- The tag to write an object with: the converter's choice if it chooses, else its least tag. -/
def LoadedConverter.selectTag (c : LoadedConverter Behaviour) (ctx : Context) (g : ObjectGraph)
    (o : Object) : Option TagUri :=
  if c.converter.selects then c.converter.behaviour.selectTag ctx g o c.tags else c.tags.head?

inductive ConversionError
  | unrepresentable (typeName : String)
  | invalidTreeValue (converter kind : String)
  | converterFailed (tag : Option TagUri) (converter message : String)
deriving DecidableEq

namespace ConversionError

def tagText : Option TagUri → String
  | some t => t.text
  | none => "(none)"

def message : ConversionError → String
  | unrepresentable typeName => typeName ++ " is not serializable by tagtree"
  | invalidTreeValue converter kind =>
    "Converter " ++ converter ++ " returned an invalid tree value of kind " ++ kind
  | converterFailed tag converter message =>
    "Converter " ++ converter ++ " failed for tag " ++ tagText tag ++ ": " ++ message

end ConversionError

/-- Why a conversion has no result: it failed, or it went deeper than it was allowed to. -/
inductive Halt
  | failed (error : ConversionError)
  | tooDeep
deriving DecidableEq

end TaggedGraph
