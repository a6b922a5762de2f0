import TaggedGraph.Tag.Pattern
import TaggedGraph.Text.Inspect
import TaggedGraph.TypeRef

namespace TaggedGraph

/-- Plugin code gave up, perhaps with a message. -/
structure Panic where
  message : Option String
deriving DecidableEq

structure PackageInfo where
  name : String
  version : String
deriving DecidableEq

namespace PackageInfo

def text (p : PackageInfo) : String :=
  p.name ++ "==" ++ p.version

def describe : Option PackageInfo → String
  | some p => p.text
  | none => "(none)"

def inspect (p : PackageInfo) : String :=
  Inspect.record "PackageInfo" [("name", Text.quote p.name), ("version", Text.quote p.version)]

end PackageInfo

structure TagDefinition where
  tag : TagUri
  schemas : List String
  title : Option String
  description : Option String
deriving DecidableEq

/-- Converters are told apart by `id` within the extension that declares them. One with a `selector`
chooses the tag of each object itself. -/
structure Converter (β : Type) where
  id : Nat
  className : Except Panic String
  patterns : Except Panic (List String)
  types : Except Panic (List TypeRef)
  selector : Except Panic Bool
  behaviour : β

def Converter.selects {β : Type} (c : Converter β) : Bool :=
  match c.selector with
  | .ok selects => selects
  | .error _ => false

structure Extension (β : Type) where
  uri : Except Panic (Option String)
  legacy : Except Panic Bool
  className : Except Panic String
  definitions : Except Panic (List TagDefinition)
  converters : Except Panic (List (Converter β))

/-- The identity of a loaded extension. Every load has a serial number of its own. -/
structure ExtensionInfo where
  serial : Nat
  uri : Option String
  package : Option PackageInfo
  legacy : Bool
  className : String
deriving DecidableEq

namespace ExtensionInfo

def packageName (i : ExtensionInfo) : Option String :=
  i.package.map PackageInfo.name

def inspect (i : ExtensionInfo) : String :=
  Inspect.record "ExtensionInfo"
    [("extension_uri", Inspect.optional (i.uri.map Text.quote)),
     ("package", Inspect.optional (i.package.map PackageInfo.inspect)),
     ("legacy", Inspect.bool i.legacy),
     ("class_name", Text.quote i.className)]

end ExtensionInfo

end TaggedGraph
