import TaggedGraph.Conversion.Behaviour
import TaggedGraph.Json.Quoted
import TaggedGraph.Json.Syntax
import TaggedGraph.Settings.Document

namespace TaggedGraph

mutual

def JsonSyntax.document : JsonSyntax → Document
  | null => .null
  | bool b => .bool b
  | number n => if n.value?.isSome then .number else .unreadable
  | string s => .text s
  | array items => .list (itemDocuments items)
  | object entries => .table (entryDocuments entries)

def JsonSyntax.itemDocuments : List JsonSyntax → List Document
  | [] => []
  | v :: r => v.document :: itemDocuments r

def JsonSyntax.entryDocuments :
    List (Option String × JsonSyntax) → List (Option String × Document)
  | [] => []
  | (key, v) :: r => (key, v.document) :: entryDocuments r

end

def Dialect.json : Dialect where
  extraItems := false
  strictNumbers := false
  isBlank
    | .null => true
    | _ => false

def readJson? {α : Type} (read : Dialect → Document → Option α) (s : String) : Option α := do
  read .json (← JsonSyntax.parse? s).document

namespace TagUri

def read? (_ : Dialect) (d : Document) : Option TagUri := do
  (TagUri.parse (← d.text?)).toOption

def jsonText (u : TagUri) : String :=
  JsonText.quote u.text

def inspect (u : TagUri) : String :=
  Inspect.call "TagUri" [Text.quote u.text]

end TagUri

namespace TagDefinition

def read? (d : Dialect) (doc : Document) : Option TagDefinition := do
  match ← doc.fields? d ["tag_uri", "schema_uris", "title", "description"] with
  | [tag, schemas, title, description] =>
    return {
      tag := ← TagUri.read? d (← tag)
      schemas := ← Document.field? Document.texts? [] schemas
      title := ← Document.optionalText? title
      description := ← Document.optionalText? description }
  | _ => none

/-- Title and description are left out where they are missing. -/
def jsonText (t : TagDefinition) : String :=
  let optional (name : String) (s : Option String) :=
    (s.map fun s => (name, JsonText.quote s)).toList
  JsonText.record ([("tag_uri", t.tag.jsonText), ("schema_uris", JsonText.strings t.schemas)] ++
    optional "title" t.title ++ optional "description" t.description)

def inspect (t : TagDefinition) : String :=
  Inspect.record "TagDefinition"
    [("tag_uri", t.tag.inspect), ("schema_uris", Inspect.strings t.schemas),
     ("title", Inspect.optional (t.title.map Text.quote)),
     ("description", Inspect.optional (t.description.map Text.quote))]

end TagDefinition

namespace PackageInfo

def read? (d : Dialect) (doc : Document) : Option PackageInfo := do
  match ← doc.fields? d ["name", "version"] with
  | [name, version] => return ⟨← (← name).text?, ← (← version).text?⟩
  | _ => none

def jsonText (p : PackageInfo) : String :=
  JsonText.record [("name", JsonText.quote p.name), ("version", JsonText.quote p.version)]

end PackageInfo

namespace WarningCategory

def read? (d : Dialect) (doc : Document) : Option WarningCategory := do
  ofName? (← doc.choice? d)

def jsonText (c : WarningCategory) : String :=
  JsonText.quote c.name

def inspect : WarningCategory → String
  | unresolvedTag => "UnresolvedTag"
  | pluginDiscovery => "PluginDiscovery"
  | deprecation => "Deprecation"

end WarningCategory

namespace ConvertOptions

def read? (d : Dialect) (doc : Document) : Option ConvertOptions := do
  match ← doc.fields? d ["suppress_unresolved_tag_warnings"] with
  | [suppress] => return ⟨← Document.field? Document.bool? false suppress⟩
  | _ => none

def jsonText (o : ConvertOptions) : String :=
  JsonText.record
    [("suppress_unresolved_tag_warnings", JsonText.bool o.suppressUnresolvedTagWarnings)]

end ConvertOptions

end TaggedGraph
