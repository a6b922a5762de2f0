import TaggedGraph.Plugin.Discovery
import TaggedGraph.Settings.Records
import TaggedGraph.Toml.Parser

namespace TaggedGraph

namespace Toml

mutual

def Value.document : Value → Document
  | .text s => .text (some s)
  | .bool b => .bool b
  | .number => .number
  | .unreadable => .unreadable
  | .moment => .moment
  | .array items => .list (itemDocuments items)
  | .table _ entries => .table (entryDocuments entries)
  | .tables items => .list (tableDocuments items)

def itemDocuments : List Value → List Document
  | [] => []
  | v :: r => v.document :: itemDocuments r

def entryDocuments : List (String × Value) → List (Option String × Document)
  | [] => []
  | (key, v) :: r => (some key, v.document) :: entryDocuments r

def tableDocuments : List (List (String × Value)) → List Document
  | [] => []
  | es :: r => .table (entryDocuments es) :: tableDocuments r

end

end Toml

def Dialect.toml : Dialect where
  extraItems := true
  strictNumbers := true
  isBlank
    | .list [] => true
    | .table [] => true
    | _ => false

structure Config where
  convert : ConvertOptions
  silence : List WarningCategory
  disabledPackages : List String
deriving DecidableEq

namespace Config

instance : Inhabited Config := ⟨⟨default, [], []⟩⟩

def section? {α : Type} (d : Dialect) (name : String) (read : Document → Option α) (default : α)
    (doc : Document) : Option α := do
  match ← doc.fields? d [name] with
  | [field] => Document.field? read default field
  | _ => none

def categories? (d : Dialect) : Document → Option (List WarningCategory)
  | .list items => items.mapM (WarningCategory.read? d)
  | _ => none

def read? (d : Dialect) (doc : Document) : Option Config := do
  match ← doc.fields? d ["convert", "warnings", "plugins"] with
  | [convert, warnings, plugins] =>
    return {
      convert := ← Document.field? (ConvertOptions.read? d) default convert
      silence := ← Document.field? (section? d "silence" (categories? d) []) [] warnings
      disabledPackages :=
        ← Document.field? (section? d "disabled_packages" Document.texts? []) [] plugins }
  | _ => none

def jsonText (c : Config) : String :=
  JsonText.record
    [("convert", c.convert.jsonText),
     ("warnings", JsonText.record
       [("silence", JsonText.array (c.silence.map WarningCategory.jsonText))]),
     ("plugins", JsonText.record [("disabled_packages", JsonText.strings c.disabledPackages)])]

def inspect (c : Config) : String :=
  Inspect.record "TagtreeConfig"
    [("convert", c.convert.inspect),
     ("warnings", Inspect.record "WarningsSection"
       [("silence", Inspect.list (c.silence.map WarningCategory.inspect))]),
     ("plugins", Inspect.record "PluginsSection"
       [("disabled_packages", Inspect.strings c.disabledPackages)])]

/-- A collector that drops the silenced categories. -/
def warnings (c : Config) : Warnings :=
  .silencing c.silence

def discoveryOptions (c : Config) : DiscoveryOptions :=
  ⟨c.disabledPackages, c.silence⟩

def discover {β : Type} (c : Config) (source : EntryPointSource β) (ledger : Ledger) :
    Except Panic (Discovered β) × Ledger :=
  TaggedGraph.discover source c.discoveryOptions ledger

inductive Format
  | json
  | toml
deriving DecidableEq

def Format.name : Format → String
  | json => "JSON"
  | toml => "TOML"

inductive FileError
  | unreadable (path : String)
  | malformed (format : Format) (path : String)
deriving DecidableEq

def FileError.message : FileError → String
  | unreadable path => "Failed to read config file " ++ path
  | malformed format path => "Failed to parse " ++ format.name ++ " config " ++ path

/-- The last part of a path that names something. -/
def fileName (path : List Char) : Option (List Char) :=
  let parts := (Text.splitAt '/' path).filter fun p => p ≠ [] ∧ p ≠ ['.']
  match parts.getLast? with
  | some p => if p = ['.', '.'] then none else some p
  | none => none

/-- What follows the last dot of the file name, unless the dot is its first character. -/
def extension? (path : String) : Option (List Char) :=
  match (fileName path.toList).bind (Text.cutLast '.') with
  | some (_ :: _, s) => some s
  | _ => none

def formatOf (path : String) : Format :=
  if extension? path = some ['j', 's', 'o', 'n'] then .json else .toml

def parse? : Format → String → Option Config
  | .json, s => readJson? read? s
  | .toml, s => do read? .toml (.table (Toml.entryDocuments (← Toml.parse? s)))

def ofFile (path : String) (content : Option ByteArray) : Except FileError Config :=
  match content.bind String.fromUTF8? with
  | none => .error (.unreadable path)
  | some text =>
    match parse? (formatOf path) text with
    | some c => .ok c
    | none => .error (.malformed (formatOf path) path)

end Config

end TaggedGraph
