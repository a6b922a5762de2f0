import TaggedGraph.Extension.Loaded
import TaggedGraph.Resource

namespace TaggedGraph

variable {β : Type}

inductive Group
  | extensions
  | resourceMappings
deriving DecidableEq

namespace Group

def text : Group → String
  | extensions => "tagtree.extensions"
  | resourceMappings => "tagtree.resource_mappings"

def name : Group → String
  | extensions => "Extensions"
  | resourceMappings => "ResourceMappings"

end Group

inductive PluginItem (β : Type)
  | extension (e : Extension β)
  | mapping (m : ResourceMapping)

namespace PluginItem

def describe : PluginItem β → Except Panic String
  | extension e => return "extension " ++ (← e.className)
  | mapping m => return "resource mapping " ++ (← m.className)

end PluginItem

def Panic.text (p : Panic) : String :=
  p.message.getD "unknown panic payload"

/-- The errors of factories. An error of other code has a text of its own, and may panic when it is
asked for it. -/
inductive PluginError
  | failed (message : String)
  | missingDependency (message : String)
  | panicked (message : String)
  | other (message : Except Panic String)

namespace PluginError

def kind : PluginError → String
  | failed _ => "Failed"
  | missingDependency _ => "MissingDependency"
  | panicked _ => "Panicked"
  | other _ => "Error"

def message : PluginError → Except Panic String
  | failed message => .ok message
  | missingDependency message => .ok ("missing dependency: " ++ message)
  | panicked message => .ok message
  | other message => message

def ofPanic (p : Panic) : PluginError :=
  panicked p.text

def text (e : PluginError) : Except Panic String :=
  return e.kind ++ ": " ++ (← e.message)

end PluginError

/-- What a call of a factory comes to. -/
inductive Produced (β : Type)
  | items (items : List (PluginItem β))
  | failed (e : PluginError)
  | panicked (p : Panic)

/-- The factory is told how often it was called before. -/
structure EntryPoint (β : Type) where
  id : Nat
  name : String
  group : Group
  package : Option PackageInfo
  factory : Nat → Produced β

namespace EntryPoint

def describe (p : EntryPoint β) : String :=
  match p.package with
  | some package => package.name ++ " plugin " ++ p.name
  | none => "plugin " ++ p.name

def inspect (p : EntryPoint β) : String :=
  Inspect.openRecord "EntryPoint"
    [("name", Text.quote p.name), ("group", p.group.name),
     ("package", Inspect.optional (p.package.map PackageInfo.inspect))]

end EntryPoint

abbrev EntryPoints (β : Type) := List (EntryPoint β)

namespace EntryPoints

def ofGroup (ps : EntryPoints β) (g : Group) : EntryPoints β :=
  ps.filter fun p => p.group = g

def register (ps : EntryPoints β) (p : EntryPoint β) : EntryPoints β :=
  ps ++ [p]

def unregister (ps : EntryPoints β) (name : String) : EntryPoints β :=
  ps.filter fun p => p.name ≠ name

end EntryPoints

/-- The entry points of a group, in the order in which they are loaded. -/
abbrev EntryPointSource (β : Type) := Group → EntryPoints β

end TaggedGraph
