namespace TaggedGraph

inductive WarningCategory
  | unresolvedTag
  | pluginDiscovery
  | deprecation
deriving DecidableEq

namespace WarningCategory

def all : List WarningCategory :=
  [unresolvedTag, pluginDiscovery, deprecation]

def name : WarningCategory → String
  | unresolvedTag => "unresolved-tag"
  | pluginDiscovery => "plugin-discovery"
  | deprecation => "deprecation"

def ofName? (s : String) : Option WarningCategory :=
  all.find? fun c => c.name = s

end WarningCategory

structure Warning where
  category : WarningCategory
  message : String
deriving DecidableEq

def Warning.text (w : Warning) : String :=
  "[" ++ w.category.name ++ "] " ++ w.message

/-- The warnings recorded so far, and the categories that are not recorded. -/
structure Warnings where
  records : List Warning
  silenced : List WarningCategory
deriving DecidableEq

namespace Warnings

def silencing (categories : List WarningCategory) : Warnings :=
  ⟨[], categories⟩

instance : EmptyCollection Warnings := ⟨silencing []⟩
instance : Inhabited Warnings := ⟨∅⟩

def silence (ws : Warnings) (c : WarningCategory) : Warnings :=
  { ws with silenced := c :: ws.silenced }

def isSilenced (ws : Warnings) (c : WarningCategory) : Bool :=
  ws.silenced.contains c

def keep (ws : Warnings) (l : List Warning) : List Warning :=
  l.filter fun w => !ws.isSilenced w.category

def append (ws : Warnings) (l : List Warning) : Warnings :=
  { ws with records := ws.records ++ ws.keep l }

@[simp] theorem append_nil (ws : Warnings) : ws.append [] = ws := by
  simp [append, keep]

@[simp] theorem append_append (ws : Warnings) (l l' : List Warning) :
    (ws.append l).append l' = ws.append (l ++ l') := by
  simp [append, keep, isSilenced]

def warn (ws : Warnings) (c : WarningCategory) (message : String) : Warnings :=
  ws.append [⟨c, message⟩]

def absorb (ws other : Warnings) : Warnings :=
  ws.append other.records

def ofCategory (ws : Warnings) (c : WarningCategory) : List Warning :=
  ws.records.filter fun w => w.category = c

end Warnings

end TaggedGraph
