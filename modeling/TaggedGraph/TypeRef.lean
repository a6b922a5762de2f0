import TaggedGraph.Object.Basic
import TaggedGraph.Text.Blank

namespace TaggedGraph

/-- A named reference is compared with the names of the types it meets, so there need not be such a
type. -/
inductive TypeRef
  | direct (type : NativeType)
  | named (name : String)
deriving DecidableEq

namespace TypeRef

def name : TypeRef → String
  | direct type => type.name
  | named name => name

def isWellFormed : TypeRef → Bool
  | direct _ => true
  | named name => name ≠ "" && Text.allSolid name

def fits (r : TypeRef) (t : NativeType) : Bool :=
  match r with
  | direct type => type = t
  | named name => t.name = name

/-- A converter that declares `r` handles the type that `q` asks for. -/
def answers (r q : TypeRef) : Bool :=
  r = q || r.name = q.name

end TypeRef

end TaggedGraph
