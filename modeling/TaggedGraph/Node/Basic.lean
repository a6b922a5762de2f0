import TaggedGraph.Binary64
import TaggedGraph.Heap
import TaggedGraph.OrderedMap
import TaggedGraph.Tag.Uri

namespace TaggedGraph

inductive Scalar
  | null
  | bool (b : Bool)
  | int (i : Int64)
  | float (x : Binary64)
  | string (s : String)
  | binary (b : List UInt8)
deriving DecidableEq

abbrev NodeId := Nat

inductive Content
  | mapping (entries : OrderedMap NodeId)
  | sequence (items : List NodeId)
  | scalar (s : Scalar)
deriving DecidableEq

namespace Content

instance : Inhabited Content := ⟨.scalar .null⟩

def kind : Content → String
  | mapping _ => "mapping"
  | sequence _ => "sequence"
  | scalar _ => "scalar"

def children : Content → List NodeId
  | mapping entries => entries.values
  | sequence items => items
  | scalar _ => []

end Content

/-- A node has identity: it may stand at several places and may contain itself. -/
structure Node where
  tag : Option TagUri
  content : Content
deriving DecidableEq

instance : Inhabited Node := ⟨⟨none, default⟩⟩

abbrev NodeGraph := Heap Node

namespace NodeGraph

def tag (g : NodeGraph) (n : NodeId) : Option TagUri :=
  (g.read n).tag

def content (g : NodeGraph) (n : NodeId) : Content :=
  (g.read n).content

def children (g : NodeGraph) (n : NodeId) : List NodeId :=
  (g.content n).children

def new (g : NodeGraph) (c : Content) : NodeId × NodeGraph :=
  g.alloc ⟨none, c⟩

def setTag (g : NodeGraph) (n : NodeId) (t : Option TagUri) : NodeGraph :=
  g.write n { g.read n with tag := t }

def setContent (g : NodeGraph) (n : NodeId) (c : Content) : NodeGraph :=
  g.write n { g.read n with content := c }

/-- Gives node `n` the tag and the content of node `m`; it stays the same node. -/
def assume (g : NodeGraph) (n m : NodeId) : NodeGraph :=
  g.write n (g.read m)

/-- Adds a child to a sequence, and tells whether `n` is one. -/
def push (g : NodeGraph) (n child : NodeId) : Bool × NodeGraph :=
  match g.content n with
  | .sequence items => (true, g.setContent n (.sequence (items ++ [child])))
  | _ => (false, g)

def insert (g : NodeGraph) (n : NodeId) (key : String) (child : NodeId) : Bool × NodeGraph :=
  match g.content n with
  | .mapping entries => (true, g.setContent n (.mapping (entries.insert key child)))
  | _ => (false, g)

def get? (g : NodeGraph) (n : NodeId) (key : String) : Option NodeId :=
  match g.content n with
  | .mapping entries => entries.get? key
  | _ => none

def at? (g : NodeGraph) (n : NodeId) (index : Nat) : Option NodeId :=
  match g.content n with
  | .sequence items => items[index]?
  | _ => none

inductive Reachable (g : NodeGraph) : NodeId → NodeId → Prop
  | refl (n : NodeId) : Reachable g n n
  | step {n m k : NodeId} : Reachable g n m → k ∈ g.children m → Reachable g n k

end NodeGraph

end TaggedGraph
