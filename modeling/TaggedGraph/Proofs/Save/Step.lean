import TaggedGraph.Conversion.Save
import TaggedGraph.Proofs.Outcome
import TaggedGraph.Proofs.Walk

namespace TaggedGraph

open Traversal Event

def Object.scalar? : Object → Option Scalar
  | null => some .null
  | bool b => some (.bool b)
  | int i => some (.int i)
  | float x => some (.float x)
  | string s => some (.string s)
  | bytes b => some (.binary b)
  | ref _ => none
  | pending _ => none

namespace Source

def parts : Source → List Object
  | list items => items
  | map entries => entries.values
  | answer _ raw => [raw]

/-- The content that a node begins with. -/
def blank : Source → Content
  | list _ => .sequence []
  | map _ => .mapping ∅
  | answer _ _ => .scalar .null

def put (n m : NodeId) (index : Nat) (g : NodeGraph) : Source → NodeGraph
  | list _ => (g.push n m).2
  | map entries => (g.insert n (entries.keys.getD index "") m).2
  | answer none _ => g.assume n m
  | answer (some t) _ => (g.assume n m).setTag n (some t)

end Source

namespace SaveState

/-- The parts of an object that its node is made from. -/
def links (s : SaveState) : Object → List Object
  | .ref id => ((s.sources.lookup id).map Source.parts).getD []
  | _ => []

/-- The node that a list, map or instance has, and that a primitive gets next. -/
def nodeId (s : SaveState) : Object → NodeId
  | .ref id => (s.memo.lookup id).getD s.nodes.size
  | _ => s.nodes.size

def enter (s : SaveState) (id : ObjectId) (src : Source) (objects : ObjectGraph)
    (calls : List Call) : SaveState :=
  ⟨objects, (s.nodes.new src.blank).2, (id, s.nodes.size) :: s.memo, (id, src) :: s.sources, calls⟩

/-- A primitive gets a node of its own. -/
def meet (s : SaveState) (o : Object) : SaveState :=
  match o.scalar? with
  | some v => { s with nodes := (s.nodes.new (.scalar v)).2 }
  | none => s

def put (s : SaveState) (id : ObjectId) (src : Source) (index : Nat) (m : NodeId) : SaveState :=
  { s with nodes := src.put (s.nodeId (.ref id)) m index s.nodes }

end SaveState

namespace Save

/-- A primitive is entered and left at once. -/
def meet (o : Object) (es : List (Event Object)) : List (Event Object) :=
  if o.scalar?.isSome ∧ enter o ∉ es then es ++ [enter o] ++ [leave o] else es

variable (session : Session)

/-- What the node of `id` is to be made from, and the object graph and the calls after finding it
out. -/
inductive Reads (s : SaveState) (id : ObjectId) : Source → ObjectGraph → List Call → Prop
  | list {items : List Object} (hcell : s.objects.read id = .list items) :
      Reads s id (.list items) s.objects s.calls
  | map {entries : OrderedMap Object} (hcell : s.objects.read id = .map entries) :
      Reads s id (.map entries) s.objects s.calls
  | answer {type : NativeType} {payload raw : Object} {c : LoadedConverter Behaviour}
      {tag : Option TagUri} {objects : ObjectGraph}
      (hcell : s.objects.read id = .native type payload)
      (hc : session.registry.converterForInstance type = some c)
      (htag : tag = c.selectTag session.context s.objects (.ref id))
      (hcall : Yields (c.converter.behaviour.toTree session.context (.ref id) tag) s.objects raw
        objects)
      (hraw : isTreeValue objects tag raw = true) :
      Reads s id (.answer tag raw) objects (s.calls ++
        ((if c.converter.selects then [.selectTag c (.ref id)] else []) ++
          [.toTree c tag (.ref id)]))

/-- If `p` is entered and not left, it has references that are not made yet. -/
def Waits (s : SaveState) (es : List (Event Object)) (p : Object) : Prop :=
  enter p ∈ es → leave p ∉ es → ∃ i d, (s.links p)[i]? = some d ∧ refer p i d ∉ es

/-- The next reference is that of the object `id` to its part `o`. -/
structure IsNext (s : SaveState) (es : List (Event Object)) (id : ObjectId) (src : Source)
    (index : Nat) (o : Object) : Prop where
  source : s.sources.lookup id = some src
  part : src.parts[index]? = some o
  entered : enter (.ref id) ∈ es
  not_left : leave (.ref id) ∉ es
  refers : ∀ i d, refer (.ref id) i d ∈ es ↔ i < index ∧ src.parts[i]? = some d
  met : o.scalar? = none → enter o ∈ es
  waits : ∀ p, Waits s es p

/-- What a save does at the events of the traversal. -/
inductive Step : SaveState × List (Event Object) → SaveState × List (Event Object) → Prop
  | enter {s : SaveState} {es : List (Event Object)} {id : ObjectId} {src : Source}
      {objects : ObjectGraph} {calls : List Call} (hn : enter (.ref id) ∉ es)
      (hreads : Reads session s id src objects calls) :
      Step (s, es) (s.enter id src objects calls, es ++ [enter (.ref id)])
  | refer {s : SaveState} {es : List (Event Object)} {id : ObjectId} {src : Source} {index : Nat}
      {o : Object} (hnext : IsNext s es id src index o) :
      Step (s, es) ((s.meet o).put id src index (s.nodeId o),
        meet o es ++ [refer (.ref id) index o])
  | leave {s : SaveState} {es : List (Event Object)} {id : ObjectId} (he : enter (.ref id) ∈ es)
      (hl : leave (.ref id) ∉ es)
      (hr : ∀ i d, (s.links (.ref id))[i]? = some d → refer (.ref id) i d ∈ es) :
      Step (s, es) (s, es ++ [leave (.ref id)])

abbrev Steps : SaveState × List (Event Object) → SaveState × List (Event Object) → Prop :=
  Relation.ReflTransGen (Step session)

end Save

end TaggedGraph
