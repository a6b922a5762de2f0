import TaggedGraph.Conversion.Load
import TaggedGraph.Proofs.Outcome
import TaggedGraph.Proofs.Walk

namespace TaggedGraph

def Session.converterAt (session : Session) (nodes : NodeGraph) (n : NodeId) :
    Option (LoadedConverter Behaviour) :=
  (nodes.tag n).bind session.registry.converterForTag

def FromTree.object : FromTree → Object
  | ready o => o
  | deferred d => d.placeholder

namespace LoadState

/-- What a reference to node `n` is given: the result of `n`, or a pending reference. -/
def result (s : LoadState) (n : NodeId) : Object :=
  (s.done.lookup n).getD (.pending n)

def make (s : LoadState) (n : NodeId) (c : Cell) : LoadState :=
  { s with objects := (s.objects.alloc c).2, built := (n, s.objects.size) :: s.built }

/-- The raw value that the content of node `n` begins with. -/
def begin (s : LoadState) (n : NodeId) : Content → Object × LoadState
  | .scalar v => (Load.ofScalar v, s)
  | .sequence _ => (.ref s.objects.size, s.make n (.list []))
  | .mapping _ => (.ref s.objects.size, s.make n (.map ∅))

end LoadState

/-- The place of a child in the list or map `id` that is built for this content. -/
def Content.slot (id : ObjectId) (index : Nat) : Content → Slot
  | .mapping entries => .entry id (entries.keys.getD index "")
  | _ => .item id index

def Slot.extend (o : Object) (g : ObjectGraph) : Slot → ObjectGraph
  | item list _ => g.push list o
  | entry map key => g.insert map key o

namespace LoadState

def put (s : LoadState) (id : ObjectId) (ct : Content) (index : Nat) (o : Object) : LoadState :=
  let s := s.await o (ct.slot id index)
  { s with objects := (ct.slot id index).extend o s.objects }

/-- `raw` is the list, map or primitive that was made for node `n`. -/
def IsRaw (s : LoadState) (n : NodeId) : Content → Object → Prop
  | .scalar v, raw => raw = Load.ofScalar v
  | _, raw => ∃ id, (n, id) ∈ s.built ∧ raw = .ref id

def noted (s : LoadState) (session : Session) (nodes : NodeGraph) (n : NodeId) : LoadState :=
  match nodes.tag n with
  | some t => s.noteUnresolved session.options t
  | none => s

def answered (s : LoadState) (c : LoadedConverter Behaviour) (t : TagUri) (raw : Object)
    (answer : FromTree) (objects : ObjectGraph) : LoadState :=
  { s with
    objects
    calls := s.calls ++ [.fromTree c t raw s.objects]
    deferred := match answer with
      | .ready _ => s.deferred
      | .deferred d => s.deferred ++ [⟨c, t, raw, d.emit.2⟩] }

end LoadState

namespace Load

open Traversal Event

variable (session : Session) (nodes : NodeGraph)

/-- Node `n` has its result: at once if no converter deals with it, else when it is left. -/
def Settled (es : List (Event NodeId)) (n : NodeId) : Prop :=
  if (session.converterAt nodes n).isSome then leave n ∈ es else enter n ∈ es

/-- Node `n` has referred to all its children and was not left yet. -/
structure Ends (es : List (Event NodeId)) (n : NodeId) : Prop where
  entered : enter n ∈ es
  not_left : leave n ∉ es
  refers : ∀ i c, (nodes.children n)[i]? = some c → refer n i c ∈ es

/-- Converter `c` is called with the raw value of node `n`, which ends. -/
structure Calls (s : LoadState) (es : List (Event NodeId)) (n : NodeId)
    (c : LoadedConverter Behaviour) (t : TagUri) (raw : Object) : Prop where
  ends : Ends nodes es n
  tag : nodes.tag n = some t
  converter : session.registry.converterForTag t = some c
  raw : s.IsRaw n (nodes.content n) raw

/-- What a load does at one event of the traversal. -/
inductive Step : LoadState × List (Event NodeId) → LoadState × List (Event NodeId) → Prop
  | enterRaw {s : LoadState} {es : List (Event NodeId)} {n : NodeId} (hn : enter n ∉ es)
      (hc : session.converterAt nodes n = none) :
      Step (s, es) ((s.begin n (nodes.content n)).2.record n (s.begin n (nodes.content n)).1,
        es ++ [enter n])
  | enterConverted {s : LoadState} {es : List (Event NodeId)} {n : NodeId} (hn : enter n ∉ es)
      (hc : session.converterAt nodes n ≠ none) :
      Step (s, es) (((s.enter n).begin n (nodes.content n)).2, es ++ [enter n])
  | refer {s : LoadState} {es : List (Event NodeId)} {n : NodeId} {id : ObjectId} {index : Nat}
      {c : NodeId} (hb : (n, id) ∈ s.built) (hc : (nodes.children n)[index]? = some c)
      (he : enter n ∈ es) (hn : leave n ∉ es)
      (hr : ∀ i d, refer n i d ∈ es ↔ i < index ∧ (nodes.children n)[i]? = some d)
      (hec : enter c ∈ es) :
      Step (s, es) (s.put id (nodes.content n) index (s.result c), es ++ [refer n index c])
  | leaveRaw {s : LoadState} {es : List (Event NodeId)} {n : NodeId} (hends : Ends nodes es n)
      (hc : session.converterAt nodes n = none) :
      Step (s, es) (s.noted session nodes n, es ++ [leave n])
  | leaveConverted {s : LoadState} {es : List (Event NodeId)} {n : NodeId}
      {c : LoadedConverter Behaviour} {t : TagUri} {raw : Object} {answer : FromTree}
      {objects : ObjectGraph} (hcalls : Calls session nodes s es n c t raw)
      (hcall : Yields (c.converter.behaviour.fromTree session.context raw t) s.objects answer
        objects) :
      Step (s, es) (((s.answered c t raw answer objects).leave n).record n answer.object,
        es ++ [leave n])

abbrev Steps : LoadState × List (Event NodeId) → LoadState × List (Event NodeId) → Prop :=
  Relation.ReflTransGen (Step session nodes)

end Load

end TaggedGraph
