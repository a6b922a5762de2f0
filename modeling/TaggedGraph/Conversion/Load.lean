import TaggedGraph.Conversion.Behaviour

namespace TaggedGraph

/-- A place in a list or map that holds a pending reference. -/
inductive Slot
  | item (list : ObjectId) (index : Nat)
  | entry (map : ObjectId) (key : String)
deriving DecidableEq

def Slot.fill (o : Object) (g : ObjectGraph) : Slot → ObjectGraph
  | item list index => g.set list index o
  | entry map key => g.insert map key o

/-- A deferred conversion that waits for its end. -/
structure Completion where
  converter : LoadedConverter Behaviour
  tag : TagUri
  raw : Object
  deferred : Deferred

/-- A call of a converter, or of what it has deferred, on the object graph as it then was. -/
inductive LoadCall
  | fromTree (converter : LoadedConverter Behaviour) (tag : TagUri) (raw : Object)
    (objects : ObjectGraph)
  | finish (converter : LoadedConverter Behaviour) (tag : TagUri) (raw : Object)
    (completion : GraphM Unit) (objects : ObjectGraph)

/-- `built` tells which list or map was made for which node. -/
structure LoadState where
  objects : ObjectGraph
  warnings : Warnings
  done : List (NodeId × Object)
  active : List NodeId
  waiting : List (NodeId × Slot)
  deferred : List Completion
  unresolved : List TagUri
  built : List (NodeId × ObjectId)
  calls : List LoadCall

namespace LoadState

def start (objects : ObjectGraph) (warnings : Warnings) : LoadState :=
  ⟨objects, warnings, [], [], [], [], [], [], []⟩

def enter (s : LoadState) (n : NodeId) : LoadState :=
  { s with active := n :: s.active }

def leave (s : LoadState) (n : NodeId) : LoadState :=
  { s with active := s.active.filter (· ≠ n) }

/-- Fills the slots that wait for `n` and records its result. -/
def record (s : LoadState) (n : NodeId) (o : Object) : LoadState :=
  { s with
    objects := (s.waiting.filter (·.1 = n)).foldl (fun g w => w.2.fill o g) s.objects
    waiting := s.waiting.filter (·.1 ≠ n)
    done := (n, o) :: s.done }

def await (s : LoadState) (o : Object) (slot : Slot) : LoadState :=
  match o with
  | .pending n => { s with waiting := s.waiting ++ [(n, slot)] }
  | _ => s

def unresolvedMessage (t : TagUri) : String :=
  t.text ++ " is not recognized, converting to raw data structure"

def noteUnresolved (s : LoadState) (options : ConvertOptions) (t : TagUri) : LoadState :=
  if options.suppressUnresolvedTagWarnings || s.unresolved.contains t then s
  else { s with
    unresolved := t :: s.unresolved
    warnings := s.warnings.warn .unresolvedTag (unresolvedMessage t) }

end LoadState

abbrev LoadM := ExceptT Halt (StateM LoadState)

namespace Load

def newCell (n : NodeId) (c : Cell) : LoadM ObjectId := do
  let s ← get
  let (id, objects) := s.objects.alloc c
  set { s with objects, built := (n, id) :: s.built }
  return id

/-- Runs a converter's steps; its failure becomes the error of the conversion. -/
def runConverter {α : Type} (c : LoadedConverter Behaviour) (tag : TagUri) (steps : GraphM α) :
    LoadM α := do
  let s ← get
  let (r, objects) := steps.run s.objects
  set { s with objects }
  match r with
  | .ok a => return a
  | .error message => throw (.failed (.converterFailed (some tag) c.className message))

def fillList (visit : NodeId → LoadM Object) (list : ObjectId) :
    (index : Nat) → List NodeId → LoadM Unit
  | _, [] => return
  | index, n :: r => do
    let o ← visit n
    -- the slot waits before it is there: nothing is filled until the next visit
    modify fun s => s.await o (.item list index)
    modify fun s => { s with objects := s.objects.push list o }
    fillList visit list (index + 1) r

def fillMap (visit : NodeId → LoadM Object) (map : ObjectId) : List (String × NodeId) → LoadM Unit
  | [] => return
  | (key, n) :: r => do
    let o ← visit n
    modify fun s => s.await o (.entry map key)
    modify fun s => { s with objects := s.objects.insert map key o }
    fillMap visit map r

def ofScalar : Scalar → Object
  | .null => .null
  | .bool b => .bool b
  | .int i => .int i
  | .float x => .float x
  | .string s => .string s
  | .binary b => .bytes b

/-- Converts the content of node `n`. `publish` gets the raw value before the children are
visited. -/
def convertContent (visit : NodeId → LoadM Object) (publish : Object → LoadM Unit) (n : NodeId) :
    Content → LoadM Object
  | .scalar s => do
    publish (ofScalar s)
    return ofScalar s
  | .sequence items => do
    let list ← newCell n (.list [])
    -- what is inside the list may refer back to it while it is empty
    publish (.ref list)
    fillList visit list 0 items
    return .ref list
  | .mapping entries => do
    let map ← newCell n (.map ∅)
    publish (.ref map)
    fillMap visit map entries.entries
    return .ref map

def callConverter (session : Session) (c : LoadedConverter Behaviour) (tag : TagUri)
    (raw : Object) : LoadM Object := do
  modify fun s => { s with calls := s.calls ++ [.fromTree c tag raw s.objects] }
  match ← runConverter c tag (c.converter.behaviour.fromTree session.context raw tag) with
  | .ready o => return o
  | .deferred d =>
    let (placeholder, d) := d.emit
    modify fun s => { s with deferred := s.deferred ++ [⟨c, tag, raw, d⟩] }
    return placeholder

def convertNew (session : Session) (nodes : NodeGraph) (visit : NodeId → LoadM Object)
    (n : NodeId) : LoadM Object :=
  match nodes.tag n with
  | none => convertContent visit (fun raw => modify (·.record n raw)) n (nodes.content n)
  | some tag =>
    match session.registry.converterForTag tag with
    | none => do
      let raw ← convertContent visit (fun raw => modify (·.record n raw)) n (nodes.content n)
      modify (·.noteUnresolved session.options tag)
      return raw
    | some c => do
      modify (·.enter n)
      -- the raw value is no result, so that references from inside wait for that of the converter
      let raw ← convertContent visit (fun _ => return) n (nodes.content n)
      let result ← callConverter session c tag raw
      modify fun s => (s.leave n).record n result
      return result

def convert (session : Session) (nodes : NodeGraph) : (depth : Nat) → NodeId → LoadM Object
  | 0, _ => throw .tooDeep
  | depth + 1, n => do
    let s ← get
    match s.done.lookup n with
    | some o => return o
    | none =>
      if n ∈ s.active then return .pending n
      else convertNew session nodes (convert session nodes depth) n

def complete : List Completion → LoadM Unit
  | [] => return
  | c :: r => do
    let s ← get
    let (result, _, objects) := c.deferred.finish s.objects
    let calls := if c.deferred.phase = .placeholderEmitted then
      [LoadCall.finish c.converter c.tag c.raw c.deferred.completion s.objects] else []
    set { s with objects, calls := s.calls ++ calls }
    match result with
    | .ok () => complete r
    | .error e => throw (.failed (.converterFailed (some c.tag) c.converter.className e.message))

def runWithin (session : Session) (nodes : NodeGraph) (depth : Nat) (root : NodeId) :
    LoadM Object := do
  let o ← convert session nodes depth root
  complete (← get).deferred
  match o with
  -- the root may stand for a node that was converted around it
  | .pending n => return ((← get).done.lookup n).getD o
  | o => return o

/-- The conversion of a graph from one of its nodes. A node that is being converted is not converted
inside itself, so it goes no deeper than this. -/
def run (session : Session) (nodes : NodeGraph) (root : NodeId) : LoadM Object :=
  runWithin session nodes (nodes.size + 1) root

end Load

/-- Converts the graph of `root` to objects in `objects`. Also gives the state at the end, which
holds the object graph, the warnings and the calls that were made. -/
def load (session : Session) (nodes : NodeGraph) (root : NodeId) (objects : ObjectGraph)
    (warnings : Warnings) : Except Halt Object × LoadState :=
  (Load.run session nodes root).run (LoadState.start objects warnings)

end TaggedGraph
