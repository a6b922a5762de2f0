import TaggedGraph.Conversion.Behaviour

namespace TaggedGraph

/-- What the node of an object is made from: the parts of a list or a map, or what the converter of
an instance answered and the tag it chose. -/
inductive Source
  | list (items : List Object)
  | map (entries : OrderedMap Object)
  | answer (tag : Option TagUri) (raw : Object)
deriving DecidableEq

inductive Call
  | selectTag (converter : LoadedConverter Behaviour) (object : Object)
  | toTree (converter : LoadedConverter Behaviour) (tag : Option TagUri) (object : Object)

structure SaveState where
  objects : ObjectGraph
  nodes : NodeGraph
  memo : List (ObjectId × NodeId)
  sources : List (ObjectId × Source)
  calls : List Call

abbrev SaveM := ExceptT Halt (StateM SaveState)

namespace Save

def newNode (c : Content) : SaveM NodeId := do
  let s ← get
  let (n, nodes) := s.nodes.new c
  set { s with nodes }
  return n

def newNodeFor (id : ObjectId) (c : Content) : SaveM NodeId := do
  let n ← newNode c
  modify fun s => { s with memo := (id, n) :: s.memo }
  return n

def noteSource (id : ObjectId) (src : Source) : SaveM Unit :=
  modify fun s => { s with sources := (id, src) :: s.sources }

def modifyNodes (f : NodeGraph → NodeGraph) : SaveM Unit :=
  modify fun s => { s with nodes := f s.nodes }

def pushAll (visit : Object → SaveM NodeId) (n : NodeId) : List Object → SaveM Unit
  | [] => return
  | o :: r => do
    let child ← visit o
    modifyNodes fun g => (g.push n child).2
    pushAll visit n r

def insertAll (visit : Object → SaveM NodeId) (n : NodeId) : List (String × Object) → SaveM Unit
  | [] => return
  | (key, o) :: r => do
    let child ← visit o
    modifyNodes fun g => (g.insert n key child).2
    insertAll visit n r

def addCalls (calls : List Call) : SaveM Unit :=
  modify fun s => { s with calls := s.calls ++ calls }

def runConverter (c : LoadedConverter Behaviour) (tag : Option TagUri) (steps : GraphM Object) :
    SaveM Object := do
  let s ← get
  let (r, objects) := steps.run s.objects
  set { s with objects }
  match r with
  | .ok o => return o
  | .error message => throw (.failed (.converterFailed tag c.className message))

/-- A converter must not answer with a pending reference, nor choose a tag for a native. -/
def isTreeValue (g : ObjectGraph) (tag : Option TagUri) (raw : Object) : Bool :=
  !raw.isPending && ((g.native? raw).isNone || tag.isNone)

/-- Fills node `n`, which stands for the instance `id`, with what its converter answers. An answer
without a tag is converted as if it had stood in the place of the instance. -/
def convertInstance (session : Session) (visit : Object → SaveM NodeId) (type : NativeType)
    (id : ObjectId) (n : NodeId) : SaveM Unit := do
  match session.registry.converterForInstance type with
  | none => throw (.failed (.unrepresentable type.name))
  | some c =>
    let s ← get
    let tag := c.selectTag session.context s.objects (.ref id)
    addCalls ((if c.converter.selects then [.selectTag c (.ref id)] else []) ++
      [.toTree c tag (.ref id)])
    let raw ← runConverter c tag (c.converter.behaviour.toTree session.context (.ref id) tag)
    let s ← get
    if isTreeValue s.objects tag raw then
      noteSource id (.answer tag raw)
      let m ← visit raw
      -- the node of the answer is copied as it is at this time
      modifyNodes fun g => g.assume n m
      if tag.isSome then modifyNodes fun g => g.setTag n tag
    else throw (.failed (.invalidTreeValue c.className (s.objects.kind raw)))

def convertNew (session : Session) (visit : Object → SaveM NodeId) (id : ObjectId) :
    Cell → SaveM NodeId
  | .list items => do
    let n ← newNodeFor id (.sequence [])
    noteSource id (.list items)
    pushAll visit n items
    return n
  | .map entries => do
    let n ← newNodeFor id (.mapping ∅)
    noteSource id (.map entries)
    insertAll visit n entries.entries
    return n
  | .native type _ => do
    -- the answer of the converter may lead back to the instance
    let n ← newNodeFor id (.scalar .null)
    convertInstance session visit type id n
    return n

def convert (session : Session) : (depth : Nat) → Object → SaveM NodeId
  | 0, _ => throw .tooDeep
  | _, .null => newNode (.scalar .null)
  | _, .bool b => newNode (.scalar (.bool b))
  | _, .int i => newNode (.scalar (.int i))
  | _, .float x => newNode (.scalar (.float x))
  | _, .string s => newNode (.scalar (.string s))
  | _, .bytes b => newNode (.scalar (.binary b))
  | _, .pending _ => throw (.failed (.unrepresentable "unresolved back-reference"))
  | depth + 1, .ref id => do
    let s ← get
    match s.memo.lookup id with
    | some n => return n
    | none => convertNew session (convert session depth) id (s.objects.read id)

end Save

/-- Converts the graph of `root` to nodes, down to a given depth: converters may go on answering
with new instances for ever. Also gives the state at the end, which holds the nodes and the calls
that were made. -/
def save (session : Session) (depth : Nat) (root : Object) (objects : ObjectGraph) :
    Except Halt NodeId × SaveState :=
  (Save.convert session depth root).run ⟨objects, ∅, [], [], []⟩

end TaggedGraph
