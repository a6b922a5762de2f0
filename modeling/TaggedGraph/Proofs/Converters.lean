import TaggedGraph.Conversion.Behaviour

namespace TaggedGraph

def LoadedConverter.forTag (id : Nat) (t : TagUri) (types : List TypeRef) (b : Behaviour) :
    LoadedConverter Behaviour :=
  ⟨⟨id, .ok "", .ok [], .ok types, .ok false, b⟩, ⟨0, none, none, false, ""⟩, [t], types⟩

namespace Behaviour

def keep : Behaviour :=
  ⟨fun _ _ _ _ => none, fun _ o _ => return o, fun _ raw _ => return .ready raw⟩

def unwrap (key : String) : Behaviour :=
  ⟨fun _ _ _ _ => none, fun _ o _ => return o, fun _ raw _ => do
    match (← get).map? raw with
    | some m => return .ready ((m.get? key).getD .null)
    | none => throw "expected a mapping"⟩

/-- Loads a raw value as an instance of `type` that holds it, and writes what an instance holds. -/
def holding (type : NativeType) : Behaviour where
  selectTag _ _ _ _ := none
  toTree _ o _ := do
    match (← get).native? o with
    | some (_, payload) => return payload
    | none => throw "expected an instance"
  fromTree _ raw _ := do
    let (o, g) := (← get).new (.native type raw)
    set g
    return .ready o

/-- The same, but the instance gets what it holds when the load is completed. -/
def holdingLater (type : NativeType) : Behaviour where
  selectTag := (holding type).selectTag
  toTree := (holding type).toTree
  fromTree _ raw _ := do
    let g ← get
    set (g.alloc (.native type .null)).2
    return .deferred (.new (.ref g.size) (modify fun g' => g'.setPayload g.size raw))

theorem run_holding (type : NativeType) (ctx : Context) (raw : Object) (t : TagUri)
    (g : ObjectGraph) : ((holding type).fromTree ctx raw t).run g =
      (.ok (.ready (.ref g.size)), (g.alloc (.native type raw)).2) :=
  rfl

theorem run_holdingLater (type : NativeType) (ctx : Context) (raw : Object) (t : TagUri)
    (g : ObjectGraph) : ((holdingLater type).fromTree ctx raw t).run g =
      (.ok (.deferred (.new (.ref g.size) (modify fun g' => g'.setPayload g.size raw))),
        (g.alloc (.native type .null)).2) :=
  rfl

theorem run_toTree_holding (type : NativeType) (ctx : Context) (o : Object) (t : Option TagUri)
    (g : ObjectGraph) : ((holding type).toTree ctx o t).run g =
      (match g.native? o with
        | some (_, payload) => .ok payload
        | none => .error "expected an instance", g) := by
  change (match g.native? o with
    | some (_, payload) => return payload
    | none => throw "expected an instance" : GraphM Object).run g = _
  cases g.native? o <;> rfl

/-- Writes an instance as a new list that contains it. -/
def ringing : Behaviour where
  selectTag _ _ _ _ := none
  toTree _ o _ := do
    let (list, g) := (← get).new (.list [o])
    set g
    return list
  fromTree _ raw _ := return .ready raw

theorem run_toTree_ringing (ctx : Context) (o : Object) (t : Option TagUri) (g : ObjectGraph) :
    (ringing.toTree ctx o t).run g = (.ok (.ref g.size), (g.alloc (.list [o])).2) :=
  rfl

end Behaviour

def tagNow : TagUri := ⟨"now", by decide, by decide⟩
def tagLater : TagUri := ⟨"later", by decide, by decide⟩
def typeNow : NativeType := ⟨0, "Now", "Now"⟩
def typeLater : NativeType := ⟨1, "Later", "Later"⟩

def holdingSession : Session :=
  ⟨⟨[], [.forTag 0 tagNow [.direct typeNow] (.holding typeNow),
    .forTag 1 tagLater [.direct typeLater] (.holdingLater typeLater)]⟩, ⟨false⟩⟩

end TaggedGraph
