import TaggedGraph.Proofs.Load.Calls

namespace TaggedGraph

/-- The graph without the tags that have no converter. -/
def NodeGraph.eraseUnresolved (nodes : NodeGraph) (registry : Registry Behaviour) : NodeGraph :=
  ⟨nodes.cells.map fun n => { n with tag := n.tag.filter registry.handlesTag }⟩

theorem NodeGraph.read_eraseUnresolved (nodes : NodeGraph) (registry : Registry Behaviour)
    (n : NodeId) : (nodes.eraseUnresolved registry).read n =
      { nodes.read n with tag := (nodes.read n).tag.filter registry.handlesTag } := by
  simp only [eraseUnresolved, Heap.read, Array.getD_eq_getD_getElem?, Array.getElem?_map]
  cases nodes.cells[n]? <;> rfl

/-- No converter looks at the options when it loads a node. -/
def Session.IgnoresOptions (session : Session) : Prop :=
  ∀ c ∈ session.registry.converters, ∀ options options' raw t,
    c.converter.behaviour.fromTree { session.context with options } raw t =
      c.converter.behaviour.fromTree { session.context with options := options' } raw t

namespace LoadState

def mute (s : LoadState) : LoadState :=
  { s with warnings := ∅, unresolved := [] }

/-- The states differ at most in what was said of unresolved tags. -/
def SameButWarnings (s s' : LoadState) : Prop :=
  s'.mute = s.mute

variable {s s' : LoadState}

theorem SameButWarnings.update (h : s.SameButWarnings s') {f : LoadState → LoadState}
    (hf : ∀ s, (f s).mute = f s.mute) : (f s).SameButWarnings (f s') := by
  rw [SameButWarnings, hf, hf, h]

theorem SameButWarnings.core (h : s.SameButWarnings s') {α : Type} (f : LoadState → α) :
    f s'.mute = f s.mute := by
  rw [h]

theorem mute_put (s : LoadState) (id : ObjectId) (ct : Content) (i : Nat) (o : Object) :
    (s.put id ct i o).mute = s.mute.put id ct i o := by
  cases o <;> rfl

theorem mute_noteUnresolved (s : LoadState) (options : ConvertOptions) (t : TagUri) :
    (s.noteUnresolved options t).mute = s.mute := by
  unfold noteUnresolved
  split <;> rfl

end LoadState

namespace Load

open LoadState

section
variable {α : Type} {f : LoadState → LoadState}

theorem agree_update (hf : ∀ s, (f s).mute = f s.mute) :
    Agree SameButWarnings (modify f : LoadM Unit) (modify f) :=
  agree_modify fun _ _ hs => hs.update hf

theorem agree_newCell (n : NodeId) (c : Cell) :
    Agree SameButWarnings (newCell n c) (newCell n c) := by
  intro s s' hs
  have hsize : s'.objects.size = s.objects.size := hs.core fun s => s.objects.size
  exact ⟨congrArg Except.ok hsize, hs.update (f := fun s => s.make n c) fun _ => rfl⟩

theorem agree_runConverter (c : LoadedConverter Behaviour) (t : TagUri) (steps : GraphM α) :
    Agree SameButWarnings (runConverter c t steps) (runConverter c t steps) := by
  apply agree_get_bind
  intro s s' hs
  have hobjects : s'.objects = s.objects := hs.core fun s => s.objects
  rw [hobjects]
  generalize steps.run s.objects = p
  obtain ⟨r, objects⟩ := p
  apply Agree.bind
  · exact agree_modify fun _ _ _ => hs.update (f := fun s => { s with objects }) fun _ => rfl
  · intro _
    cases r with
    | ok a => exact agree_pure a
    | error e => exact agree_throw _

end

section
variable {visit visit' : NodeId → LoadM Object}

theorem agree_fill (hv : ∀ n, Agree SameButWarnings (visit n) (visit' n)) (id : ObjectId)
    (ct : Content) (r : List NodeId) (index : Nat) :
    Agree SameButWarnings (fill visit id ct index r) (fill visit' id ct index r) := by
  induction r generalizing index with
  | nil => exact agree_pure ()
  | cons n r ih =>
    apply (hv n).bind
    intro o
    refine (agree_update fun s => mute_put s id ct index o).bind fun _ => ?_
    exact ih (index + 1)

theorem agree_convertContent (hv : ∀ n, Agree SameButWarnings (visit n) (visit' n))
    {publish : Object → LoadM Unit}
    (hp : ∀ o, Agree SameButWarnings (publish o) (publish o)) (n : NodeId) (ct : Content) :
    Agree SameButWarnings (convertContent visit publish n ct)
      (convertContent visit' publish n ct) := by
  cases ct with
  | scalar v => exact (hp _).bind fun _ => agree_pure _
  | sequence items =>
    apply (agree_newCell n _).bind
    intro list
    apply (hp _).bind
    intro _
    rw [fillList_eq visit list items, fillList_eq visit' list items]
    exact (agree_fill hv list _ _ _).bind fun _ => agree_pure _
  | mapping entries =>
    apply (agree_newCell n _).bind
    intro map
    apply (hp _).bind
    intro _
    rw [fillMap_eq visit map entries 0 entries.entries rfl,
      fillMap_eq visit' map entries 0 entries.entries rfl]
    exact (agree_fill hv map _ _ _).bind fun _ => agree_pure _

end

theorem agree_callConverter {session session' : Session} (c : LoadedConverter Behaviour)
    (t : TagUri) (raw : Object)
    (h : c.converter.behaviour.fromTree session'.context raw t =
      c.converter.behaviour.fromTree session.context raw t) :
    Agree SameButWarnings (callConverter session c t raw) (callConverter session' c t raw) := by
  unfold callConverter
  rw [h]
  refine (agree_update ?_).bind fun _ => ?_
  · exact fun _ => rfl
  refine (agree_runConverter c t _).bind fun answer => ?_
  cases answer with
  | ready o => exact agree_pure o
  | deferred d =>
    refine (agree_update ?_).bind fun _ => agree_pure _
    exact fun _ => rfl

/-- The two graphs differ at most in tags without a converter, which the second may lack. -/
structure SameResolved (registry : Registry Behaviour) (nodes nodes' : NodeGraph) : Prop where
  size : nodes'.size = nodes.size
  content : ∀ n, nodes'.content n = nodes.content n
  tag : ∀ n, nodes'.tag n = nodes.tag n ∨
    nodes'.tag n = none ∧ ∀ t, nodes.tag n = some t → registry.converterForTag t = none

variable {session : Session} {nodes nodes' : NodeGraph} {visit visit' : NodeId → LoadM Object}

theorem agree_convertNew (hopt : session.IgnoresOptions)
    (hnodes : SameResolved session.registry nodes nodes') (options' : ConvertOptions)
    (hv : ∀ n, Agree SameButWarnings (visit n) (visit' n)) (n : NodeId) :
    Agree SameButWarnings (convertNew session nodes visit n)
      (convertNew { session with options := options' } nodes' visit' n) := by
  have hraw : Agree SameButWarnings
      (convertContent visit (fun raw => modify (·.record n raw)) n (nodes.content n))
      (convertContent visit' (fun raw => modify (·.record n raw)) n (nodes.content n)) := by
    refine agree_convertContent hv (fun o => ?_) n _
    exact agree_update (f := fun s => s.record n o) fun _ => rfl
  unfold convertNew
  rw [hnodes.content]
  rcases hnodes.tag n with htag | ⟨htag, hnone⟩
  · rw [htag]
    cases nodes.tag n with
    | none => exact hraw
    | some t =>
      cases hc : session.registry.converterForTag t with
      | none =>
        simp only [hc]
        refine hraw.bind fun raw => ?_
        refine (agree_modify fun s s' hs => ?_).bind fun _ => agree_pure raw
        rw [SameButWarnings, mute_noteUnresolved, mute_noteUnresolved, hs]
      | some c =>
        simp only [hc]
        refine (agree_update ?_).bind fun _ => ?_
        · exact fun _ => rfl
        refine (agree_convertContent hv (fun _ => agree_pure ()) n _).bind fun raw => ?_
        have hcall := hopt c (Registry.mem_of_converterForTag hc) options' session.options raw t
        refine (agree_callConverter c t raw hcall).bind fun result => ?_
        refine (agree_update ?_).bind fun _ => agree_pure result
        exact fun _ => rfl
  · rw [htag]
    cases ht : nodes.tag n with
    | none => exact hraw
    | some t =>
      -- the tag is noted on one side only
      simp only [hnone t ht]
      rw [← bind_pure (convertContent visit' _ n _)]
      refine hraw.bind fun raw s s' hs => ⟨rfl, ?_⟩
      exact hs.trans (mute_noteUnresolved s session.options t).symm

theorem agree_convert (hopt : session.IgnoresOptions)
    (hnodes : SameResolved session.registry nodes nodes') (options' : ConvertOptions)
    (depth : Nat) (n : NodeId) :
    Agree SameButWarnings (convert session nodes depth n)
      (convert { session with options := options' } nodes' depth n) := by
  induction depth generalizing n with
  | zero => exact agree_throw _
  | succ depth ih =>
    refine agree_get_bind fun s s' hs => ?_
    have hdone : s'.done = s.done := hs.core fun s => s.done
    have hactive : s'.active = s.active := hs.core fun s => s.active
    rw [hdone, hactive]
    cases s.done.lookup n with
    | some o => exact agree_pure o
    | none =>
      by_cases ha : n ∈ s.active
      · simp only [if_pos ha]
        exact agree_pure _
      · simp only [if_neg ha]
        exact agree_convertNew hopt hnodes options' ih n

theorem agree_complete (ds : List Completion) :
    Agree SameButWarnings (complete ds) (complete ds) := by
  induction ds with
  | nil => exact agree_pure ()
  | cons d ds ih =>
    refine agree_get_bind fun s s' hs => ?_
    have hobjects : s'.objects = s.objects := hs.core fun s => s.objects
    rw [hobjects]
    generalize d.deferred.finish s.objects = p
    obtain ⟨result, _, objects⟩ := p
    generalize (if d.deferred.phase = .placeholderEmitted then
      [LoadCall.finish d.converter d.tag d.raw d.deferred.completion s.objects] else []) = calls
    apply Agree.bind
    · exact agree_modify fun _ _ _ => hs.update (f := fun s => s.ran objects calls) fun _ => rfl
    · intro _
      cases result with
      | ok => exact ih
      | error e => exact agree_throw _

theorem agree_run (hopt : session.IgnoresOptions)
    (hnodes : SameResolved session.registry nodes nodes') (options' : ConvertOptions)
    (root : NodeId) :
    Agree SameButWarnings (run session nodes root)
      (run { session with options := options' } nodes' root) := by
  unfold run runWithin
  rw [hnodes.size]
  refine (agree_convert hopt hnodes options' _ root).bind fun o => ?_
  refine agree_get_bind fun s s' hs => ?_
  have hdeferred : s'.deferred = s.deferred := hs.core fun s => s.deferred
  rw [hdeferred]
  refine (agree_complete _).bind fun _ => ?_
  cases o with
  | pending n =>
    refine agree_get_bind fun s s' hs => ?_
    have hdone : s'.done = s.done := hs.core fun s => s.done
    rw [hdone]
    exact agree_pure _
  | _ => exact agree_pure _

theorem SameResolved.refl (registry : Registry Behaviour) (nodes : NodeGraph) :
    SameResolved registry nodes nodes :=
  ⟨rfl, fun _ => rfl, fun _ => .inl rfl⟩

theorem sameResolved_erase (registry : Registry Behaviour) (nodes : NodeGraph) :
    SameResolved registry nodes (nodes.eraseUnresolved registry) where
  size := by simp [NodeGraph.eraseUnresolved, Heap.size]
  content n := by rw [NodeGraph.content, nodes.read_eraseUnresolved registry, NodeGraph.content]
  tag n := by
    have htag : (nodes.eraseUnresolved registry).tag n =
        (nodes.tag n).filter registry.handlesTag := by
      rw [NodeGraph.tag, nodes.read_eraseUnresolved registry, NodeGraph.tag]
    rw [htag]
    cases nodes.tag n with
    | none => exact .inl rfl
    | some t =>
      cases hc : registry.converterForTag t with
      | none =>
        refine .inr ⟨by simp [Option.filter, Registry.handlesTag_eq_isSome, hc], ?_⟩
        rintro _ ⟨⟩
        exact hc
      | some c => exact .inl (by simp [Option.filter, Registry.handlesTag_eq_isSome, hc])

/-- Two loads give the same object or the same error, in the same graph and by the same calls. -/
structure SameOutcome (r r' : Except Halt Object × LoadState) : Prop where
  result : r'.1 = r.1
  objects : r'.2.objects = r.2.objects
  calls : r'.2.calls = r.2.calls

theorem load_agrees (hopt : session.IgnoresOptions)
    (hnodes : SameResolved session.registry nodes nodes') (options' : ConvertOptions)
    (root : NodeId) (objects : ObjectGraph) (warnings warnings' : Warnings) :
    SameOutcome (load session nodes root objects warnings)
      (load { session with options := options' } nodes' root objects warnings') := by
  obtain ⟨hresult, hs⟩ := agree_run hopt hnodes options' root (.start objects warnings)
    (.start objects warnings') rfl
  exact ⟨hresult, hs.core fun s => s.objects, hs.core fun s => s.calls⟩

end Load

end TaggedGraph
