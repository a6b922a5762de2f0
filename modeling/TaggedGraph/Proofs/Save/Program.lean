import TaggedGraph.Proofs.Save.Step

namespace TaggedGraph

def LoadedConverter.callsFor (c : LoadedConverter Behaviour) (tag : Option TagUri) (o : Object) :
    List Call :=
  (if c.converter.selects then [.selectTag c o] else []) ++ [.toTree c tag o]

/-- The instance `id` has a node, in which nothing is written yet. -/
def SaveState.reserve (s : SaveState) (id : ObjectId) (objects : ObjectGraph) (calls : List Call) :
    SaveState :=
  ⟨objects, (s.nodes.new (.scalar .null)).2, (id, s.nodes.size) :: s.memo, s.sources, calls⟩

namespace Save

/-- Gives node `n` the nodes of its parts, from the one at `index` on. -/
def fill (visit : Object → SaveM NodeId) (n : NodeId) (src : Source) :
    (index : Nat) → List Object → SaveM Unit
  | _, [] => return
  | index, o :: r => do
    let m ← visit o
    modifyNodes fun g => src.put n m index g
    fill visit n src (index + 1) r

variable (visit : Object → SaveM NodeId) (n : NodeId)

theorem pushAll_eq (items : List Object) (index : Nat) (r : List Object) :
    pushAll visit n r = fill visit n (.list items) index r := by
  induction r generalizing index with
  | nil => rfl
  | cons o r ih =>
    simp only [pushAll, fill, ih (index + 1)]
    rfl

theorem insertAll_eq (entries : OrderedMap Object) (index : Nat) (r : List (String × Object))
    (hr : entries.entries.drop index = r) :
    insertAll visit n r = fill visit n (.map entries) index (r.map Prod.snd) := by
  induction r generalizing index with
  | nil => rfl
  | cons e r ih =>
    obtain ⟨key, o⟩ := e
    have hk : entries.keys.getD index "" = key := by
      have : entries.entries[index]? = some (key, o) := by
        rw [← List.head?_drop, hr]; rfl
      simp [OrderedMap.keys, this]
    have ht : entries.entries.drop (index + 1) = r := by
      rw [← List.tail_drop, hr, List.tail_cons]
    simp only [insertAll, fill, ih (index + 1) ht, List.map_cons, Source.put, hk]

variable (session : Session)

theorem yields_runConverter (c : LoadedConverter Behaviour) (t : Option TagUri)
    (steps : GraphM Object) (s : SaveState) (o : Object) (s' : SaveState) :
    Yields (runConverter c t steps) s o s' ↔
      ∃ objects, Yields steps s.objects o objects ∧ s' = { s with objects } := by
  refine yields_iff_of_run
    (fun message => .failed (.converterFailed t c.className message)) ?_ o s'
  rw [runConverter, run_get_bind]
  generalize steps.run s.objects = p
  obtain ⟨r, objects⟩ := p
  cases r <;> rfl

theorem yields_newNode (c : Content) (s : SaveState) (m : NodeId) (s' : SaveState) :
    Yields (newNode c) s m s' ↔ m = s.nodes.size ∧ s' = { s with nodes := (s.nodes.new c).2 } := by
  constructor
  · rintro ⟨⟩
    exact ⟨rfl, rfl⟩
  · rintro ⟨rfl, rfl⟩
    rfl

theorem yields_newNodeFor (id : ObjectId) (c : Content) (s : SaveState) (m : NodeId)
    (s' : SaveState) : Yields (newNodeFor id c) s m s' ↔ m = s.nodes.size ∧
      s' = { s with nodes := (s.nodes.new c).2, memo := (id, s.nodes.size) :: s.memo } := by
  constructor
  · rintro ⟨⟩
    exact ⟨rfl, rfl⟩
  · rintro ⟨rfl, rfl⟩
    rfl

theorem yields_reserve (s : SaveState) (id : ObjectId) :
    Yields (newNodeFor id (.scalar .null)) s s.nodes.size (s.reserve id s.objects s.calls) :=
  (yields_newNodeFor id (.scalar .null) s _ _).2 ⟨rfl, rfl⟩

theorem fails_runConverter (c : LoadedConverter Behaviour) (t : Option TagUri)
    (steps : GraphM Object) (s : SaveState) (message : String) (objects : ObjectGraph)
    (h : Fails steps s.objects message objects) :
    Fails (runConverter c t steps) s (.failed (.converterFailed t c.className message))
      { s with objects } := by
  rw [runConverter, fails_get_bind, Fails]
  have h : steps.run s.objects = (.error message, objects) := h
  rw [h]
  rfl

theorem run_fill_answer (id : ObjectId) (tag : Option TagUri) (raw : Object) (s : SaveState) :
    (do
      noteSource id (.answer tag raw)
      let m ← visit raw
      modifyNodes fun g => g.assume n m
      if tag.isSome then modifyNodes fun g => g.setTag n tag : SaveM Unit).run s =
    (fill visit n (.answer tag raw) 0 [raw]).run
      { s with sources := (id, .answer tag raw) :: s.sources } := by
  rw [noteSource, run_modify_bind]
  simp only [fill]
  generalize { s with sources := (id, .answer tag raw) :: s.sources } = s
  rcases yields_or_fails (visit raw) s with ⟨m, s₁, hv⟩ | ⟨e, s₁, hv⟩
  · rw [run_bind_ok hv, run_bind_ok hv]
    cases tag <;> rfl
  · rw [run_bind_error hv, run_bind_error hv]

section
variable {session : Session} {type : NativeType} {id : ObjectId} {c : LoadedConverter Behaviour}
  {tag : Option TagUri} {s s' : SaveState} {raw : Object} {objects : ObjectGraph}
  {e : ConversionError}

theorem run_convertInstance (hc : session.registry.converterForInstance type = some c)
    (htag : c.selectTag session.context s.objects (.ref id) = tag)
    (hcall : Yields (c.converter.behaviour.toTree session.context (.ref id) tag) s.objects raw
      objects) (calls : List Call)
    (hcalls : calls = s.calls ++ c.callsFor tag (.ref id)) :
    (convertInstance session visit type id n).run s =
      if isTreeValue objects tag raw then (fill visit n (.answer tag raw) 0 [raw]).run { s with
        objects, sources := (id, .answer tag raw) :: s.sources, calls }
      else (.error (.failed (.invalidTreeValue c.className (objects.kind raw))),
        { s with objects, calls }) := by
  subst hcalls
  have hrun (calls : List Call) :=
    (yields_runConverter c tag _ { s with calls } raw _).2 ⟨objects, hcall, rfl⟩
  simp only [convertInstance, hc, addCalls, run_get_bind, run_modify_bind, htag,
    run_bind_ok (hrun _)]
  split
  · exact run_fill_answer visit n id tag raw _
  · rfl

theorem fails_convertInstance (hc : session.registry.converterForInstance type = some c)
    (htag : c.selectTag session.context s.objects (.ref id) = tag) {message : String}
    (hcall : Fails (c.converter.behaviour.toTree session.context (.ref id) tag) s.objects message
      objects) : Fails (convertInstance session visit type id n) s
        (.failed (.converterFailed tag c.className message)) { s with
          objects
          calls := s.calls ++ c.callsFor tag (.ref id) } := by
  have hrun (calls : List Call) := fails_runConverter c tag _ { s with calls } message objects hcall
  simp only [Fails, convertInstance, hc, addCalls, run_get_bind, run_modify_bind, htag,
    run_bind_error (hrun _)]
  rfl

/-- An instance is met and the save ends there: its type has no converter, or the converter fails or
answers with what cannot be written. -/
inductive Refuses (session : Session) (s : SaveState) (id : ObjectId) :
    ConversionError → SaveState → Prop
  | unknown {type : NativeType} {payload : Object}
      (hcell : s.objects.read id = .native type payload)
      (hc : session.registry.converterForInstance type = none) :
      Refuses session s id (.unrepresentable type.name) (s.reserve id s.objects s.calls)
  | failed {type : NativeType} {payload : Object} {c : LoadedConverter Behaviour}
      {tag : Option TagUri} {message : String} {objects : ObjectGraph}
      (hcell : s.objects.read id = .native type payload)
      (hc : session.registry.converterForInstance type = some c)
      (htag : tag = c.selectTag session.context s.objects (.ref id))
      (hcall : Fails (c.converter.behaviour.toTree session.context (.ref id) tag) s.objects message
        objects) :
      Refuses session s id (.converterFailed tag c.className message)
        (s.reserve id objects (s.calls ++ c.callsFor tag (.ref id)))
  | invalid {type : NativeType} {payload raw : Object} {c : LoadedConverter Behaviour}
      {tag : Option TagUri} {objects : ObjectGraph}
      (hcell : s.objects.read id = .native type payload)
      (hc : session.registry.converterForInstance type = some c)
      (htag : tag = c.selectTag session.context s.objects (.ref id))
      (hcall : Yields (c.converter.behaviour.toTree session.context (.ref id) tag) s.objects raw
        objects) (hraw : ¬ isTreeValue objects tag raw = true) :
      Refuses session s id (.invalidTreeValue c.className (objects.kind raw))
        (s.reserve id objects (s.calls ++ c.callsFor tag (.ref id)))

theorem Refuses.run (h : Refuses session s id e s') :
    Fails (convertNew session visit id (s.objects.read id)) s (.failed e) s' := by
  cases h with
  | unknown hcell hc =>
    rw [hcell, convertNew, fails_bind_of_yields (yields_reserve s id)]
    refine run_bind_error ?_
    rw [convertInstance, hc]
    rfl
  | failed hcell hc htag hcall =>
    rw [hcell, convertNew, fails_bind_of_yields (yields_reserve s id)]
    exact run_bind_error
      (fails_convertInstance (s := s.reserve id s.objects s.calls) visit _ hc htag.symm hcall)
  | invalid hcell hc htag hcall hraw =>
    rw [hcell, convertNew, fails_bind_of_yields (yields_reserve s id)]
    have hinstance := run_convertInstance (s := s.reserve id s.objects s.calls) visit s.nodes.size
      hc htag.symm hcall _ rfl
    rw [if_neg hraw] at hinstance
    exact run_bind_error hinstance

theorem Refuses.memo (h : Refuses session s id e s') :
    s'.memo = (id, s.nodes.size) :: s.memo := by
  cases h <;> rfl

end

theorem Reads.run {s : SaveState} {id : ObjectId} {src : Source} {objects : ObjectGraph}
    {calls : List Call} (h : Reads session s id src objects calls) :
    (convertNew session visit id (s.objects.read id)).run s =
      (do fill visit s.nodes.size src 0 src.parts; return s.nodes.size).run
        (s.enter id src objects calls) := by
  have hnew (c : Content) := (yields_newNodeFor id c s _ _).2 ⟨rfl, rfl⟩
  cases h with
  | @list items hcell =>
    rw [hcell, convertNew, run_bind_ok (hnew _), noteSource, run_modify_bind,
      pushAll_eq visit _ items 0]
    rfl
  | @map entries hcell =>
    rw [hcell, convertNew, run_bind_ok (hnew _), noteSource, run_modify_bind,
      insertAll_eq visit _ entries 0 entries.entries rfl]
    rfl
  | answer hcell hc htag hcall hraw =>
    rw [hcell, convertNew, run_bind_ok (yields_reserve s id)]
    have hinstance := run_convertInstance (s := s.reserve id s.objects s.calls) visit s.nodes.size
      hc htag.symm hcall _ rfl
    rw [if_pos hraw] at hinstance
    exact run_bind_congr hinstance _

theorem reads_or_refuses (s : SaveState) (id : ObjectId) :
    (∃ src objects calls, Reads session s id src objects calls) ∨
      ∃ e s', Refuses session s id e s' := by
  cases hcell : s.objects.read id with
  | list items => exact .inl ⟨_, _, _, .list hcell⟩
  | map entries => exact .inl ⟨_, _, _, .map hcell⟩
  | native type payload =>
    cases hc : session.registry.converterForInstance type with
    | none => exact .inr ⟨_, _, .unknown hcell hc⟩
    | some c =>
      rcases yields_or_fails (c.converter.behaviour.toTree session.context (.ref id)
        (c.selectTag session.context s.objects (.ref id))) s.objects with
        ⟨raw, objects, hcall⟩ | ⟨message, objects, hcall⟩
      · by_cases hraw :
            isTreeValue objects (c.selectTag session.context s.objects (.ref id)) raw = true
        · exact .inl ⟨_, _, _, .answer hcell hc rfl hcall hraw⟩
        · exact .inr ⟨_, _, .invalid hcell hc rfl hcall hraw⟩
      · exact .inr ⟨_, _, .failed hcell hc rfl hcall⟩

theorem yields_convertNew (id : ObjectId) (s : SaveState) (m : NodeId) (s' : SaveState) :
    Yields (convertNew session visit id (s.objects.read id)) s m s' ↔ m = s.nodes.size ∧
      ∃ src objects calls, Reads session s id src objects calls ∧
        Yields (fill visit s.nodes.size src 0 src.parts) (s.enter id src objects calls) () s' := by
  constructor
  · intro h
    rcases reads_or_refuses session s id with ⟨src, objects, calls, hreads⟩ | ⟨e, s₁, hrefuses⟩
    · rw [Yields, hreads.run] at h
      obtain ⟨_, _, hfill, h⟩ := (yields_bind _ _ _ _ _).1 h
      obtain ⟨rfl, rfl⟩ := (yields_pure _ _ _ _).1 h
      exact ⟨rfl, src, objects, calls, hreads, hfill⟩
    · cases h.symm.trans (hrefuses.run visit)
  · rintro ⟨rfl, src, objects, calls, hreads, hfill⟩
    rw [Yields, hreads.run]
    exact (yields_bind _ _ _ _ _).2 ⟨(), s', hfill, rfl⟩

theorem yields_convert_scalar (depth : Nat) (o : Object) (ho : o.scalar?.isSome) (s : SaveState)
    (m : NodeId) (s' : SaveState) : Yields (convert session (depth + 1) o) s m s' ↔
      m = s.nodes.size ∧ s' = s.meet o := by
  cases o with
  | ref | pending => cases ho
  | _ => exact yields_newNode _ s m s'

theorem not_yields_convert_pending (depth : Nat) (x : NodeId) (s : SaveState) (m : NodeId)
    (s' : SaveState) : ¬ Yields (convert session depth (.pending x)) s m s' := by
  cases depth <;> exact not_yields_throw _ _ _ _

theorem yields_convert_ref (depth : Nat) (id : ObjectId) (s : SaveState) (m : NodeId)
    (s' : SaveState) : Yields (convert session (depth + 1) (.ref id)) s m s' ↔
      if (s.memo.lookup id).isSome then m = s.nodeId (.ref id) ∧ s' = s
      else Yields (convertNew session (convert session depth) id (s.objects.read id)) s m s' := by
  rw [convert, yields_get_bind, SaveState.nodeId]
  cases s.memo.lookup id with
  | some n => simp [yields_pure]
  | none => simp

end Save

end TaggedGraph
