import TaggedGraph.Proofs.Converters
import TaggedGraph.Proofs.Save.Depth
import TaggedGraph.Proofs.TypeLookup

namespace TaggedGraph

namespace ObjectGraph

def type? (g : ObjectGraph) (id : ObjectId) : Option NativeType :=
  match g.read id with
  | .native type _ => some type
  | _ => none

def HasTypes (g : ObjectGraph) (types : NativeType → Prop) : Prop :=
  ∀ id t, g.type? id = some t → types t

theorem type?_native {g : ObjectGraph} {id : ObjectId} {type : NativeType} {payload : Object}
    (h : g.read id = .native type payload) : g.type? id = some type := by
  rw [type?, h]

end ObjectGraph

/-- When it writes, the behaviour leaves every instance of the type it is of, and makes no instances
but of these types, whether it succeeds or fails. -/
def Behaviour.KeepsTypes (ctx : Context) (types : NativeType → Prop) (b : Behaviour) : Prop :=
  ∀ o tag g, g.HasTypes types → ((b.toTree ctx o tag).run g).2.HasTypes types ∧
    ∀ id t, g.type? id = some t → ((b.toTree ctx o tag).run g).2.type? id = some t

def Session.KeepsTypes (session : Session) (types : NativeType → Prop) : Prop :=
  ∀ c ∈ session.registry.converters, c.converter.behaviour.KeepsTypes session.context types

def Call.written : Call → LoadedConverter Behaviour × Object
  | selectTag c o => (c, o)
  | toTree c _ o => (c, o)

theorem LoadedConverter.written_callsFor {c : LoadedConverter Behaviour} {tag : Option TagUri}
    {o : Object} {call : Call} (h : call ∈ c.callsFor tag o) : call.written = (c, o) := by
  rcases List.mem_append.1 h with h | h
  · split at h
    · rw [List.mem_singleton.1 h]
      rfl
    · cases h
  · rw [List.mem_singleton.1 h]
    rfl

theorem LoadedConverter.toTree_mem_callsFor (c : LoadedConverter Behaviour) (tag : Option TagUri)
    (o : Object) : .toTree c tag o ∈ c.callsFor tag o :=
  List.mem_append_right _ (List.mem_singleton.2 rfl)

namespace Save

variable {session : Session} {types : NativeType → Prop} {start s s' : SaveState} {id : ObjectId}
  {src : Source} {objects : ObjectGraph} {calls more : List Call} {halt : Option Halt}
  {e : ConversionError}

/-- What came of the steps in which a converter wrote the instance `id` on the objects `g`: its node
was made from the answer, or the save has halted with it. -/
inductive Wrote (session : Session) (c : LoadedConverter Behaviour) (tag : Option TagUri)
    (id : ObjectId) (g : ObjectGraph) (s : SaveState) : Option Halt → Prop
  | answer {raw : Object} {h : ObjectGraph} {halt : Option Halt}
      (hcall : Yields (c.converter.behaviour.toTree session.context (.ref id) tag) g raw h)
      (hsource : s.sources.lookup id = some (.answer tag raw)) : Wrote session c tag id g s halt
  | invalid {raw : Object} {h : ObjectGraph}
      (hcall : Yields (c.converter.behaviour.toTree session.context (.ref id) tag) g raw h) :
      Wrote session c tag id g s (some (.failed (.invalidTreeValue c.className (h.kind raw))))
  | failed {message : String} {h : ObjectGraph}
      (hcall : Fails (c.converter.behaviour.toTree session.context (.ref id) tag) g message h) :
      Wrote session c tag id g s (some (.failed (.converterFailed tag c.className message)))

/-- The converter chose a tag and wrote the instance `id`, on objects that came from `start`. -/
def WrittenBy (session : Session) (start : ObjectGraph) (calls : List Call) (halt : Option Halt)
    (s : SaveState) (id : ObjectId) (c : LoadedConverter Behaviour) : Prop :=
  ∃ tag g, .toTree c tag (.ref id) ∈ calls ∧
    (∀ i t, start.type? i = some t → g.type? i = some t) ∧
    tag = c.selectTag session.context g (.ref id) ∧ Wrote session c tag id g s halt

theorem WrittenBy.mono {g : ObjectGraph} {c : LoadedConverter Behaviour}
    (h : WrittenBy session g calls none s id c) (hmore : ∀ call ∈ calls, call ∈ more)
    (hsource : s'.sources.lookup id = s.sources.lookup id) :
    WrittenBy session g more halt s' id c := by
  obtain ⟨tag, k, hcall, hkept, htag, hwrote⟩ := h
  cases hwrote with
  | answer hyields hsrc =>
    exact ⟨tag, k, hmore _ hcall, hkept, htag, .answer hyields (hsource.trans hsrc)⟩

/-- What a save has done since the state `start`, where it made these calls and has halted, or not
yet. -/
structure ByType (session : Session) (types : NativeType → Prop) (start : SaveState)
    (calls : List Call) (halt : Option Halt) (s : SaveState) : Prop where
  typed : s.objects.HasTypes types
  kept : ∀ id t, start.objects.type? id = some t → s.objects.type? id = some t
  memo : ∀ id, (start.memo.lookup id).isSome → (s.memo.lookup id).isSome
  log : s.calls = start.calls ++ calls
  called : ∀ call ∈ calls, ∃ c id t, call.written = (c, .ref id) ∧
    s.objects.type? id = some t ∧ session.registry.converterForInstance t = some c
  met : ∀ id t, start.objects.type? id = some t → start.memo.lookup id = none →
    (s.memo.lookup id).isSome →
    (∃ c, session.registry.converterForInstance t = some c ∧
      WrittenBy session start.objects calls halt s id c) ∨
    session.registry.converterForInstance t = none ∧
      halt = some (.failed (.unrepresentable t.name))
  refused : ∀ name, halt = some (.failed (.unrepresentable name)) →
    name = "unresolved back-reference" ∨ ∃ id t, s.objects.type? id = some t ∧ t.name = name ∧
      session.registry.converterForInstance t = none

theorem ByType.refl (h : start.objects.HasTypes types) :
    ByType session types start [] none start where
  typed := h
  kept _ _ ht := ht
  memo _ hid := hid
  log := (List.append_nil _).symm
  called := by simp
  met id t _ hnone hsome := by
    rw [hnone] at hsome
    cases hsome
  refused := by
    rintro _ ⟨⟩

theorem ByType.meet (h : ByType session types start calls none s)
    (hnew : s.memo.lookup id = none)
    (hsources : ∀ i, i ≠ id → s'.sources.lookup i = s.sources.lookup i)
    (htyped : s'.objects.HasTypes types)
    (hkept : ∀ i t, s.objects.type? i = some t → s'.objects.type? i = some t)
    (hmemo : ∀ i, (s'.memo.lookup i).isSome ↔ i = id ∨ (s.memo.lookup i).isSome)
    (hcalls : s'.calls = s.calls ++ more)
    (hmore : ∀ call ∈ more, ∃ c t, call.written = (c, .ref id) ∧
      s.objects.type? id = some t ∧ session.registry.converterForInstance t = some c)
    (hmet : ∀ t, s.objects.type? id = some t →
      (∃ c, session.registry.converterForInstance t = some c ∧
        WrittenBy session s.objects more halt s' id c) ∨
      session.registry.converterForInstance t = none ∧
        halt = some (.failed (.unrepresentable t.name)))
    (hrefused : ∀ name, halt = some (.failed (.unrepresentable name)) →
      ∃ t, s.objects.type? id = some t ∧ t.name = name ∧
        session.registry.converterForInstance t = none) :
    ByType session types start (calls ++ more) halt s' where
  typed := htyped
  kept i t hi := hkept i t (h.kept i t hi)
  memo i hi := (hmemo i).2 (.inr (h.memo i hi))
  log := by rw [hcalls, h.log, List.append_assoc]
  called call hcall := by
    rcases List.mem_append.1 hcall with hcall | hcall
    · obtain ⟨c, i, t, hw, ht, hc⟩ := h.called call hcall
      exact ⟨c, i, t, hw, hkept i t ht, hc⟩
    · obtain ⟨c, t, hw, ht, hc⟩ := hmore call hcall
      exact ⟨c, id, t, hw, hkept id t ht, hc⟩
  met i t ht hnone hsome := by
    rcases (hmemo i).1 hsome with rfl | hsome
    · refine (hmet t (h.kept i t ht)).imp_left ?_
      intro ⟨c, hc, tag, g, hcall, hfrom, hwrote⟩
      exact ⟨c, hc, tag, g, List.mem_append_right _ hcall,
        fun j u hu => hfrom j u (h.kept j u hu), hwrote⟩
    · obtain ⟨c, hc, hwritten⟩ := (h.met i t ht hnone hsome).resolve_right (by simp)
      have hne : i ≠ id := by
        rintro rfl
        simp [hnew] at hsome
      exact .inl ⟨c, hc, hwritten.mono (fun _ => List.mem_append_left _) (hsources i hne)⟩
  refused name hname := by
    obtain ⟨t, ht, htname, hc⟩ := hrefused name hname
    exact .inr ⟨id, t, hkept id t ht, htname, hc⟩

theorem lookup_cons_isSome (id : ObjectId) (n : NodeId) (memo : List (ObjectId × NodeId))
    (i : ObjectId) :
    (((id, n) :: memo).lookup i).isSome ↔ i = id ∨ (memo.lookup i).isSome := by
  by_cases hi : i = id
  · simp [hi]
  · simp [List.lookup_cons, beq_eq_false_iff_ne.2 hi, hi]

section
variable {type : NativeType} {payload : Object} {c : LoadedConverter Behaviour}
  {tag : Option TagUri}

theorem ByType.call (hkeeps : session.KeepsTypes types)
    (h : ByType session types start calls none s) (hnew : s.memo.lookup id = none)
    (hsources : ∀ i, i ≠ id → s'.sources.lookup i = s.sources.lookup i)
    (hcell : s.objects.read id = .native type payload)
    (hc : session.registry.converterForInstance type = some c)
    (hobjects : ((c.converter.behaviour.toTree session.context (.ref id) tag).run s.objects).2 =
      s'.objects) {n : NodeId} (hmemo : s'.memo = (id, n) :: s.memo)
    (hcalls : s'.calls = s.calls ++ c.callsFor tag (.ref id))
    (htag : tag = c.selectTag session.context s.objects (.ref id))
    (hwrote : Wrote session c tag id s.objects s' halt)
    (hhalt : ∀ name, halt ≠ some (.failed (.unrepresentable name))) :
    ByType session types start (calls ++ c.callsFor tag (.ref id)) halt s' := by
  have htype := ObjectGraph.type?_native hcell
  obtain ⟨htyped, hkept⟩ :=
    hkeeps c (List.mem_of_find?_eq_some hc) (.ref id) tag s.objects h.typed
  rw [hobjects] at htyped hkept
  refine h.meet hnew hsources htyped hkept (fun i => by rw [hmemo, lookup_cons_isSome]) hcalls
    (fun call hcall => ⟨c, type, LoadedConverter.written_callsFor hcall, htype, hc⟩)
    (fun t ht => ?_) fun name hname => absurd hname (hhalt name)
  obtain rfl : type = t := Option.some.inj (htype.symm.trans ht)
  exact .inl ⟨c, hc, tag, s.objects, c.toTree_mem_callsFor tag (.ref id), fun _ _ hu => hu, htag,
    hwrote⟩

end

theorem ByType.reads (hkeeps : session.KeepsTypes types)
    (h : ByType session types start calls none s) (hnew : s.memo.lookup id = none)
    {log : List Call} (hreads : Reads session s id src objects log) :
    ∃ calls, ByType session types start calls none (s.enter id src objects log) := by
  have hsources (src : Source) (objects : ObjectGraph) (log : List Call) (i : ObjectId)
      (hi : i ≠ id) : (s.enter id src objects log).sources.lookup i = s.sources.lookup i := by
    rw [SaveState.lookup_sources_enter, if_neg hi]
  have hcontainer (hnone : s.objects.type? id = none) :
      ByType session types start (calls ++ []) none (s.enter id src s.objects s.calls) :=
    h.meet hnew (hsources _ _ _) h.typed (fun _ _ ht => ht) (lookup_cons_isSome id _ _)
      (List.append_nil _).symm (by simp) (by simp [hnone]) (by rintro _ ⟨⟩)
  cases hreads with
  | list hcell => exact ⟨_, hcontainer (by rw [ObjectGraph.type?, hcell])⟩
  | map hcell => exact ⟨_, hcontainer (by rw [ObjectGraph.type?, hcell])⟩
  | answer hcell hc htag hcall =>
    exact ⟨_, h.call hkeeps hnew (hsources _ _ _) hcell hc (congrArg Prod.snd hcall) rfl rfl htag
      (.answer hcall List.lookup_cons_self) (by rintro _ ⟨⟩)⟩

theorem ByType.refuses (hkeeps : session.KeepsTypes types)
    (h : ByType session types start calls none s) (hnew : s.memo.lookup id = none)
    (hrefuses : Refuses session s id e s') :
    ∃ calls, ByType session types start calls (some (.failed e)) s' := by
  cases hrefuses with
  | @unknown type payload hcell hc =>
    have htype := ObjectGraph.type?_native hcell
    refine ⟨calls ++ [], h.meet hnew (fun _ _ => rfl) h.typed (fun _ _ ht => ht)
      (lookup_cons_isSome id _ _) (List.append_nil _).symm (by simp) (fun t ht => ?_)
      fun name hname => ?_⟩
    · obtain rfl : type = t := Option.some.inj (htype.symm.trans ht)
      exact .inr ⟨hc, rfl⟩
    · cases hname
      exact ⟨type, htype, rfl, hc⟩
  | failed hcell hc htag hcall =>
    exact ⟨_, h.call hkeeps hnew (fun _ _ => rfl) hcell hc (congrArg Prod.snd hcall) rfl rfl htag
      (.failed hcall) (by rintro _ ⟨⟩)⟩
  | invalid hcell hc htag hcall =>
    exact ⟨_, h.call hkeeps hnew (fun _ _ => rfl) hcell hc (congrArg Prod.snd hcall) rfl rfl htag
      (.invalid hcall) (by rintro _ ⟨⟩)⟩

theorem ByType.halts (h : ByType session types start calls none s)
    (hrefused : ∀ name, halt = some (.failed (.unrepresentable name)) →
      name = "unresolved back-reference") : ByType session types start calls halt s where
  typed := h.typed
  kept := h.kept
  memo := h.memo
  log := h.log
  called := h.called
  met i t ht hnone hsome := by
    obtain ⟨c, hc, hwritten⟩ := (h.met i t ht hnone hsome).resolve_right (by simp)
    exact .inl ⟨c, hc, hwritten.mono (fun _ hcall => hcall) rfl⟩
  refused name hname := .inl (hrefused name hname)

theorem ByType.nodes (h : ByType session types start calls none s) (nodes : NodeGraph) :
    ByType session types start calls none { s with nodes } where
  typed := h.typed
  kept := h.kept
  memo := h.memo
  log := h.log
  called := h.called
  met i t ht hnone hsome := by
    obtain ⟨c, hc, hwritten⟩ := (h.met i t ht hnone hsome).resolve_right (by simp)
    exact .inl ⟨c, hc, hwritten.mono (fun _ hcall => hcall) rfl⟩
  refused := h.refused

abbrev GoesByType (session : Session) (types : NativeType → Prop) (start : SaveState)
    (halt : Option Halt) (s : SaveState) : Prop :=
  ∃ calls, ByType session types start calls halt s

theorem preserves_fill {visit : Object → SaveM NodeId}
    (hv : ∀ o, Preserves (GoesByType session types start) (visit o)) (n : NodeId) (src : Source)
    (r : List Object) (index : Nat) :
    Preserves (GoesByType session types start) (fill visit n src index r) := by
  induction r generalizing index with
  | nil => exact preserves_pure ()
  | cons o r ih =>
    refine (hv o).bind fun m => Preserves.bind (preserves_modify ?_) fun _ => ih (index + 1)
    exact fun s ⟨calls, h⟩ => ⟨calls, h.nodes _⟩

theorem preserves_convert (hkeeps : session.KeepsTypes types) (start : SaveState) (depth : Nat)
    (o : Object) : Preserves (GoesByType session types start) (convert session depth o) := by
  induction depth generalizing o with
  | zero => exact preserves_throw fun s ⟨calls, h⟩ => ⟨calls, h.halts (by rintro _ ⟨⟩)⟩
  | succ depth ih =>
    rintro s ⟨calls, h⟩
    cases o with
    | ref id =>
      cases hmemo : s.memo.lookup id with
      | some n =>
        rw [convert, run_get_bind, hmemo]
        exact ⟨calls, h⟩
      | none =>
        -- its parts are visited after it is entered, or the save ends with it
        rw [run_convert_new hmemo]
        rcases reads_or_refuses session s id with ⟨src, objects, log, hreads⟩ | ⟨e, s', hrefuses⟩
        · rw [hreads.run]
          exact ((preserves_fill ih _ src src.parts 0).bind fun _ => preserves_pure _) _
            (h.reads hkeeps hmemo hreads)
        · have hrun := hrefuses.run (convert session depth)
          rw [Fails] at hrun
          rw [hrun]
          exact h.refuses hkeeps hmemo hrefuses
    | pending n =>
      exact ⟨calls, h.halts fun name hname => by cases hname; rfl⟩
    | null | bool | int | float | string | bytes => exact ⟨calls, h.nodes _⟩

/-- Whatever becomes of it, an instance that a save is asked for is met. -/
theorem memo_convert (hkeeps : session.KeepsTypes types) (hs : s.objects.HasTypes types)
    (depth : Nat) (id : ObjectId) :
    (((convert session (depth + 1) (.ref id)).run s).2.memo.lookup id).isSome := by
  cases hmemo : s.memo.lookup id with
  | some n =>
    rw [convert, run_get_bind, hmemo]
    exact Option.isSome_iff_exists.2 ⟨n, hmemo⟩
  | none =>
    rw [run_convert_new hmemo]
    rcases reads_or_refuses session s id with ⟨src, objects, log, hreads⟩ | ⟨e, s', hrefuses⟩
    · -- the visits of its parts start from where it is entered, and keep it
      have hentered := (lookup_cons_isSome id s.nodes.size s.memo id).2 (.inl rfl)
      obtain ⟨calls, h⟩ := (ByType.refl hs).reads hkeeps hmemo hreads
      have hfill := preserves_fill (preserves_convert hkeeps (s.enter id src objects log) depth)
        s.nodes.size src src.parts 0
      rw [hreads.run]
      obtain ⟨_, hend⟩ := (hfill.bind fun _ => preserves_pure s.nodes.size) _ ⟨_, .refl h.typed⟩
      exact hend.memo id hentered
    · have hrun := hrefuses.run (convert session depth)
      rw [Fails] at hrun
      rw [hrun]
      cases hrefuses <;> exact (lookup_cons_isSome id _ _ id).2 (.inl rfl)

/-- What becomes of an instance `id` of the type `t` in steps from the objects `start` that make
these calls and give `r`, if `c?` is the converter of its type. The complaint about a pending
reference does not name a type. -/
structure Treated (session : Session) (start : ObjectGraph)
    (c? : Option (LoadedConverter Behaviour)) (t : NativeType) (id : ObjectId)
    (r : Except Halt NodeId × SaveState) (calls : List Call) : Prop where
  called : ∀ c, c? = some c → WrittenBy session start calls (failure? r.1) r.2 id c
  only : ∀ call ∈ calls, ∀ c, call.written = (c, .ref id) → c? = some c
  refused : c? = none → r.1 = .error (.failed (.unrepresentable t.name))
  missing : r.1 = .error (.failed (.unrepresentable t.name)) →
    t.name ≠ "unresolved back-reference" → c? = none

theorem ByType.treated {es : List (LoadedExtension Behaviour)} {t : NativeType}
    {r : Except Halt NodeId} (h : ByType session types s calls (failure? r) s')
    (hknown : KnownTypes es types) (ht : types t) (htype : s.objects.type? id = some t)
    (hmemo : s.memo.lookup id = none) (hmet : (s'.memo.lookup id).isSome) :
    Treated session s.objects (session.registry.converterForInstance t) t id (r, s') calls where
  called c hc := by
    rcases h.met id t htype hmemo hmet with ⟨c', hc', hwritten⟩ | ⟨hnone, -⟩
    · obtain rfl : c' = c := Option.some.inj (hc'.symm.trans hc)
      exact hwritten
    · cases hnone.symm.trans hc
  only call hcall c hw := by
    obtain ⟨c', i, u, hw', hu, hc'⟩ := h.called call hcall
    cases hw.symm.trans hw'
    cases hu.symm.trans (h.kept id t htype)
    exact hc'
  refused hnone := by
    rcases h.met id t htype hmemo hmet with ⟨c', hc', -⟩ | ⟨-, hhalt⟩
    · cases hnone.symm.trans hc'
    · exact failure?_eq_some.1 hhalt
  missing hr hname := by
    obtain ⟨i, u, hu, hut, hnone⟩ := (h.refused _ (failure?_eq_some.2 hr)).resolve_left hname
    rwa [← hknown.eq_of_name u (h.typed i u hu) t ht hut]

end Save

/-- A type has the same converter however it is asked for: the first that was registered and
declares the type. From any state on, it writes each instance of the type that a save comes to; if
there is none, the save ends with a complaint that names the type. -/
theorem type_lookups_agree {es : List (LoadedExtension Behaviour)} {session : Session}
    {types : NativeType → Prop} (hes : Coherent es)
    (hregistry : session.registry = .ofExtensions es)
    (hknown : KnownTypes es types) (hkeeps : session.KeepsTypes types) {t : NativeType}
    (ht : types t) :
    session.registry.converterForInstance t = firstDeclaring es t ∧
    (∀ q, q = .direct t ∨ q = .named t.name →
      session.registry.converterForType q = firstDeclaring es t ∧
      session.registry.handlesType q = (firstDeclaring es t).isSome) ∧
    ∀ s : SaveState, s.objects.HasTypes types → ∀ depth o,
      ∃ calls, ((Save.convert session depth o).run s).2.calls = s.calls ++ calls ∧
        ∀ id, s.objects.type? id = some t → s.memo.lookup id = none →
          (o = .ref id ∧ 0 < depth ∨
            (((Save.convert session depth o).run s).2.memo.lookup id).isSome) →
          Save.Treated session s.objects (firstDeclaring es t) t id
            ((Save.convert session depth o).run s) calls := by
  have hinstance : session.registry.converterForInstance t = firstDeclaring es t := by
    rw [hregistry, Registry.converterForInstance_eq_firstDeclaring hes]
  refine ⟨hinstance, fun q hq => ?_, fun s hs depth o => ?_⟩
  · have hname : q.name = t.name := by
      rcases hq with rfl | rfl
      · rfl
      · rfl
    have htype : session.registry.converterForType q = firstDeclaring es t := by
      rw [hregistry, Registry.converterForType_eq_firstDeclaring hes hknown ht hname]
    exact ⟨htype, by rw [Registry.handlesType, htype]⟩
  · obtain ⟨calls, h⟩ := Save.preserves_convert hkeeps s depth o s ⟨_, .refl hs⟩
    refine ⟨calls, h.log, fun id htype hmemo hmet => ?_⟩
    rw [← hinstance]
    refine h.treated hknown ht htype hmemo ?_
    rcases hmet with ⟨rfl, hdepth⟩ | hmet
    · obtain ⟨depth, rfl⟩ := Nat.exists_eq_succ_of_ne_zero hdepth.ne'
      exact Save.memo_convert hkeeps hs depth id
    · exact hmet

def typeLost : NativeType := ⟨2, "Lost", "Lost"⟩

def namesNow : Converter Behaviour :=
  ⟨0, .ok "NamesNow", .ok [], .ok [.named "Now"], .ok false, .holding typeNow⟩

def declaresBoth : Converter Behaviour :=
  ⟨0, .ok "DeclaresBoth", .ok [], .ok [.direct typeNow, .direct typeLater], .ok false,
    .holding typeLater⟩

/-- One extension that declares a type by name, and one that declares it and another directly. -/
def mixedExtensions : List (LoadedExtension Behaviour) :=
  [⟨firstInfo, [], [⟨namesNow, firstInfo, [], [.named "Now"]⟩]⟩,
    ⟨secondInfo, [], [⟨declaresBoth, secondInfo, [], [.direct typeNow, .direct typeLater]⟩]⟩]

def mixedSession : Session :=
  ⟨.ofExtensions mixedExtensions, ⟨false⟩⟩

theorem mixedExtensions_coherent : Coherent mixedExtensions where
  loaded := by
    simp only [mixedExtensions, List.forall_mem_cons, List.not_mem_nil, false_imp_iff, implies_true,
      and_true]
    exact ⟨⟨⟨.ok none, .ok false, .ok "First", .ok [], .ok [namesNow]⟩, 0, none, rfl⟩,
      ⟨⟨.ok none, .ok false, .ok "Second", .ok [], .ok [declaresBoth]⟩, 1, none, rfl⟩⟩
  serial := by simp [mixedExtensions, firstInfo, secondInfo]
  id := by simp [mixedExtensions]

theorem mixedExtensions_knownTypes :
    KnownTypes mixedExtensions (· ∈ [typeNow, typeLater, typeLost]) where
  eq_of_name := by decide
  declared := by simp [mixedExtensions]

theorem Behaviour.holding_keepsTypes (type : NativeType) (ctx : Context)
    (types : NativeType → Prop) : (holding type).KeepsTypes ctx types := by
  intro o tag g hg
  rw [run_toTree_holding]
  exact ⟨hg, fun _ _ h => h⟩

theorem mixedSession_keepsTypes (types : NativeType → Prop) : mixedSession.KeepsTypes types := by
  intro c hc
  have hc : c ∈ mixedExtensions.flatMap (·.converters) := by
    rw [mixedSession, Registry.converters_ofExtensions mixedExtensions_coherent] at hc
    exact mem_of_mem_firstOfEach hc
  simp only [mixedExtensions, List.flatMap_cons, List.flatMap_nil, List.cons_append,
    List.nil_append, List.mem_cons, List.not_mem_nil, or_false] at hc
  rcases hc with rfl | rfl
  · exact Behaviour.holding_keepsTypes typeNow _ types
  · exact Behaviour.holding_keepsTypes typeLater _ types

/-- A list of an instance that has a converter and one that has none. -/
def mixedObjects : ObjectGraph :=
  ⟨#[.list [.ref 1, .ref 2], .native typeNow (.int 1), .native typeLost .null]⟩

theorem mixedObjects_hasTypes :
    mixedObjects.HasTypes (· ∈ [typeNow, typeLater, typeLost]) := by
  intro id t ht
  have hid : id < mixedObjects.size := by
    apply Nat.lt_of_not_le
    intro hle
    rw [ObjectGraph.type?, Heap.read_of_size_le _ _ hle] at ht
    cases ht
  revert t
  revert id
  decide

theorem type_lookups_agree_mixed :
    Coherent mixedExtensions ∧
      KnownTypes mixedExtensions (· ∈ [typeNow, typeLater, typeLost]) ∧
      mixedSession.KeepsTypes (· ∈ [typeNow, typeLater, typeLost]) ∧
      (mixedSession.registry.converterForType (.direct typeNow)).map (·.identity) = some (0, 0) ∧
      (mixedSession.registry.converterForType (.named "Later")).map (·.identity) = some (0, 1) ∧
      mixedObjects.HasTypes (· ∈ [typeNow, typeLater, typeLost]) ∧
      (save mixedSession 3 (.ref 0) mixedObjects).1 =
        .error (.failed (.unrepresentable "Lost")) := by
  have hregistry : mixedSession.registry = .ofExtensions mixedExtensions := rfl
  have hagree {t : NativeType} (ht : t ∈ [typeNow, typeLater, typeLost]) :=
    type_lookups_agree mixedExtensions_coherent hregistry mixedExtensions_knownTypes
      (mixedSession_keepsTypes _) ht
  refine ⟨mixedExtensions_coherent, mixedExtensions_knownTypes, mixedSession_keepsTypes _, ?_, ?_,
    mixedObjects_hasTypes, ?_⟩
  · have hnow := (hagree (t := typeNow) (by decide)).2.1 (.direct typeNow) (.inl rfl)
    rw [hnow.1]
    decide +kernel
  · have hlater := (hagree (t := typeLater) (by decide)).2.1 (.named "Later") (.inr rfl)
    rw [hlater.1]
    decide +kernel
  · obtain ⟨calls, -, htreated⟩ := (hagree (t := typeLost) (by decide)).2.2
      ⟨mixedObjects, ∅, [], [], []⟩ mixedObjects_hasTypes 3 (.ref 0)
    exact (htreated 2 rfl rfl (.inr (by decide +kernel))).refused (by decide +kernel)

end TaggedGraph
