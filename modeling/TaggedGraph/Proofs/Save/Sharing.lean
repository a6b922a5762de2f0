import TaggedGraph.Proofs.Preorder
import TaggedGraph.Proofs.Save.Faithful

namespace TaggedGraph

open Traversal Event

/-- What the converters of instances chose: a tag, if any, and the value to be written. -/
abbrev Answers := ObjectId → Option TagUri × Object

/-- What is written after an object: the parts of a list or a map, the answer for an instance. -/
def ObjectGraph.next (g : ObjectGraph) (answer : Answers) : Object → List Object
  | .ref id =>
    match g.read id with
    | .list items => items
    | .map entries => entries.values
    | .native _ _ => [(answer id).2]
  | _ => []

def Session.callsFor (session : Session) (type : NativeType) (tag : Option TagUri) (o : Object) :
    List Call :=
  match session.registry.converterForInstance type with
  | some c => (if c.converter.selects then [.selectTag c o] else []) ++ [.toTree c tag o]
  | none => []

def Session.callsAt (session : Session) (g : ObjectGraph) (answer : Answers) : Object → List Call
  | .ref id =>
    match g.read id with
    | .native type _ => session.callsFor type (answer id).1 (.ref id)
    | _ => []
  | _ => []

/-- The objects in `order` have been saved, each once. -/
structure Shared (session : Session) (start : ObjectGraph) (root : Object) (s : SaveState)
    (answer : Answers) (order : List Object) : Prop where
  grown : Fixes (· < start.size) start s.objects
  nodup : order.Nodup
  reached : ∀ o, o ∈ order ↔
    Relation.ReflTransGen (fun p q => q ∈ s.objects.next answer p) root o
  met : ∀ id, (∃ n, s.memo.lookup id = some n) ↔ .ref id ∈ order
  inj : ∀ id id' n, s.memo.lookup id = some n → s.memo.lookup id' = some n → id = id'
  containers : ∀ id n, s.memo.lookup id = some n → (s.objects.read id).isContainer →
    s.nodes.tag n = none ∧ (s.objects.read id).WrittenAs s.Stands (s.nodes.content n)
  instances : ∀ id n type payload, s.memo.lookup id = some n →
    s.objects.read id = .native type payload →
    (s.nodes.content n).Begins (s.nodeOf (answer id).2).content ∧
    ∃ c g h, session.registry.converterForInstance type = some c ∧
      Fixes (· < start.size) start g ∧ Fixes (· < h.size) h s.objects ∧
      (answer id).1 = c.selectTag session.context g (.ref id) ∧
      Yields (c.converter.behaviour.toTree session.context (.ref id) (answer id).1) g
        (answer id).2 h
  calls : s.calls = order.flatMap (session.callsAt s.objects answer)

def SaveState.answer (s : SaveState) (id : ObjectId) : Option TagUri × Object :=
  match s.sources.lookup id with
  | some (.answer tag raw) => (tag, raw)
  | _ => (none, .null)

namespace Save

variable {session : Session} {start : ObjectGraph} {s s' : SaveState} {es es' : List (Event Object)}

/-- The calls that the node of an object needed. -/
def callsOf (session : Session) (s : SaveState) : Object → List Call
  | .ref id =>
    match s.sources.lookup id, s.objects.read id with
    | some (.answer tag _), .native type _ => session.callsFor type tag (.ref id)
    | _, _ => []
  | _ => []

theorem callsOf_answer {id : ObjectId} {tag : Option TagUri} {raw payload : Object}
    {type : NativeType} (hs : s.sources.lookup id = some (.answer tag raw))
    (hcell : s.objects.read id = .native type payload) :
    callsOf session s (.ref id) = session.callsFor type tag (.ref id) := by
  simp only [callsOf, hs, hcell]

theorem callsOf_container {id : ObjectId} {src : Source} (hs : s.sources.lookup id = some src)
    (hsrc : ∀ tag raw, src ≠ .answer tag raw) : callsOf session s (.ref id) = [] := by
  cases src with
  | answer tag raw => exact absurd rfl (hsrc tag raw)
  | _ => simp only [callsOf, hs]

theorem callsOf_scalar {o : Object} (ho : o.scalar?.isSome) : callsOf session s o = [] := by
  cases o <;> first | rfl | cases ho

/-- The calls so far are those for the objects that were entered, in their order. -/
structure Called (session : Session) (s : SaveState) (es : List (Event Object)) : Prop where
  calls : s.calls = (entering es).flatMap (callsOf session s)
  instances : ∀ id tag raw, s.sources.lookup id = some (.answer tag raw) →
    ∃ type payload, s.objects.read id = .native type payload

theorem Called.nil (objects : ObjectGraph) : Called session ⟨objects, ∅, [], [], []⟩ [] :=
  ⟨rfl, by simp⟩

theorem Called.congr (h : Called session s es) (hobjects : s'.objects = s.objects)
    (hsources : s'.sources = s.sources) (hcalls : s'.calls = s.calls)
    (hes : ∃ l : List Object, (∀ o ∈ l, o.scalar?.isSome) ∧ entering es' = entering es ++ l) :
    Called session s' es' := by
  obtain ⟨l, hl, hes⟩ := hes
  have hof : callsOf session s' = callsOf session s := by
    funext o
    simp only [callsOf, hobjects, hsources]
  refine ⟨?_, by simpa only [hobjects, hsources] using h.instances⟩
  have hnone : l.flatMap (callsOf session s) = [] := by
    rw [List.flatMap_eq_nil_iff]
    exact fun o ho => callsOf_scalar (hl o ho)
  rw [hcalls, h.calls, hes, hof, List.flatMap_append, hnone, List.append_nil]

theorem entering_meet (o : Object) (es : List (Event Object)) : ∃ l : List Object,
    (∀ p ∈ l, p.scalar?.isSome) ∧ entering (meet o es) = entering es ++ l := by
  unfold meet
  split
  · rename_i h
    exact ⟨[o], by simpa using h.1, by rw [entering_snoc_leave, entering_snoc_enter]⟩
  · exact ⟨[], by simp, by simp⟩

section
variable {id : ObjectId} {src : Source} {objects : ObjectGraph} {calls : List Call}

theorem callsOf_enter (h : Called session s es)
    (hfixes : Fixes (· < s.objects.size) s.objects objects) {o : Object} (ho : o ≠ .ref id) :
    callsOf session (s.enter id src objects calls) o = callsOf session s o := by
  cases o with
  | ref x =>
    have hx : x ≠ id := fun he => ho (he ▸ rfl)
    have hlookup := s.lookup_sources_enter id src objects calls x
    rw [if_neg hx] at hlookup
    cases hs : s.sources.lookup x with
    | none => simp only [callsOf, hlookup, hs]
    | some src' =>
      rw [hs] at hlookup
      cases src' with
      | answer tag raw =>
        obtain ⟨type, payload, hcell⟩ := h.instances x tag raw hs
        have hread := (hfixes.read x (ObjectGraph.lt_size_of_native hcell)).trans hcell
        rw [callsOf_answer hs hcell, callsOf_answer hlookup hread]
      | _ => rw [callsOf_container hs nofun, callsOf_container hlookup nofun]
  | _ => rfl

theorem callsOf_enter_self (hreads : Reads session s id src objects calls)
    (hfixes : Fixes (· < s.objects.size) s.objects objects) :
    s.calls ++ callsOf session (s.enter id src objects calls) (.ref id) = calls := by
  have hlookup := s.lookup_sources_enter id src objects calls id
  rw [if_pos rfl] at hlookup
  cases hreads with
  | answer hcell hc =>
    have hread := (hfixes.read id (ObjectGraph.lt_size_of_native hcell)).trans hcell
    rw [callsOf_answer hlookup hread, Session.callsFor, hc]
  | _ => rw [callsOf_container hlookup nofun, List.append_nil]

theorem Called.snoc_enter (h : Called session s es) (hid : enter (.ref id) ∉ es)
    (hreads : Reads session s id src objects calls)
    (hfixes : Fixes (· < s.objects.size) s.objects objects) :
    Called session (s.enter id src objects calls) (es ++ [enter (.ref id)]) where
  calls := by
    have hold : (entering es).flatMap (callsOf session (s.enter id src objects calls)) =
        (entering es).flatMap (callsOf session s) := by
      apply List.flatMap_congr
      intro o ho
      exact callsOf_enter h hfixes fun he => hid (he ▸ mem_entering.1 ho)
    rw [entering_snoc_enter, List.flatMap_append, hold, ← h.calls, List.flatMap_singleton]
    exact (callsOf_enter_self hreads hfixes).symm
  instances x tag raw hx := by
    rw [SaveState.lookup_sources_enter] at hx
    split at hx
    · rename_i he
      cases hx
      subst he
      cases hreads with
      | answer hcell =>
        exact ⟨_, _, (hfixes.read x (ObjectGraph.lt_size_of_native hcell)).trans hcell⟩
    · obtain ⟨type, payload, hcell⟩ := h.instances x tag raw hx
      exact ⟨type, payload, (hfixes.read x (ObjectGraph.lt_size_of_native hcell)).trans hcell⟩

end

theorem Steps.called (hadds : session.AddsOnly) (h : Steps session (s, es) (s', es'))
    (hc : Called session s es) : Called session s' es' := by
  refine h.keeps (J := Called session) (fun s es s' es' hstep h => ?_) hc
  cases hstep with
  | enter hn hreads => exact h.snoc_enter hn hreads (hreads.fixes hadds)
  | @refer _ _ _ _ _ o =>
    apply h.congr
    · simp [SaveState.put]
    · simp
    · simp [SaveState.put]
    · rw [entering_snoc_refer]
      exact entering_meet o es
  | leave => exact h.congr rfl rfl rfl ⟨[], by simp, by simp⟩

section
variable {id : ObjectId} {src : Source} {root : Object} {answer : Answers}

theorem Read.next {g : ObjectGraph} (h : Read session start g id src)
    (hs : s.sources.lookup id = some src) : g.next s.answer (.ref id) = src.parts := by
  cases h with
  | container hsrc => cases hc : g.read id <;> rw [hc] at hsrc <;> cases hsrc <;>
      simp only [ObjectGraph.next, hc, Source.parts]
  | answer hcell => simp only [ObjectGraph.next, hcell, SaveState.answer, hs, Source.parts]

theorem Read.callsAt (h : Read session start s.objects id src)
    (hs : s.sources.lookup id = some src) :
    session.callsAt s.objects s.answer (.ref id) = callsOf session s (.ref id) := by
  cases h with
  | container hsrc =>
    rw [callsOf_container hs fun tag raw he => ?_]
    · cases hc : s.objects.read id <;> rw [hc] at hsrc <;> cases hsrc <;>
        simp only [Session.callsAt, hc]
    · subst he
      cases hc : s.objects.read id <;> rw [hc] at hsrc <;> cases hsrc
  | answer hcell =>
    rw [callsOf_answer hs hcell]
    simp only [Session.callsAt, hcell, SaveState.answer, hs]

theorem Faithful.agrees (h : Faithful session start s) :
    Agrees (s.objects.next s.answer) s where
  scalar o ho := by cases o <;> first | rfl | cases ho
  ref id src hs := (h.sources id src hs).2.next hs

/-- Which links are followed from objects without a node makes no difference. -/
theorem walk_eq_of_agrees {depth : Nat} {n : NodeId} {links : Object → List Object}
    (hsave : save session depth (.ref id) start = (.ok n, s)) (hlinks : Agrees links s) :
    walk links depth [] (.ref id) = walk s.links depth [] (.ref id) := by
  obtain ⟨s₁, es₁, -, hs, -, -, -, hevents⟩ := visits_convert depth (.ref id) _ [] n s
    (.nil start) (fun p he => absurd he (by simp)) hsave
  obtain rfl : s = s₁ := hs
  exact (hevents links hlinks).trans (hevents s.links (agrees_links s)).symm

structure Finished (session : Session) (start : ObjectGraph) (s : SaveState)
    (ms : ObjectId → List NodeId) (es : List (Event Object)) : Prop where
  faithful : Faithful session start s
  tracks : Tracks s es
  nodes : Nodes ms s es
  copied : Copied s es
  called : Called session s es
  left : ∀ p, enter p ∈ es → leave p ∈ es

variable {ms : ObjectId → List NodeId} (h : Finished session start s ms es)
include h

theorem Finished.exists_read {n : NodeId} (hn : s.memo.lookup id = some n) :
    ∃ src, s.sources.lookup id = some src ∧ Read session start s.objects id src := by
  obtain ⟨src, hs⟩ := h.tracks.exists_source ((h.tracks.memo id).1 (by simp [hn]))
  exact ⟨src, hs, (h.faithful.sources id src hs).2⟩

theorem Finished.next_eq {p : Object} (hp : enter p ∈ es) :
    s.objects.next s.answer p = s.links p := by
  cases p with
  | ref id =>
    obtain ⟨src, hs⟩ := h.tracks.exists_source hp
    rw [(h.faithful.sources id src hs).2.next hs, SaveState.links_eq hs]
  | pending m => exact absurd hp (h.tracks.pending m)
  | _ => rfl

theorem Finished.container {n : NodeId} (hn : s.memo.lookup id = some n)
    (hcell : (s.objects.read id).isContainer) : s.nodes.tag n = none ∧
      (s.objects.read id).WrittenAs s.Stands (s.nodes.content n) := by
  obtain ⟨src, hs, hread⟩ := h.exists_read hn
  cases hread with
  | container hsrc =>
    have hl := h.left _ ((h.tracks.memo id).1 (by simp [hn]))
    exact (h.nodes.holds id src n hs hn).writtenAs hsrc (h.nodes.children h.tracks hs hl)
  | answer hnative =>
    rw [hnative] at hcell
    cases hcell

theorem Finished.instance {n : NodeId} {type : NativeType} {payload : Object}
    (hn : s.memo.lookup id = some n) (hcell : s.objects.read id = .native type payload) :
    (s.nodes.content n).Begins (s.nodeOf (s.answer id).2).content ∧
    ∃ c g k, session.registry.converterForInstance type = some c ∧
      Fixes (· < start.size) start g ∧ Fixes (· < k.size) k s.objects ∧
      (s.answer id).1 = c.selectTag session.context g (.ref id) ∧
      Yields (c.converter.behaviour.toTree session.context (.ref id) (s.answer id).1) g
        (s.answer id).2 k := by
  obtain ⟨src, hs, hread⟩ := h.exists_read hn
  cases hread with
  | container hsrc =>
    rw [hcell] at hsrc
    cases hsrc
  | @answer _ _ raw c tag g k hnative hc hstart htag hcall hend =>
    cases hcell.symm.trans hnative
    have hanswer : s.answer id = (tag, raw) := by simp only [SaveState.answer, hs]
    have hlink : (s.links (.ref id))[0]? = some raw := by
      rw [SaveState.links_eq hs]
      rfl
    have hl := h.left _ ((h.tracks.memo id).1 (by simp [hn]))
    rw [hanswer]
    exact ⟨h.copied id tag raw n hs hn (h.tracks.trace.full _ 0 raw hl hlink),
      c, g, k, hc, hstart, hend, htag, hcall⟩

theorem Finished.shared {depth : Nat}
    (hes : walk (s.objects.next s.answer) depth [] root = es) (hroot : enter root ∈ es) :
    Shared session start root s s.answer
      (visit (s.objects.next s.answer) depth [] root) where
  grown := h.faithful.grown
  nodup := nodup_visit _ depth [] root List.nodup_nil
  reached o := by
    apply mem_visit_iff
    · rw [hes]
      exact h.tracks.trace.congr fun p hp => h.next_eq hp
    · rwa [hes]
  met id := by
    rw [mem_visit, hes, ← h.tracks.memo, Option.isSome_iff_exists]
  inj := h.nodes.inj
  containers _ _ hn hcell := h.container hn hcell
  instances _ _ _ _ hn hcell := h.instance hn hcell
  calls := by
    have horder : visit (s.objects.next s.answer) depth [] root = entering es := by
      rw [← hes, entering_walk]
      rfl
    rw [horder, h.called.calls]
    apply List.flatMap_congr
    intro o ho
    have he := mem_entering.1 ho
    cases o with
    | ref id =>
      obtain ⟨src, hs⟩ := h.tracks.exists_source he
      exact ((h.faithful.sources id src hs).2.callsAt hs).symm
    | _ => rfl

end

theorem shared_scalar {depth : Nat} {root : Object} {answer : Answers} (hroot : root.scalar?.isSome)
    (hdepth : depth ≠ 0) : Shared session start root (SaveState.meet ⟨start, ∅, [], [], []⟩ root)
      answer (visit (start.next answer) depth [] root) := by
  have hnext : start.next answer root = [] := by
    cases root <;> first | rfl | cases hroot
  have hcalls : session.callsAt start answer root = [] := by
    cases root <;> first | rfl | cases hroot
  have hvisit : visit (start.next answer) depth [] root = [root] := by
    obtain ⟨d, rfl⟩ := Nat.exists_eq_succ_of_ne_zero hdepth
    simp [visit, hnext]
  rw [hvisit]
  constructor
  case grown => simp [Fixes.refl]
  case nodup => exact List.nodup_singleton root
  case reached =>
    intro o
    rw [List.mem_singleton, SaveState.objects_meet]
    constructor
    · rintro rfl
      exact .refl
    · intro hpath
      cases Relation.ReflTransGen.cases_head hpath with
      | inl he => exact he.symm
      | inr hstep =>
        obtain ⟨p, hp, -⟩ := hstep
        simp [hnext] at hp
  case met =>
    intro id
    have hne : Object.ref id ≠ root := by
      rintro rfl
      cases hroot
    simp [hne]
  case inj => simp
  case containers => simp
  case instances => simp
  case calls => simp [hcalls]

/-- Each list, map and instance that is met gets one node, which stands wherever it is referred to
in the end. The converters of the instances are called once each, in preorder. -/
theorem save_preserves_sharing (hadds : session.AddsOnly) {depth : Nat} {root : Object}
    {n : NodeId} (hwhole : start.Whole) (hroot : start.Has root)
    (hsave : save session depth root start = (.ok n, s)) :
    s.Stands root n ∧ ∃ answer, Shared session start root s answer
      (visit (s.objects.next answer) depth [] root) := by
  cases hv : root.scalar? with
  | some v =>
    have hscalar : root.scalar?.isSome := by simp [hv]
    obtain ⟨hdepth, rfl, hstands⟩ := save_scalar hscalar hsave
    refine ⟨hstands, fun _ => (none, .null), ?_⟩
    rw [SaveState.objects_meet]
    exact shared_scalar hscalar hdepth
  | none =>
    cases root with
    | ref id =>
      have hfaithful := save_faithful hadds hwhole hroot hsave
      obtain ⟨hsteps, rfl, hmet⟩ := save_steps hsave
      have ht := hsteps.tracks (.nil start)
      obtain ⟨ms, hnodes⟩ := hsteps.nodes (.nil start) ⟨_, .nil start⟩
      have hfinished : Finished session start s ms (walk s.links depth [] (.ref id)) :=
        ⟨hfaithful, ht, hnodes, hsteps.copied (.nil start) (.nil start) (.nil start),
          hsteps.called hadds (.nil start), fun _ => leave_mem_walk⟩
      obtain ⟨n, hn⟩ := ht.exists_memo hmet
      refine ⟨⟨id, rfl, by simp [SaveState.nodeId, hn]⟩, s.answer, ?_⟩
      exact hfinished.shared (walk_eq_of_agrees hsave hfaithful.agrees) hmet
    | pending m => exact absurd hsave (not_yields_convert_pending session depth m _ n s)
    | _ => cases hv

end Save

theorem holding_addsOnly (ctx : Context) {b : Behaviour} (type : NativeType)
    (hto : b.toTree = (Behaviour.holding type).toTree) : b.AddsOnly ctx where
  fixes {o t g raw h} hcall := by
    rw [hto, Yields, Behaviour.run_toTree_holding] at hcall
    obtain rfl : g = h := congrArg Prod.snd hcall
    exact Fixes.refl _ g
  whole {o t g raw h} hwhole _ hcall := by
    rw [hto, Yields, Behaviour.run_toTree_holding] at hcall
    obtain rfl : g = h := congrArg Prod.snd hcall
    refine ⟨hwhole, ?_⟩
    cases hnative : g.native? o with
    | none =>
      rw [hnative] at hcall
      cases hcall
    | some p =>
      rw [hnative] at hcall
      cases hcall
      obtain ⟨id, -, hcell⟩ := ObjectGraph.exists_of_native? hnative
      apply hwhole id (ObjectGraph.lt_size_of_native hcell)
      simp [hcell, Cell.parts]

theorem holdingSession_addsOnly : holdingSession.AddsOnly := by
  intro c hc
  rcases List.mem_cons.1 hc with rfl | hc
  · exact holding_addsOnly _ typeNow rfl
  · cases List.mem_singleton.1 hc
    exact holding_addsOnly _ typeLater rfl

def sharingObjects : ObjectGraph :=
  ⟨#[.list [.ref 1, .ref 1, .ref 2, .ref 0], .native typeNow (.ref 2), .list [.int 1, .ref 0]]⟩

def sharingSave : Except Halt NodeId × SaveState :=
  save holdingSession 4 (.ref 0) sharingObjects

theorem sharingSave_eq : sharingSave = (.ok 0, sharingSave.2) := by
  have h : sharingSave.1 = .ok 0 := rfl
  rw [← h]

theorem sharingObjects_whole : sharingObjects.Whole := by
  unfold ObjectGraph.Whole ObjectGraph.Has
  decide

theorem save_preserves_sharing_cyclic :
    holdingSession.AddsOnly ∧ sharingObjects.Whole ∧ sharingObjects.Has (.ref 0) ∧
      save holdingSession 4 (.ref 0) sharingObjects = (.ok 0, sharingSave.2) ∧
      sharingSave.2.Stands (.ref 0) 0 ∧
      ∃ answer, Shared holdingSession sharingObjects (.ref 0) sharingSave.2 answer
        (visit (sharingSave.2.objects.next answer) 4 [] (.ref 0)) := by
  have hroot : sharingObjects.Has (.ref 0) := ObjectGraph.has_ref.2 (by decide)
  exact ⟨holdingSession_addsOnly, sharingObjects_whole, hroot, sharingSave_eq,
    Save.save_preserves_sharing holdingSession_addsOnly sharingObjects_whole hroot sharingSave_eq⟩

end TaggedGraph
