import TaggedGraph.Proofs.Converters
import TaggedGraph.Proofs.Save.Nodes

namespace TaggedGraph

open Traversal Event

theorem Source.Holds.content_eq_iff {src : Source} {ms ms' : List NodeId} {node node' : Node}
    (h : src.Holds ms node) (hlt : ms.length < src.parts.length) (h' : src.Holds ms' node')
    (hle : src.parts.length ≤ ms'.length) (tag : Option TagUri) :
    (⟨tag.or node.tag, node.content⟩ : Node) = ⟨tag.or node'.tag, node'.content⟩ ↔
      node'.content = .scalar .null ∧ tag.or node'.tag = tag := by
  cases src with
  | list items =>
    cases h
    cases h'
    have hne : ms ≠ ms' := by
      rintro rfl
      omega
    simp [hne]
  | map entries =>
    obtain ⟨m, rfl, hm⟩ := h
    obtain ⟨m', rfl, hm'⟩ := h'
    have hne : m ≠ m' := by
      rintro rfl
      have := congrArg List.length (hm.symm.trans hm')
      simp [OrderedMap.keys] at this
      simp [Source.parts, OrderedMap.values] at hlt hle
      omega
    simp [hne]
  | answer t raw =>
    -- an instance has one part, so that its node is still as it was made
    have hms : ms = [] := List.eq_nil_of_length_eq_zero (by simpa [Source.parts] using hlt)
    have hnode := h hms
    subst hnode
    simp [and_comm, eq_comm]

namespace Save

variable {session : Session} {s s' : SaveState} {es es' : List (Event Object)}

theorem Steps.answers (h : Steps session (s, es) (s', es')) (ht : Tracks s es)
    (hs : ∀ c tag o, Call.toTree c tag o ∈ s.calls →
      ∃ id raw, o = .ref id ∧ s.sources.lookup id = some (.answer tag raw)) :
    ∀ c tag o, Call.toTree c tag o ∈ s'.calls →
      ∃ id raw, o = .ref id ∧ s'.sources.lookup id = some (.answer tag raw) := by
  refine (h.keeps (J := fun s es => Tracks s es ∧ ∀ c tag o, Call.toTree c tag o ∈ s.calls →
    ∃ id raw, o = .ref id ∧ s.sources.lookup id = some (.answer tag raw)) ?_ ⟨ht, hs⟩).2
  intro s es s' es' hstep ⟨ht, hs⟩
  have hkeep {id : ObjectId} {src : Source} (h : s.sources.lookup id = some src) :=
    hstep.lookup_sources ht h
  refine ⟨ht.step hstep, fun c tag o hc => ?_⟩
  have hold (hc : Call.toTree c tag o ∈ s.calls) :
      ∃ id raw, o = .ref id ∧ s'.sources.lookup id = some (.answer tag raw) := by
    obtain ⟨id, raw, ho, hs⟩ := hs c tag o hc
    exact ⟨id, raw, ho, hkeep hs⟩
  cases hstep with
  | @enter _ _ id src objects calls hn hreads =>
    cases hreads with
    | list | map => exact hold hc
    | @answer type payload raw c' tag' objects' hcell hconv htag hcall hraw =>
      rcases List.mem_append.1 hc with hc | hc
      · exact hold hc
      · have ho : Call.toTree c tag o = .toTree c' tag' (.ref id) := by
          rcases List.mem_append.1 hc with hc | hc
          · split at hc <;> simp at hc
          · exact List.mem_singleton.1 hc
        cases ho
        exact ⟨id, raw, rfl, by rw [SaveState.lookup_sources_enter, if_pos rfl]⟩
  | refer => exact hold (by simpa [SaveState.put] using hc)
  | leave => exact hold hc

theorem Tracks.nil (objects : ObjectGraph) : Tracks ⟨objects, ∅, [], [], []⟩ [] := by
  refine ⟨?_, ?_, ?_, ?_, .nil⟩ <;> simp

theorem save_steps {depth : Nat} {id : ObjectId} {objects : ObjectGraph} {n : NodeId}
    (h : save session depth (.ref id) objects = (.ok n, s)) :
    Steps session (⟨objects, ∅, [], [], []⟩, []) (s, walk s.links depth [] (.ref id)) ∧
      n = s.nodeId (.ref id) ∧ enter (.ref id) ∈ walk s.links depth [] (.ref id) := by
  obtain ⟨s₁, es₁, hsteps, hs, hn, hmet, -, hevents⟩ := visits_convert depth (.ref id) _ [] n s
    (.nil objects) (fun p he => absurd he (by simp)) h
  obtain rfl : s = s₁ := hs
  have hwalk : walk s.links depth [] (.ref id) = es₁ := hevents s.links (agrees_links s)
  rw [hwalk]
  exact ⟨hsteps, hn, hmet rfl⟩

/-- When the save has ended, the copy that an instance got is as good as the node that it was copied
from was at the time. -/
theorem Nodes.copied_whole_iff {ms : ObjectId → List NodeId} (h : Nodes ms s es) (ht : Tracks s es)
    (hleft : ∀ p, enter p ∈ es → leave p ∈ es) {tag : Option TagUri} {raw : Object} {id : ObjectId}
    (hs : s.sources.lookup id = some (.answer tag raw)) :
    s.nodeOf (.ref id) = ⟨tag.or (s.nodeOf raw).tag, (s.nodeOf raw).content⟩ ↔
      (∃ pre, pre ++ [refer (.ref id) 0 raw] <+: es ∧ leave raw ∈ pre) ∨
      (s.nodeOf raw).content = .scalar .null ∧ tag.or (s.nodeOf raw).tag = tag := by
  have hid : enter (.ref id) ∈ es := (ht.sources id).1 (by simp [hs])
  obtain ⟨n, hn⟩ := ht.exists_memo hid
  have hr : refer (.ref id) 0 raw ∈ es :=
    ht.trace.full _ 0 raw (hleft _ hid) (by rw [SaveState.links_eq hs]; rfl)
  obtain ⟨pre, hp⟩ := exists_split hr
  obtain ⟨node, hnode, hwhole, hopen⟩ := h.copies id tag raw n pre hs hn hp
  rw [SaveState.nodeOf_ref hn, hnode]
  by_cases hl : leave raw ∈ pre
  · rw [hwhole hl]
    exact iff_of_true rfl (.inl ⟨pre, hp, hl⟩)
  · -- the reference is made once, so that it was made too early
    have hearly : ¬ ∃ pre, pre ++ [refer (.ref id) 0 raw] <+: es ∧ leave raw ∈ pre := by
      intro ⟨pre', hp', hl'⟩
      exact hl (ht.trace.once _ _ _ _ _ hp hp' ▸ hl')
    rw [or_iff_right hearly]
    obtain ⟨z, src, ms', rfl, hz, hms', hlt⟩ := hopen hl
    have hze : enter (.ref z) ∈ es := (ht.sources z).1 (by simp [hz])
    obtain ⟨k, hk⟩ := ht.exists_memo hze
    have hlen := h.length_of_left ht hz (hleft _ hze)
    rw [SaveState.nodeOf_ref hk]
    exact hms'.content_eq_iff hlt (h.holds z src k hz hk) (Nat.le_of_eq hlen.symm) tag

/-- An answer that was finished in time is copied whole. -/
theorem Nodes.copied {ms : ObjectId → List NodeId} (h : Nodes ms s es) (ht : Tracks s es)
    (hleft : ∀ p, enter p ∈ es → leave p ∈ es) {tag : Option TagUri} {raw : Object} {id : ObjectId}
    {n : NodeId} (hs : s.sources.lookup id = some (.answer tag raw))
    (hn : s.memo.lookup id = some n)
    (hwhole : ∀ pre, pre ++ [refer (.ref id) 0 raw] <+: es → leave raw ∈ pre) :
    s.nodes.read n = ⟨tag.or (s.nodeOf raw).tag, (s.nodeOf raw).content⟩ ∧ leave raw ∈ es := by
  have hid : enter (.ref id) ∈ es := (ht.memo id).1 (by simp [hn])
  have hr : refer (.ref id) 0 raw ∈ es :=
    ht.trace.full _ 0 raw (hleft _ hid) (by rw [SaveState.links_eq hs]; rfl)
  obtain ⟨pre, hp⟩ := exists_split hr
  obtain ⟨node, hnode, hcopy, -⟩ := h.copies id tag raw n pre hs hn hp
  rw [hnode, hcopy (hwhole pre hp)]
  exact ⟨rfl, ((List.prefix_append _ _).trans hp).subset (hwhole pre hp)⟩

/-- The node of an instance is the node of the converter's answer with the chosen tag, except if the
latter was still being filled when it was copied. Then it is so only for a bare null. -/
theorem save_copies_whole_iff {depth : Nat} {root : Object} {objects : ObjectGraph} {n : NodeId}
    (hsave : save session depth root objects = (.ok n, s)) {c : LoadedConverter Behaviour}
    {tag : Option TagUri} {id : ObjectId} (hcall : Call.toTree c tag (.ref id) ∈ s.calls) :
    ∃ raw, s.sources.lookup id = some (.answer tag raw) ∧
      (s.nodeOf (.ref id) = ⟨tag.or (s.nodeOf raw).tag, (s.nodeOf raw).content⟩ ↔
        (∃ pre, pre ++ [refer (.ref id) 0 raw] <+: walk s.links depth [] root ∧ leave raw ∈ pre) ∨
        (s.nodeOf raw).content = .scalar .null ∧ tag.or (s.nodeOf raw).tag = tag) := by
  cases root with
  | ref x =>
    obtain ⟨hsteps, -, -⟩ := save_steps hsave
    obtain ⟨ms, hnodes⟩ := hsteps.nodes (.nil objects) ⟨_, .nil objects⟩
    obtain ⟨y, raw, he, hs⟩ := hsteps.answers (.nil objects) (by simp) c tag _ hcall
    cases he
    have ht := hsteps.tracks (.nil objects)
    exact ⟨raw, hs, hnodes.copied_whole_iff ht (fun _ => leave_mem_walk) hs⟩
  | pending m => exact absurd hsave (not_yields_convert_pending session depth m _ n s)
  | _ =>
    -- a primitive needs no converter
    exfalso
    cases depth with
    | zero => exact not_yields_throw _ _ _ _ hsave
    | succ depth =>
      obtain ⟨-, rfl⟩ := (yields_convert_scalar session depth _ rfl _ n s).1 hsave
      simp at hcall

end Save

def circularObjects : ObjectGraph :=
  ⟨#[.list [.ref 1, .int 1], .native typeNow (.ref 0)]⟩

def circularSave : Except Halt NodeId × SaveState :=
  save holdingSession 3 (.ref 0) circularObjects

theorem circularSave_eq : circularSave = (.ok 0, circularSave.2) := by
  have h : circularSave.1 = .ok 0 := rfl
  rw [← h]

theorem circularSave_calls : circularSave.2.calls =
    [.toTree (.forTag 0 tagNow [.direct typeNow] (.holding typeNow)) (some tagNow) (.ref 1)] :=
  rfl

theorem save_copies_whole_iff_circular :
    save holdingSession 3 (.ref 0) circularObjects = (.ok 0, circularSave.2) ∧
      Call.toTree (.forTag 0 tagNow [.direct typeNow] (.holding typeNow)) (some tagNow) (.ref 1) ∈
        circularSave.2.calls ∧
      ∃ raw, circularSave.2.sources.lookup 1 = some (.answer (some tagNow) raw) ∧
        (circularSave.2.nodeOf (.ref 1) = ⟨(some tagNow).or (circularSave.2.nodeOf raw).tag,
            (circularSave.2.nodeOf raw).content⟩ ↔
          (∃ pre, pre ++ [refer (.ref 1) 0 raw] <+: walk circularSave.2.links 3 [] (.ref 0) ∧
            leave raw ∈ pre) ∨
          (circularSave.2.nodeOf raw).content = .scalar .null ∧
            (some tagNow).or (circularSave.2.nodeOf raw).tag = some tagNow) := by
  have hcall : Call.toTree (.forTag 0 tagNow [.direct typeNow] (.holding typeNow)) (some tagNow)
      (.ref 1) ∈ circularSave.2.calls := by
    rw [circularSave_calls]
    exact List.mem_singleton.2 rfl
  exact ⟨circularSave_eq, hcall, Save.save_copies_whole_iff circularSave_eq hcall⟩

/-- The instance is written as an empty sequence, though it holds a list of two elements. -/
theorem save_truncates_circular :
    (∀ c ∈ holdingSession.registry.converters, ∀ o t g,
      ((c.converter.behaviour.toTree holdingSession.context o t).run g).2 = g) ∧
      circularSave.1 = .ok 0 ∧
      circularSave.2.sources.lookup 1 = some (.answer (some tagNow) (.ref 0)) ∧
      circularSave.2.nodeOf (.ref 1) = ⟨some tagNow, .sequence []⟩ ∧
      circularSave.2.nodeOf (.ref 0) = ⟨none, .sequence [1, 2]⟩ := by
  refine ⟨fun c hc o t g => ?_, rfl, by decide +kernel, by decide +kernel, by decide +kernel⟩
  rcases List.mem_cons.1 hc with rfl | hc
  · exact congrArg Prod.snd (Behaviour.run_toTree_holding typeNow holdingSession.context o t g)
  · cases List.mem_singleton.1 hc
    exact congrArg Prod.snd (Behaviour.run_toTree_holding typeLater
      holdingSession.context o t g)

end TaggedGraph
