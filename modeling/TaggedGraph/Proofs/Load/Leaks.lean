import TaggedGraph.Proofs.Converters
import TaggedGraph.Proofs.Load.Finish

namespace TaggedGraph

namespace Load

open Traversal Event

variable {session : Session} {nodes : NodeGraph} {s : LoadState} {es : List (Event NodeId)}

theorem isPending_held_iff (pre : List (Event NodeId)) (c : NodeId) :
    (held session nodes s pre c).isPending = false ↔ ∀ m, s.result c = .pending m →
      Settled session nodes pre c ∧ ¬ Settled session nodes pre m ∧
        (s.result m).isPending = false := by
  unfold held given
  by_cases hc : Settled session nodes pre c
  · rw [if_pos hc]
    cases hr : s.result c with
    | pending m =>
      by_cases hm : Settled session nodes pre m
      · simp [hm, Object.isPending]
      · simp [hm, hc]
    | _ => simp [Object.isPending]
  · rw [if_neg hc]
    simp only [hc, if_false, false_and, imp_false]
    cases s.result c <;> simp [Object.isPending]

theorem isPending_follow_iff (s : LoadState) (o : Object) :
    (s.follow o).isPending = false ↔ ∀ m, o = .pending m → (s.result m).isPending = false := by
  cases o <;> simp [LoadState.follow, Object.isPending]

theorem Slots.mem_parts (h : Slots session nodes s es) {b : NodeId × ObjectId} (hb : b ∈ s.built)
    (v : Object) :
    v ∈ (s.objects.read b.2).parts ↔
      ∃ pre i c, pre ++ [refer b.1 i c] <+: es ∧ v = held session nodes s pre c := by
  obtain ⟨vs, hvs, hlen, hheld⟩ := h.cell b hb
  rw [hvs.parts, List.mem_iff_getElem?]
  constructor
  · intro ⟨i, hi⟩
    obtain ⟨c, hc⟩ := (hlen i).1 (List.getElem?_eq_some_iff.1 hi).1
    obtain ⟨pre, hp⟩ := exists_split hc
    rw [hheld pre i c hp] at hi
    exact ⟨pre, i, c, hp, (Option.some.inj hi).symm⟩
  · rintro ⟨pre, i, c, hp, rfl⟩
    exact ⟨i, hheld pre i c hp⟩

/-- Neither the object nor a part of a list or map that was built is a pending reference. -/
def LeavesNoPending (s : LoadState) (o : Object) : Prop :=
  o.isPending = false ∧ ∀ b ∈ s.built, ∀ v ∈ (s.objects.read b.2).parts, v.isPending = false

/-- Where the result of a node is a pending reference to `m`, the references to that node are made
after it and before the result of `m`, which is none. -/
def FollowsInTime (session : Session) (nodes : NodeGraph) (root : NodeId) (s : LoadState) : Prop :=
  (∀ m, s.result root = .pending m → (s.result m).isPending = false) ∧
    ∀ pre n i c, pre ++ [refer n i c] <+: walk nodes.children (nodes.size + 1) [] root →
      ∀ m, s.result c = .pending m → Settled session nodes pre c ∧
        ¬ Settled session nodes pre m ∧ (s.result m).isPending = false

/-- Of all loads that end well, exactly those leave pending references behind in which a converter
answers with a pending reference at the wrong time: a slot is filled at most once after it was
given its value, and only if it waited for a node without a result. -/
theorem load_leaves_no_pending_iff {root : NodeId} {objects : ObjectGraph} {warnings : Warnings}
    {o : Object} (hload : load session nodes root objects warnings = (.ok o, s))
    (hspares : ∀ call ∈ s.calls, call.Spares session.context s.built) :
    LeavesNoPending s o ↔ FollowsInTime session nodes root s := by
  obtain ⟨⟨hslots, htrace, -, -⟩, -, rfl⟩ := load_loaded hload hspares
  refine and_congr (isPending_follow_iff s _) ⟨fun h pre n i c hp => ?_, fun h b hb v hv => ?_⟩
  · obtain ⟨hn, -, hc⟩ := htrace.refers n i c (mem_of_split hp)
    -- a node that refers to another one is no scalar
    have hct (v : Scalar) : nodes.content n ≠ .scalar v := by
      intro hct
      rw [NodeGraph.children, hct] at hc
      cases hc
    obtain ⟨id, hb⟩ := hslots.exists_built hn hct
    rw [← isPending_held_iff]
    exact h (n, id) hb _ ((hslots.mem_parts hb _).2 ⟨pre, i, c, hp, rfl⟩)
  · obtain ⟨pre, i, c, hp, rfl⟩ := (hslots.mem_parts hb v).1 hv
    exact (isPending_held_iff pre c).2 (h pre b.1 i c hp)

end Load

def tagKeep : TagUri := ⟨"keep", by decide, by decide⟩
def tagUp : TagUri := ⟨"up", by decide, by decide⟩

def forwardingSession : Session :=
  ⟨⟨[], [.forTag 0 tagKeep [] .keep, .forTag 1 tagUp [] (.unwrap "up")]⟩, ⟨false⟩⟩

/-- Node 2 stands for its child 1, which contains it. -/
def forwardingNodes : NodeGraph :=
  ⟨#[⟨none, .sequence [1, 2]⟩, ⟨some tagKeep, .sequence [2]⟩,
    ⟨some tagUp, .mapping (.ofList [("up", 1)])⟩]⟩

def forwardingLoad : Except Halt Object × LoadState :=
  load forwardingSession forwardingNodes 0 ∅ ⟨[], []⟩

theorem forwardingLoad_eq : forwardingLoad = (.ok (.ref 0), forwardingLoad.2) :=
  Prod.ext (by decide +kernel) rfl

theorem forwardingLoad_spares : ∀ call ∈ forwardingLoad.2.calls,
    call.Spares forwardingSession.context forwardingLoad.2.built := by
  decide +kernel

theorem load_leaves_no_pending_iff_forwarding :
    load forwardingSession forwardingNodes 0 ∅ ⟨[], []⟩ = (.ok (.ref 0), forwardingLoad.2) ∧
      (∀ call ∈ forwardingLoad.2.calls,
        call.Spares forwardingSession.context forwardingLoad.2.built) ∧
      (Load.LeavesNoPending forwardingLoad.2 (.ref 0) ↔
        Load.FollowsInTime forwardingSession forwardingNodes 0 forwardingLoad.2) :=
  ⟨forwardingLoad_eq, forwardingLoad_spares,
    Load.load_leaves_no_pending_iff forwardingLoad_eq forwardingLoad_spares⟩

/-- The second slot of the root keeps a pending reference to node 1, which has a list as its
result. -/
theorem load_leaves_pending_forwarding :
    (∀ call ∈ forwardingLoad.2.calls,
      call.Spares forwardingSession.context forwardingLoad.2.built) ∧
      forwardingLoad.1 = .ok (.ref 0) ∧
      (∀ n < 3, (forwardingLoad.2.follow (forwardingLoad.2.result n)).isPending = false) ∧
      (0, 0) ∈ forwardingLoad.2.built ∧
      forwardingLoad.2.objects.read 0 = .list [.ref 1, .pending 1] ∧
      forwardingLoad.2.result 1 = .ref 1 :=
  ⟨forwardingLoad_spares, by decide +kernel, by decide +kernel, by decide +kernel,
    by decide +kernel, by decide +kernel⟩

end TaggedGraph
