import TaggedGraph.Proofs.Load.Calls
import TaggedGraph.Proofs.RoundTrip.LoadSucceeds

namespace TaggedGraph.Load

open Traversal Event

variable {session : Session} {nodes : NodeGraph} {root : NodeId} {s s' : LoadState}
  {es es' : List (Event NodeId)}

def Unconverted (session : Session) (nodes : NodeGraph) (root : NodeId) : Prop :=
  ∀ n t, nodes.Reachable root n → nodes.tag n = some t →
    session.registry.converterForTag t = none

theorem unconverted_of_forall
    (h : ∀ n < nodes.size, ∀ t ∈ nodes.tag n, session.registry.converterForTag t = none) :
    Unconverted session nodes root := by
  intro n t _ ht
  refine h n ?_ t ht
  apply Nat.lt_of_not_le
  intro hle
  rw [NodeGraph.tag, Heap.read_of_size_le nodes n hle] at ht
  cases ht

theorem Unconverted.converterAt (h : Unconverted session nodes root) {n : NodeId}
    (hn : nodes.Reachable root n) : session.converterAt nodes n = none := by
  rw [Session.converterAt, Option.bind_eq_none_iff]
  exact fun t ht => h n t hn ht

theorem Unconverted.not_calls (h : Unconverted session nodes root)
    (hreach : ∀ n, enter n ∈ es → nodes.Reachable root n) {n : NodeId}
    {c : LoadedConverter Behaviour} {t : TagUri} {raw : Object} :
    ¬ Calls session nodes s es n c t raw :=
  fun hcalls => hcalls.converterAt_ne_none (h.converterAt (hreach n hcalls.ends.entered))

/-- Without converters the slots hold what they should, and nothing is deferred. -/
theorem Steps.unconverted (h : Unconverted session nodes root) {objects : ObjectGraph}
    {warnings : Warnings}
    (hsteps : Steps session nodes (LoadState.start objects warnings, []) (s', es'))
    (hreach : ∀ n, enter n ∈ es' → nodes.Reachable root n) :
    Slots session nodes s' es' ∧ s'.deferred = [] := by
  refine (hsteps.keeps (J := fun s es => Tracks session nodes s es ∧
    ((∀ n, enter n ∈ es → nodes.Reachable root n) →
      Slots session nodes s es ∧ s.deferred = [])) ?_ ?_).2 hreach
  · intro s es s' es' hstep ⟨ht, hs⟩
    refine ⟨ht.step hstep, fun hreach => ?_⟩
    have hentered (n : NodeId) (hn : enter n ∈ es) : nodes.Reachable root n :=
      hreach n (hstep.mem_events hn)
    obtain ⟨hslots, hdeferred⟩ := hs hentered
    refine ⟨hslots.step hstep ht fun call hcall => ?_, ?_⟩
    · rcases hstep.calls_cases with he | ⟨_, _, _, _, _, _, hcalls, -⟩
      · simp [he] at hcall
      · exact absurd hcalls (h.not_calls hentered)
    cases hstep with
    | leaveConverted hcalls => exact absurd hcalls (h.not_calls hentered)
    | _ => simpa using hdeferred
  · exact ⟨.nil _ _, fun _ => ⟨.nil _ _, rfl⟩⟩

theorem load_unconverted (h : Unconverted session nodes root) (objects : ObjectGraph)
    (warnings : Warnings) : ∃ s,
      load session nodes root objects warnings = (.ok (s.result root), s) ∧
      GivesResults session nodes root s (s.result root) ∧
      ∀ b ∈ s.built, b.2 < s.objects.size := by
  rcases yields_or_fails (convert session nodes (nodes.size + 1) root)
    (.start objects warnings) with ⟨o, s, hyields⟩ | ⟨e, s, hfails⟩
  · obtain ⟨hsteps, rfl, -⟩ := convert_steps _ root _ [] o s (.nil _ _) hyields
    have ht := hsteps.tracks (.nil _ _)
    obtain ⟨hslots, hdeferred⟩ := hsteps.unconverted h fun _ => NodeGraph.reachable_of_enter
    have hready (n : NodeId) (r : Object) (hn : s.done.lookup n = some r) :
        r.isPending = false := by
      have he := ht.enter_of_settled ((ht.done n).1 (by simp [hn]))
      have hat := h.converterAt (NodeGraph.reachable_of_enter he)
      exact ((LoadState.isResult_of_none hat).1 (hsteps.isResult n r hn)).isPending
    have hloaded := (Completes.refl s.built s).loaded ht hslots hsteps.isResult
    have hgives := hloaded.givesResults (nodes.traced_events root).2 hready
    have hroot := hready root _
      (hloaded.lookup_result (fun _ => leave_mem_walk) (nodes.traced_events root).2)
    rw [hgives.root_eq] at hgives
    refine ⟨s, load_eq hyields ?_ hroot, hgives, hslots.bound⟩
    rw [hdeferred]
    exact (yields_pure _ _ _ _).2 ⟨rfl, rfl⟩
  · obtain ⟨s₁, es, n, -, hprefix, c, t, raw, message, g, hcalls, -⟩ :=
      convert_fails _ root _ [] e s (.nil _ _) (Nat.lt_succ_of_le (remaining_le_size _)) hfails
    refine absurd hcalls (h.not_calls fun m hm => ?_)
    exact NodeGraph.reachable_of_enter (((List.prefix_append _ _).trans hprefix).subset hm)

end TaggedGraph.Load
