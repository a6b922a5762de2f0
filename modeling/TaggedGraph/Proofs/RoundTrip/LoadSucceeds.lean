import TaggedGraph.Proofs.Load.Failure
import TaggedGraph.Proofs.RoundTrip.LoadSound

namespace TaggedGraph.Load

open Traversal Event

variable {P : Wrapper → ObjectGraph → Prop} {session : Session} {nodes : NodeGraph} {root : NodeId}
  {s s' : LoadState} {es es' : List (Event NodeId)}

theorem Step.mem_events {e : Event NodeId} (h : Step session nodes (s, es) (s', es'))
    (he : e ∈ es) : e ∈ es' := by
  cases h <;> exact List.mem_append_left _ he

theorem Steps.sound (hcov : session.CoversAs P nodes root) {objects : ObjectGraph}
    {warnings : Warnings}
    (h : Steps session nodes (LoadState.start objects warnings, []) (s', es'))
    (hreach : ∀ n, enter n ∈ es' → nodes.Reachable root n) :
    Sound P session nodes root s' es' := by
  refine h.keeps (J := fun s es =>
    (∀ n, enter n ∈ es → nodes.Reachable root n) → Sound P session nodes root s es) ?_ ?_ hreach
  · intro s es s' es' hstep ih hreach
    have hs := ih fun n hn => hreach n (hstep.mem_events hn)
    exact hs.step hcov hstep hreach
  · exact fun _ => .nil objects warnings

/-- The converters are called with complete raw values, and then they do not fail. -/
theorem convert_succeeds (hcov : session.CoversAs P nodes root) (objects : ObjectGraph)
    (warnings : Warnings) : ∃ s,
      Yields (convert session nodes (nodes.size + 1) root) (.start objects warnings)
        (s.result root) s ∧ Sound P session nodes root s (nodes.events root) := by
  rcases yields_or_fails (convert session nodes (nodes.size + 1) root)
    (.start objects warnings) with ⟨o, s, h⟩ | ⟨e, s, h⟩
  · obtain ⟨hsteps, rfl, -⟩ := convert_steps _ root _ [] o s (.nil _ _) h
    exact ⟨s, h, hsteps.sound hcov fun _ => NodeGraph.reachable_of_enter⟩
  · obtain ⟨s₁, es, n, hsteps, hprefix, c, t, raw, message, g, hcalls, hfails, -⟩ :=
      convert_fails _ root _ [] e s (.nil _ _) (Nat.lt_succ_of_le (remaining_le_size _)) h
    have hs : Sound P session nodes root s₁ es := hsteps.sound hcov fun m hm => by
      exact NodeGraph.reachable_of_enter (((List.prefix_append _ _).trans hprefix).subset hm)
    obtain ⟨answer, g', id, hyields, -⟩ := hs.call hcov hcalls
    cases hfails.symm.trans hyields

theorem load_eq {objects : ObjectGraph} {warnings : Warnings} {o : Object} {s₁ : LoadState}
    (hconvert : Yields (convert session nodes (nodes.size + 1) root)
      (LoadState.start objects warnings) o s₁)
    (hcomplete : Yields (complete s₁.deferred) s₁ () s) (hready : o.isPending = false) :
    load session nodes root objects warnings = (.ok o, s) := by
  change Yields (run session nodes root) _ _ _
  simp only [run, runWithin, yields_bind, yields_get]
  refine ⟨o, s₁, hconvert, s₁, s₁, ⟨rfl, rfl⟩, (), s, hcomplete, ?_⟩
  cases o with
  | pending m => cases hready
  | _ => exact (yields_pure _ _ _ _).2 ⟨rfl, rfl⟩

/-- The load ends well, its objects stand for the nodes, and every node with a tag has an instance
that is as `P` says. -/
theorem load_succeeds (hcov : session.CoversAs P nodes root) (objects : ObjectGraph)
    (warnings : Warnings) : ∃ s ready,
      load session nodes root objects warnings = (.ok (s.result root), s) ∧
      GivesResults session nodes root s (s.result root) ∧ Instances P nodes ready [] s ∧
      (∀ b ∈ s.built, b.2 < s.objects.size) ∧
      ∀ n, nodes.Reachable root n → nodes.tag n ≠ none → ∃ w ∈ ready, w.node = n := by
  obtain ⟨s, hconvert, h⟩ := convert_succeeds hcov objects warnings
  obtain ⟨ready, late, hw⟩ := h.wrapped
  have hlookup {n : NodeId} (hn : nodes.Reachable root n) : s.done.lookup n = some (s.result n) :=
    ((Completes.refl s.built s).loaded h.tracks h.slots h.isResult).lookup_result
      (fun _ => leave_mem_walk) (NodeGraph.enter_of_reachable hn)
  have hshows : ∀ w ∈ ready ++ late.map Prod.fst, Shows nodes w.node w.raw s.objects := by
    intro w hmem
    have hmade := hw.instances.made w hmem
    have he : enter w.node ∈ nodes.events root :=
      h.tracks.enter_of_settled ((h.tracks.done _).1 (by simp [hmade.result]))
    exact h.shows (fun i c => h.tracks.trace.full _ i c (leave_mem_walk he)) hmade.raw
  obtain ⟨ready', s', hcomplete, hinst, hcompletes, hall⟩ :=
    hw.instances.complete h.slots.bound hshows
  have hloaded := hcompletes.loaded h.tracks h.slots h.isResult
  have hgives := hloaded.givesResults (nodes.traced_events root).2 fun n r hn =>
    h.isPending (hcompletes.done ▸ hn)
  rw [hgives.root_eq] at hgives
  refine ⟨s', ready', ?_, hgives, hinst, hloaded.slots.bound, fun n hn ht => ?_⟩
  · rw [← hw.deferred] at hcomplete
    rw [result_congr hcompletes.done]
    exact load_eq hconvert hcomplete (h.isPending (hlookup (.refl root)))
  · obtain ⟨t, ht⟩ := Option.ne_none_iff_exists'.1 ht
    obtain ⟨c, hc, -⟩ := hcov n t hn ht
    obtain ⟨w, hmem, rfl⟩ := hw.covers n _ (hlookup hn) (by simp [Session.converterAt, ht, hc])
    exact hall w hmem

end TaggedGraph.Load
