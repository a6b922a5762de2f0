import TaggedGraph.Proofs.Converters
import TaggedGraph.Proofs.FirstOfEach
import TaggedGraph.Proofs.Load.Agreement

namespace TaggedGraph

namespace Warnings

variable (ws : Warnings) (l : List Warning)

theorem append_of_silenced {c : WarningCategory} (hc : ws.isSilenced c)
    (hl : ∀ w ∈ l, w.category = c) : ws.append l = ws := by
  have hkeep : ws.keep l = [] := by
    rw [keep, List.filter_eq_nil_iff]
    intro w hw
    simp [hl w hw, hc]
  rw [append, hkeep, List.append_nil]

theorem append_of_not_silenced {c : WarningCategory} (hc : ws.isSilenced c = false)
    (hl : ∀ w ∈ l, w.category = c) : ws.append l = { ws with records := ws.records ++ l } := by
  have hkeep : ws.keep l = l := by
    rw [keep, List.filter_eq_self]
    intro w hw
    simp [hl w hw, hc]
  rw [append, hkeep]

end Warnings

def Session.unresolvedAt (session : Session) (nodes : NodeGraph) (n : NodeId) : Option TagUri :=
  (nodes.tag n).filter fun t => !session.registry.handlesTag t

theorem Session.unresolvedAt_eq_some {session : Session} {nodes : NodeGraph} {n : NodeId}
    {t : TagUri} : session.unresolvedAt nodes n = some t ↔
      nodes.tag n = some t ∧ session.registry.converterForTag t = none := by
  simp [unresolvedAt, Option.filter_eq_some_iff, Registry.handlesTag_eq_isSome]

def TagUri.unresolvedWarning (t : TagUri) : Warning :=
  ⟨.unresolvedTag, LoadState.unresolvedMessage t⟩

namespace LoadState

variable (s : LoadState) (n : NodeId) (ct : Content)

@[simp] theorem warnings_begin : (s.begin n ct).2.warnings = s.warnings := by cases ct <;> rfl
@[simp] theorem unresolved_begin : (s.begin n ct).2.unresolved = s.unresolved := by cases ct <;> rfl

@[simp] theorem warnings_put (id : ObjectId) (i : Nat) (o : Object) :
    (s.put id ct i o).warnings = s.warnings := by
  rw [put, await_eq]

@[simp] theorem unresolved_put (id : ObjectId) (i : Nat) (o : Object) :
    (s.put id ct i o).unresolved = s.unresolved := by
  rw [put, await_eq]

end LoadState

namespace Load

open Traversal Event

section
variable (session : Session) (nodes : NodeGraph)

/-- The tags without a converter on the nodes of `order`, in the order in which they first occur. -/
def unresolvedTags (order : List NodeId) : List TagUri :=
  firstOfEach id (order.filterMap (session.unresolvedAt nodes))

/-- What is to be warned of when the nodes of `order` were left. -/
def unresolvedWarnings (order : List NodeId) : List Warning :=
  if session.options.suppressUnresolvedTagWarnings then []
  else (unresolvedTags session nodes order).map TagUri.unresolvedWarning

/-- The collector has got the warnings for the nodes of `order`. -/
structure Noted (warnings : Warnings) (s : LoadState) (order : List NodeId) : Prop where
  unresolved : session.options.suppressUnresolvedTagWarnings = false →
    ∀ t, t ∈ s.unresolved ↔ t ∈ unresolvedTags session nodes order
  warnings : s.warnings = warnings.append (unresolvedWarnings session nodes order)

end

variable {session : Session} {nodes : NodeGraph} {order : List NodeId} {n : NodeId}
  {s s' : LoadState} {es es' : List (Event NodeId)} {warnings : Warnings}

theorem mem_unresolvedTags {t : TagUri} : t ∈ unresolvedTags session nodes order ↔
    ∃ n ∈ order, nodes.tag n = some t ∧ session.registry.converterForTag t = none := by
  simp [unresolvedTags, mem_firstOfEach, Session.unresolvedAt_eq_some]

theorem unresolvedTags_snoc_none (h : session.unresolvedAt nodes n = none) :
    unresolvedTags session nodes (order ++ [n]) = unresolvedTags session nodes order := by
  simp [unresolvedTags, h]

theorem unresolvedTags_snoc_some {t : TagUri} (h : session.unresolvedAt nodes n = some t) :
    unresolvedTags session nodes (order ++ [n]) = if t ∈ unresolvedTags session nodes order then
      unresolvedTags session nodes order else unresolvedTags session nodes order ++ [t] := by
  have hmem := mem_firstOfEach (l := order.filterMap (session.unresolvedAt nodes)) (x := t)
  simp [unresolvedTags, h, firstOfEach_snoc, hmem]

theorem Noted.quiet {order' : List NodeId} (h : Noted session nodes warnings s order)
    (horder : unresolvedTags session nodes order' = unresolvedTags session nodes order)
    (hw : s'.warnings = s.warnings) (hu : s'.unresolved = s.unresolved) :
    Noted session nodes warnings s' order' where
  unresolved hs := by
    rw [hu, horder]
    exact h.unresolved hs
  warnings := by
    rw [hw, unresolvedWarnings, horder]
    exact h.warnings

/-- The tag of a node that is left is warned of if it is new. -/
theorem Noted.noteUnresolved {t : TagUri} (h : Noted session nodes warnings s order)
    (ht : session.unresolvedAt nodes n = some t) :
    Noted session nodes warnings (s.noteUnresolved session.options t) (order ++ [n]) := by
  obtain ⟨hu, hw⟩ := h
  unfold LoadState.noteUnresolved
  cases hs : session.options.suppressUnresolvedTagWarnings with
  | true =>
    rw [if_pos (by simp)]
    refine ⟨by simp [hs], ?_⟩
    simpa [unresolvedWarnings, hs] using hw
  | false =>
    have hu := hu hs
    simp only [unresolvedWarnings, hs, Bool.false_eq_true, if_false] at hw
    by_cases hnew : t ∈ s.unresolved
    · rw [if_pos (by simpa using hnew)]
      refine ⟨fun _ => ?_, ?_⟩
      · rwa [unresolvedTags_snoc_some ht, if_pos ((hu t).1 hnew)]
      · simpa [unresolvedWarnings, hs, unresolvedTags_snoc_some ht, (hu t).1 hnew] using hw
    · have hnew' : t ∉ unresolvedTags session nodes order := fun h => hnew ((hu t).2 h)
      rw [if_neg (by simpa using hnew)]
      refine ⟨fun _ t' => ?_, ?_⟩
      · rw [unresolvedTags_snoc_some ht, if_neg hnew']
        simp [hu, or_comm]
      · simp only [unresolvedWarnings, hs, Bool.false_eq_true, if_false,
          unresolvedTags_snoc_some ht, if_neg hnew', List.map_append]
        rw [← Warnings.append_append, ← hw]
        rfl

theorem Noted.step (h : Noted session nodes warnings s (leaving es))
    (hstep : Step session nodes (s, es) (s', es')) :
    Noted session nodes warnings s' (leaving es') := by
  cases hstep with
  | @enterRaw _ _ n hn hc =>
    refine h.quiet (by simp) ?_ ?_
    · exact s.warnings_begin n _
    · exact s.unresolved_begin n _
  | @enterConverted _ _ n hn hc =>
    refine h.quiet (by simp) ?_ ?_
    · exact (s.enter n).warnings_begin n _
    · exact (s.enter n).unresolved_begin n _
  | refer hb hc he hn hr hec => exact h.quiet (by simp) (by simp) (by simp)
  | @leaveRaw _ _ n hends hc =>
    rw [leaving_snoc_leave, LoadState.noted]
    cases ht : nodes.tag n with
    | none =>
      refine h.quiet ?_ rfl rfl
      exact unresolvedTags_snoc_none (by simp [Session.unresolvedAt, ht])
    | some t =>
      have hnone : session.registry.converterForTag t = none := by
        simpa [Session.converterAt, ht] using hc
      exact h.noteUnresolved (Session.unresolvedAt_eq_some.2 ⟨ht, hnone⟩)
  | @leaveConverted _ _ n c t raw answer objects hcalls hcall =>
    rw [leaving_snoc_leave]
    refine h.quiet ?_ rfl rfl
    apply unresolvedTags_snoc_none
    simp [Session.unresolvedAt, hcalls.tag, Registry.handlesTag_eq_isSome, hcalls.converter]

theorem Steps.noted {objects : ObjectGraph}
    (h : Steps session nodes (LoadState.start objects warnings, []) (s', es')) :
    Noted session nodes warnings s' (leaving es') := by
  apply h.keeps (J := fun s es => Noted session nodes warnings s (leaving es))
  · exact fun _ _ _ _ hstep hs => hs.step hstep
  · refine ⟨fun _ t => by simp [LoadState.start, leaving, unresolvedTags, firstOfEach], ?_⟩
    simp [LoadState.start, leaving, unresolvedWarnings, unresolvedTags, firstOfEach,
      Warnings.append_nil]

/-- A load warns of the tags on the nodes that it has left: on all of them if it ends well. -/
theorem load_notes {root : NodeId} {objects : ObjectGraph} {r : Except Halt Object}
    (h : load session nodes root objects warnings = (r, s')) :
    ∃ order, order <+: nodes.postorder root ∧ (∀ o, r = .ok o → order = nodes.postorder root) ∧
      s'.warnings = warnings.append (unresolvedWarnings session nodes order) := by
  cases r with
  | ok o =>
    obtain ⟨s, hsteps, -, hcomplete, -⟩ := load_steps h
    obtain ⟨calls, g, -, rfl⟩ := (yields_complete _ _ _ _).1 hcomplete
    exact ⟨_, List.prefix_rfl, fun _ _ => rfl, hsteps.noted.warnings⟩
  | error e =>
    rcases fails_run root _ e s' h with hconvert | ⟨o, s, hconvert, hcomplete⟩
    · obtain ⟨s, es, n, hsteps, hprefix, c, t, raw, message, g, -, -, -, rfl⟩ :=
        convert_fails _ root _ [] e s' (.nil _ _) (Nat.lt_succ_of_le (remaining_le_size _)) hconvert
      have hleft := leaving_mono ((List.prefix_append _ _).trans hprefix)
      exact ⟨leaving es, hleft, by simp, hsteps.noted.warnings⟩
    · obtain ⟨hsteps, -, -⟩ := convert_steps _ root _ [] o s (.nil _ _) hconvert
      obtain ⟨before, d, after, calls, g, error, more, k, -, -, -, -, rfl⟩ :=
        fails_complete _ _ _ _ hcomplete
      exact ⟨_, List.prefix_rfl, by simp, hsteps.noted.warnings⟩

section
variable (session : Session) (nodes : NodeGraph) (root : NodeId) (objects : ObjectGraph)
  (warnings : Warnings)

theorem category_of_mem {w : Warning} (hw : w ∈ unresolvedWarnings session nodes order) :
    w.category = .unresolvedTag := by
  unfold unresolvedWarnings at hw
  split at hw
  · cases hw
  · obtain ⟨t, -, rfl⟩ := List.mem_map.1 hw
    rfl

/-- Nothing is recorded of a silenced category, nor if the options say so. -/
theorem load_silenced (h : session.options.suppressUnresolvedTagWarnings ∨
      warnings.isSilenced .unresolvedTag) :
    (load session nodes root objects warnings).2.warnings = warnings := by
  obtain ⟨r, s, hload⟩ : ∃ r s, load session nodes root objects warnings = (r, s) := ⟨_, _, rfl⟩
  obtain ⟨order, -, -, hw⟩ := load_notes hload
  rw [hload, hw]
  rcases h with h | h
  · rw [unresolvedWarnings, if_pos h, Warnings.append_nil]
  · exact Warnings.append_of_silenced _ _ h fun _ => category_of_mem session nodes

theorem load_warns {o : Object} {s : LoadState}
    (h : load session nodes root objects warnings = (.ok o, s))
    (hsuppress : session.options.suppressUnresolvedTagWarnings = false)
    (hsilenced : warnings.isSilenced .unresolvedTag = false) :
    s.warnings = { warnings with records := warnings.records ++
      (unresolvedTags session nodes (nodes.postorder root)).map TagUri.unresolvedWarning } := by
  obtain ⟨order, -, horder, hw⟩ := load_notes h
  have hall : unresolvedWarnings session nodes (nodes.postorder root) =
      (unresolvedTags session nodes (nodes.postorder root)).map TagUri.unresolvedWarning := by
    rw [unresolvedWarnings, hsuppress]
    rfl
  rw [hw, horder o rfl, ← hall]
  exact Warnings.append_of_not_silenced _ _ hsilenced fun _ => category_of_mem session nodes

/-- Tags without a converter change nothing but the warnings, and each is warned of once. -/
structure OnlyWarns : Prop where
  options : ∀ options' warnings', SameOutcome (load session nodes root objects warnings)
    (load { session with options := options' } nodes root objects warnings')
  erased : ∀ options' warnings', SameOutcome (load session nodes root objects warnings)
    (load { session with options := options' } (nodes.eraseUnresolved session.registry) root objects
      warnings')
  nodup : (unresolvedTags session nodes (nodes.postorder root)).Nodup
  mem_iff : ∀ t, t ∈ unresolvedTags session nodes (nodes.postorder root) ↔
    ∃ n, nodes.Reachable root n ∧ nodes.tag n = some t ∧ session.registry.converterForTag t = none
  warned : ∀ o s, load session nodes root objects warnings = (.ok o, s) →
    session.options.suppressUnresolvedTagWarnings = false →
    warnings.isSilenced .unresolvedTag = false →
    s.warnings = { warnings with records := warnings.records ++
      (unresolvedTags session nodes (nodes.postorder root)).map TagUri.unresolvedWarning }
  silenced : session.options.suppressUnresolvedTagWarnings ∨ warnings.isSilenced .unresolvedTag →
    (load session nodes root objects warnings).2.warnings = warnings

/-- If no converter looks at the options, a tag without a converter only brings a warning. -/
theorem load_only_warns (hopt : session.IgnoresOptions) :
    OnlyWarns session nodes root objects warnings where
  options options' warnings' :=
    load_agrees hopt (.refl _ nodes) options' root objects warnings warnings'
  erased options' warnings' :=
    load_agrees hopt (sameResolved_erase _ nodes) options' root objects warnings warnings'
  nodup := nodup_firstOfEach _
  mem_iff t := by simp only [mem_unresolvedTags, NodeGraph.mem_postorder]
  warned _ _ := load_warns session nodes root objects warnings
  silenced := load_silenced session nodes root objects warnings

end

end Load

theorem holdingSession_ignoresOptions : holdingSession.IgnoresOptions := by
  intro c hc options options' raw t
  rcases List.mem_cons.1 hc with rfl | hc
  · rfl
  · obtain rfl := List.mem_singleton.1 hc
    rfl

def tagUnknown : TagUri := ⟨"unknown", by decide, by decide⟩

def unknownNodes : NodeGraph :=
  ⟨#[⟨some tagUnknown, .sequence [1, 2, 0, 1]⟩, ⟨some tagNow, .sequence [2, 0]⟩,
    ⟨some tagUnknown, .scalar (.int 5)⟩]⟩

theorem load_only_warns_unknown : holdingSession.IgnoresOptions ∧
    Load.unresolvedTags holdingSession unknownNodes (unknownNodes.postorder 0) = [tagUnknown] ∧
    Load.OnlyWarns holdingSession unknownNodes 0 ∅ ∅ :=
  ⟨holdingSession_ignoresOptions, by decide +kernel,
    Load.load_only_warns holdingSession unknownNodes 0 ∅ ∅ holdingSession_ignoresOptions⟩

end TaggedGraph
