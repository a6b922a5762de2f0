import TaggedGraph.Proofs.Load.Failure
import TaggedGraph.Proofs.Load.Finish

namespace TaggedGraph

/-- A converter was called for a node, on these objects, and has answered. -/
structure Conversion where
  node : NodeId
  converter : LoadedConverter Behaviour
  tag : TagUri
  raw : Object
  objects : ObjectGraph
  answer : FromTree

namespace Conversion

def call (c : Conversion) : LoadCall :=
  .fromTree c.converter c.tag c.raw c.objects

/-- What is still to be done for a deferred answer. -/
def completion? (c : Conversion) : Option Completion :=
  match c.answer with
  | .ready _ => none
  | .deferred d => some ⟨c.converter, c.tag, c.raw, d.emit.2⟩

end Conversion

namespace LoadState

/-- The converter of the node was called with its raw value, and its answer is the result. -/
structure Happened (session : Session) (nodes : NodeGraph) (s : LoadState) (c : Conversion) :
    Prop where
  tag : nodes.tag c.node = some c.tag
  converter : session.registry.converterForTag c.tag = some c.converter
  raw : s.IsRaw c.node (nodes.content c.node) c.raw
  answered : Yields (c.converter.converter.behaviour.fromTree session.context c.raw c.tag) c.objects
    c.answer (c.call.after session.context)
  result : s.done.lookup c.node = some c.answer.object

theorem Happened.ran {session : Session} {nodes : NodeGraph} {s : LoadState} {g : ObjectGraph}
    {calls : List LoadCall} {c : Conversion} (h : s.Happened session nodes c) :
    (s.ran g calls).Happened session nodes c :=
  ⟨h.tag, h.converter, h.raw.mono fun _ hb => hb, h.answered, h.result⟩

end LoadState

namespace Load

open Traversal Event

variable (session : Session) (nodes : NodeGraph)

def handled (order : List NodeId) : List NodeId :=
  order.filter fun n => (session.converterAt nodes n).isSome

variable {session nodes} {s s' : LoadState} {es es' : List (Event NodeId)} {cs : List Conversion}

theorem handled_snoc_none {order : List NodeId} {n : NodeId}
    (h : session.converterAt nodes n = none) :
    handled session nodes (order ++ [n]) = handled session nodes order := by
  simp [handled, h]

theorem handled_snoc_some {order : List NodeId} {n : NodeId} {c : LoadedConverter Behaviour}
    (h : session.converterAt nodes n = some c) :
    handled session nodes (order ++ [n]) = handled session nodes order ++ [n] := by
  simp [handled, h]

variable (session nodes) in
/-- The calls so far are those of the conversions `cs`, one for each node in `order` that has a
converter, and the deferred ones among them wait for their ends. -/
structure Converted (s : LoadState) (order : List NodeId) (cs : List Conversion) : Prop where
  nodes_eq : cs.map Conversion.node = handled session nodes order
  calls : s.calls = cs.map Conversion.call
  deferred : s.deferred = cs.filterMap Conversion.completion?
  happened : ∀ c ∈ cs, s.Happened session nodes c

theorem Step.happened (hstep : Step session nodes (s, es) (s', es'))
    (ht : Tracks session nodes s es) {c : Conversion} (h : s.Happened session nodes c) :
    s'.Happened session nodes c where
  tag := h.tag
  converter := h.converter
  raw := h.raw.mono fun _ => hstep.mem_built
  answered := h.answered
  result := hstep.lookup_done ht h.result

theorem Converted.quiet {order order' : List NodeId} (h : Converted session nodes s order cs)
    (hhappened : ∀ c ∈ cs, s'.Happened session nodes c)
    (horder : handled session nodes order' = handled session nodes order)
    (hcalls : s'.calls = s.calls) (hdeferred : s'.deferred = s.deferred) :
    Converted session nodes s' order' cs where
  nodes_eq := h.nodes_eq.trans horder.symm
  calls := hcalls.trans h.calls
  deferred := hdeferred.trans h.deferred
  happened := hhappened

theorem Converted.step (h : Converted session nodes s (leaving es) cs)
    (hstep : Step session nodes (s, es) (s', es')) (ht : Tracks session nodes s es) :
    ∃ cs', Converted session nodes s' (leaving es') cs' := by
  have hold : ∀ c ∈ cs, s'.Happened session nodes c :=
    fun c hc => hstep.happened ht (h.happened c hc)
  cases hstep with
  | enterRaw hn hc => exact ⟨cs, h.quiet hold (by simp) (by simp) (by simp)⟩
  | enterConverted hn hc => exact ⟨cs, h.quiet hold (by simp) (by simp) (by simp)⟩
  | refer hb hc he hn hr hec => exact ⟨cs, h.quiet hold (by simp) (by simp) (by simp)⟩
  | leaveRaw hends hc =>
    refine ⟨cs, h.quiet hold ?_ (by simp) (by simp)⟩
    rw [leaving_snoc_leave, handled_snoc_none hc]
  | @leaveConverted _ _ n c t raw answer objects hcalls hcall =>
    refine ⟨cs ++ [⟨n, c, t, raw, s.objects, answer⟩], ?_, ?_, ?_, ?_⟩
    · rw [leaving_snoc_leave, handled_snoc_some hcalls.converterAt_eq, List.map_append, h.nodes_eq]
      rfl
    · rw [List.map_append, ← h.calls]
      rfl
    · rw [List.filterMap_append, ← h.deferred]
      cases answer with
      | ready o => exact (List.append_nil _).symm
      | deferred d => rfl
    · intro d hd
      rcases List.mem_append.1 hd with hd | hd
      · exact hold d hd
      · obtain rfl := List.mem_singleton.1 hd
        have hafter : (LoadCall.fromTree c t raw s.objects).after session.context = objects :=
          congrArg Prod.snd hcall
        exact ⟨hcalls.tag, hcalls.converter, hcalls.raw, hafter ▸ hcall,
          by rw [LoadState.lookup_record, if_pos rfl]⟩

theorem Steps.converted {objects : ObjectGraph} {warnings : Warnings}
    (h : Steps session nodes (LoadState.start objects warnings, []) (s', es')) :
    ∃ cs, Converted session nodes s' (leaving es') cs := by
  have hstart : Converted session nodes (LoadState.start objects warnings) (leaving []) [] :=
    ⟨rfl, rfl, rfl, by simp⟩
  apply And.right
  apply h.keeps (J := fun s es =>
    Tracks session nodes s es ∧ ∃ cs, Converted session nodes s (leaving es) cs)
  · intro s es s' es' hstep ⟨ht, cs, hcs⟩
    exact ⟨ht.step hstep, hcs.step hstep ht⟩
  · exact ⟨.nil _ _, [], hstart⟩

/-- A load fails while it converts nodes or in a completion. -/
theorem fails_run (root : NodeId) (s : LoadState) (e : Halt) (s' : LoadState)
    (h : Fails (run session nodes root) s e s') :
    Fails (convert session nodes (nodes.size + 1) root) s e s' ∨
      ∃ o s₁, Yields (convert session nodes (nodes.size + 1) root) s o s₁ ∧
        Fails (complete s₁.deferred) s₁ e s' := by
  rcases (fails_bind _ _ _ _ _).1 h with h | ⟨o, s₁, hconvert, h⟩
  · exact .inl h
  rw [fails_get_bind, fails_bind] at h
  rcases h with h | ⟨_, s₂, -, h⟩
  · exact .inr ⟨o, s₁, hconvert, h⟩
  · -- to look up the result cannot fail
    cases o <;> cases h

variable (session nodes) in
/-- How a load from `root` into `objects` ended, which calls it has made until then, and what they
did. -/
inductive Accounts (root : NodeId) (objects : ObjectGraph) : Except Halt Object × LoadState → Prop
  | finished {o : Object} {s : LoadState} {cs : List Conversion} {g : ObjectGraph}
      {ends : List LoadCall}
      (hnodes : cs.map Conversion.node = handled session nodes (nodes.postorder root))
      (hhappened : ∀ c ∈ cs, s.Happened session nodes c)
      (hleads : Leads session.context s.built objects (cs.map Conversion.call) g)
      (hends : Finishes g (cs.filterMap Conversion.completion?) ends s.objects)
      (hcalls : s.calls = cs.map Conversion.call ++ ends) :
      Accounts root objects (.ok o, s)
  | callFailed {s : LoadState} {cs : List Conversion} {n : NodeId} {c : LoadedConverter Behaviour}
      {t : TagUri} {raw : Object} {message : String} {g : ObjectGraph}
      (hnodes : cs.map Conversion.node ++ [n] <+: handled session nodes (nodes.postorder root))
      (hhappened : ∀ c ∈ cs, s.Happened session nodes c)
      (htag : nodes.tag n = some t) (hconverter : session.registry.converterForTag t = some c)
      (hraw : s.IsRaw n (nodes.content n) raw)
      (hleads : Leads session.context s.built objects (cs.map Conversion.call) g)
      (hfails : Fails (c.converter.behaviour.fromTree session.context raw t) g message s.objects)
      (hcalls : s.calls = cs.map Conversion.call ++ [.fromTree c t raw g]) :
      Accounts root objects (.error (.failed (.converterFailed (some t) c.className message)), s)
  | completionFailed {s : LoadState} {cs : List Conversion} {before after : List Completion}
      {d : Completion} {error : DeferredError} {g h : ObjectGraph} {ends last : List LoadCall}
      (hnodes : cs.map Conversion.node = handled session nodes (nodes.postorder root))
      (hhappened : ∀ c ∈ cs, s.Happened session nodes c)
      (hleads : Leads session.context s.built objects (cs.map Conversion.call) g)
      (hdeferred : cs.filterMap Conversion.completion? = before ++ d :: after)
      (hends : Finishes g before ends h) (hbreaks : d.Breaks h error last s.objects)
      (hcalls : s.calls = cs.map Conversion.call ++ (ends ++ last)) :
      Accounts root objects (.error (d.failure error), s)

theorem load_finished {root : NodeId} {objects : ObjectGraph} {warnings : Warnings} {o : Object}
    (h : load session nodes root objects warnings = (.ok o, s')) :
    Accounts session nodes root objects (.ok o, s') := by
  obtain ⟨s, hsteps, -, hcomplete, -⟩ := load_steps h
  obtain ⟨cs, hcs⟩ := hsteps.converted
  obtain ⟨ends, g, hends, rfl⟩ := (yields_complete _ _ _ _).1 hcomplete
  have hleads := hsteps.leads
  rw [hcs.calls] at hleads
  rw [hcs.deferred] at hends
  refine .finished hcs.nodes_eq (fun c hc => (hcs.happened c hc).ran) hleads hends ?_
  rw [← hcs.calls]
  rfl

theorem load_failed {root : NodeId} {objects : ObjectGraph} {warnings : Warnings} {e : Halt}
    (h : load session nodes root objects warnings = (.error e, s')) :
    Accounts session nodes root objects (.error e, s') := by
  rcases fails_run root _ e s' h with hconvert | ⟨o, s, hconvert, hcomplete⟩
  · obtain ⟨s, es, n, hsteps, hprefix, c, t, raw, message, g, hcalls, hfails, rfl, rfl⟩ :=
      convert_fails _ root _ [] e s' (.nil _ _) (Nat.lt_succ_of_le (remaining_le_size _)) hconvert
    obtain ⟨cs, hcs⟩ := hsteps.converted
    have hleads := hsteps.leads
    rw [hcs.calls] at hleads
    refine .callFailed ?_ (fun c hc => (hcs.happened c hc).ran) hcalls.tag hcalls.converter
      (hcalls.raw.mono fun _ hb => hb) hleads hfails ?_
    · rw [hcs.nodes_eq, ← handled_snoc_some hcalls.converterAt_eq, ← leaving_snoc_leave]
      exact (leaving_mono hprefix).filter _
    · rw [← hcs.calls]
  · obtain ⟨hsteps, -, -⟩ := convert_steps _ root _ [] o s (.nil _ _) hconvert
    obtain ⟨cs, hcs⟩ := hsteps.converted
    obtain ⟨before, d, after, ends, g, error, last, k, hds, hends, hbreaks, rfl, rfl⟩ :=
      fails_complete _ _ _ _ hcomplete
    have hleads := hsteps.leads
    rw [hcs.calls] at hleads
    refine .completionFailed hcs.nodes_eq (fun c hc => (hcs.happened c hc).ran) hleads
      (hcs.deferred.symm.trans hds) hends hbreaks ?_
    rw [← hcs.calls]
    rfl

/-- Converters are called once for each node that can be reached and has one, bottom-up, and the
deferred conversions are completed after that, in the order of the calls that began them. -/
theorem load_calls_in_order (session : Session) (nodes : NodeGraph) (root : NodeId)
    (objects : ObjectGraph) (warnings : Warnings) :
    (nodes.postorder root).Nodup ∧ (∀ n, n ∈ nodes.postorder root ↔ nodes.Reachable root n) ∧
      Accounts session nodes root objects (load session nodes root objects warnings) := by
  refine ⟨nodes.nodup_postorder root, fun n => NodeGraph.mem_postorder, ?_⟩
  obtain ⟨r, s, h⟩ : ∃ r s, load session nodes root objects warnings = (r, s) := ⟨_, _, rfl⟩
  rw [h]
  cases r with
  | ok o => exact load_finished h
  | error e => exact load_failed h

end Load

end TaggedGraph
