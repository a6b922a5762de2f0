import TaggedGraph.Proofs.Load.Slots

namespace TaggedGraph

namespace LoadState

/-- Node `n` was converted to `o`: to its list, map or primitive, or to what the converter answered
that was called with it. -/
def IsResult (session : Session) (nodes : NodeGraph) (s : LoadState) (n : NodeId) (o : Object) :
    Prop :=
  match session.converterAt nodes n with
  | none => s.IsRaw n (nodes.content n) o
  | some c => ∃ t raw g answer h, nodes.tag n = some t ∧ s.IsRaw n (nodes.content n) raw ∧
    LoadCall.fromTree c t raw g ∈ s.calls ∧
    Yields (c.converter.behaviour.fromTree session.context raw t) g answer h ∧ o = answer.object

variable {session : Session} {nodes : NodeGraph} {s s' : LoadState} {n : NodeId} {o : Object}

theorem isResult_of_none (hc : session.converterAt nodes n = none) :
    IsResult session nodes s n o ↔ s.IsRaw n (nodes.content n) o := by
  rw [IsResult, hc]

theorem IsResult.mono (h : IsResult session nodes s n o) (hb : ∀ b ∈ s.built, b ∈ s'.built)
    (hc : ∀ c ∈ s.calls, c ∈ s'.calls) : IsResult session nodes s' n o := by
  unfold IsResult at *
  split at h
  · exact h.mono hb
  · obtain ⟨t, raw, g, answer, g', ht, hraw, hcall, hyields, ho⟩ := h
    exact ⟨t, raw, g, answer, g', ht, hraw.mono hb, hc _ hcall, hyields, ho⟩

end LoadState

namespace Load

open Traversal Event LoadState

variable {session : Session} {nodes : NodeGraph} {s s' : LoadState} {es es' : List (Event NodeId)}

theorem Step.isResult (h : Step session nodes (s, es) (s', es'))
    (hs : ∀ n o, s.done.lookup n = some o → IsResult session nodes s n o) :
    ∀ n o, s'.done.lookup n = some o → IsResult session nodes s' n o := by
  have hold (n : NodeId) (o : Object) (hn : s.done.lookup n = some o) :
      IsResult session nodes s' n o :=
    (hs n o hn).mono (fun b hb => h.mem_built hb) h.calls_grow
  intro m o hm
  cases h with
  | @enterRaw _ _ n hn hc =>
    rw [lookup_record] at hm
    split at hm
    · rename_i he
      cases hm
      rw [he, isResult_of_none hc]
      exact s.isRaw_begin n _
    · exact hold m o (by simpa using hm)
  | enterConverted hn hc => exact hold m o (by simpa using hm)
  | refer => exact hold m o (by simpa using hm)
  | leaveRaw => exact hold m o (by simpa using hm)
  | @leaveConverted _ _ n c t raw answer objects hcalls hcall =>
    rw [lookup_record] at hm
    split at hm
    · rename_i he
      cases hm
      rw [he, IsResult, hcalls.converterAt_eq]
      exact ⟨t, raw, s.objects, answer, objects, hcalls.tag, hcalls.raw,
        List.mem_append_right _ (by simp), hcall, rfl⟩
    · exact hold m o hm

theorem Steps.isResult {objects : ObjectGraph} {warnings : Warnings}
    (h : Steps session nodes (start objects warnings, []) (s', es')) :
    ∀ n o, s'.done.lookup n = some o → IsResult session nodes s' n o :=
  h.keeps (J := fun s _ => ∀ n o, s.done.lookup n = some o → IsResult session nodes s n o)
    (fun _ _ _ _ hstep => hstep.isResult) (by simp [start])

end Load

end TaggedGraph
