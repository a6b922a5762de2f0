import TaggedGraph.Proofs.RoundTrip.Instances

namespace TaggedGraph

theorem LoadState.IsRaw.isPending {s : LoadState} {n : NodeId} {ct : Content} {raw : Object}
    (h : s.IsRaw n ct raw) : raw.isPending = false := by
  cases ct with
  | scalar v =>
    obtain rfl : raw = Load.ofScalar v := h
    cases v <;> rfl
  | sequence | mapping =>
    obtain ⟨id, -, rfl⟩ := h
    rfl

namespace Load

open Traversal Event

/-- Every node that a converter was called for has its instance. -/
structure Wrapped (P : Wrapper → ObjectGraph → Prop) (session : Session) (nodes : NodeGraph)
    (ready : List Wrapper) (late : List (Wrapper × Completion)) (s : LoadState) : Prop where
  instances : Instances P nodes ready late s
  deferred : s.deferred = late.map Prod.snd
  covers : ∀ n o, s.done.lookup n = some o → session.converterAt nodes n ≠ none →
    ∃ w ∈ ready ++ late.map Prod.fst, w.node = n

structure Sound (P : Wrapper → ObjectGraph → Prop) (session : Session) (nodes : NodeGraph)
    (root : NodeId) (s : LoadState) (es : List (Event NodeId)) : Prop where
  tracks : Tracks session nodes s es
  slots : Slots session nodes s es
  isResult : ∀ n o, s.done.lookup n = some o → s.IsResult session nodes n o
  reachable : ∀ n, enter n ∈ es → nodes.Reachable root n
  wrapped : ∃ ready late, Wrapped P session nodes ready late s

variable {P : Wrapper → ObjectGraph → Prop} {session : Session} {nodes : NodeGraph} {root : NodeId}
  {ready : List Wrapper}
  {late : List (Wrapper × Completion)} {s s' : LoadState} {es es' : List (Event NodeId)}

theorem Wrapped.grow (h : Wrapped P session nodes ready late s) (hs : Grows s s')
    (hdeferred : s'.deferred = s.deferred)
    (hdone : ∀ n o, s'.done.lookup n = some o → session.converterAt nodes n ≠ none →
      s.done.lookup n = some o) : Wrapped P session nodes ready late s' where
  instances := h.instances.grow hs
  deferred := hdeferred.trans h.deferred
  covers n o hn hc := h.covers n o (hdone n o hn hc) hc

namespace Sound

theorem nil (objects : ObjectGraph) (warnings : Warnings) :
    Sound P session nodes root (LoadState.start objects warnings) [] where
  tracks := .nil _ _
  slots := .nil _ _
  isResult := by simp [LoadState.start]
  reachable := by simp
  wrapped := ⟨[], [], .nil _ _, rfl, by simp [LoadState.start]⟩

theorem isPending (h : Sound P session nodes root s es) {n : NodeId} {o : Object}
    (hn : s.done.lookup n = some o) : o.isPending = false := by
  by_cases hc : session.converterAt nodes n = none
  · exact ((LoadState.isResult_of_none hc).1 (h.isResult n o hn)).isPending
  · obtain ⟨ready, late, hw⟩ := h.wrapped
    obtain ⟨w, hmem, rfl⟩ := hw.covers n o hn hc
    cases hn.symm.trans (hw.instances.made w hmem).result
    rfl

theorem eq_of_pending (h : Sound P session nodes root s es) {n m : NodeId}
    (hn : s.result n = .pending m) : m = n := by
  cases hd : s.done.lookup n with
  | none =>
    rw [LoadState.result, hd] at hn
    cases hn
    rfl
  | some o =>
    have hp := h.isPending hd
    rw [LoadState.result, hd] at hn
    obtain rfl : o = .pending m := hn
    cases hp

theorem shows (h : Sound P session nodes root s es) {n : NodeId} {raw : Object}
    (hr : ∀ i c, (nodes.children n)[i]? = some c → refer n i c ∈ es)
    (hraw : s.IsRaw n (nodes.content n) raw) : Shows nodes n raw s.objects := by
  have hscalar (c : NodeId) (hc : c ∈ nodes.children n) (v : Scalar) (ht : nodes.tag c = none)
      (hct : nodes.content c = .scalar v) : s.result c = ofScalar v := by
    have hat : session.converterAt nodes c = none := by simp [Session.converterAt, ht]
    obtain ⟨i, hi⟩ := List.mem_iff_getElem?.1 hc
    have he := (h.tracks.trace.refers n i c (hr i c hi)).2.1
    obtain ⟨o, ho⟩ := Option.isSome_iff_exists.1 ((h.tracks.done c).2 ((settled_of_none hat).2 he))
    have hres := (LoadState.isResult_of_none hat).1 (h.isResult c o ho)
    rw [hct] at hres
    rw [LoadState.result, ho]
    exact hres
  have hbuilt (id : ObjectId) (hb : (n, id) ∈ s.built) :=
    h.slots.builtWith hb hr fun c _ m hm => h.eq_of_pending hm
  unfold Shows
  unfold NodeGraph.children at hscalar
  cases hct : nodes.content n with
  | scalar v =>
    rw [hct] at hraw
    exact hraw
  | sequence | mapping =>
    rw [hct] at hraw hscalar hbuilt
    obtain ⟨id, hb, rfl⟩ := hraw
    exact ⟨id, s.result, rfl, h.slots.bound _ hb, hbuilt id hb, hscalar⟩

theorem call (h : Sound P session nodes root s es) (hcov : session.CoversAs P nodes root)
    {n : NodeId} {c : LoadedConverter Behaviour} {t : TagUri} {raw : Object}
    (hn : Calls session nodes s es n c t raw) : ∃ answer objects id,
      Yields (c.converter.behaviour.fromTree session.context raw t) s.objects answer objects ∧
      Fixes (· < s.objects.size) s.objects objects ∧ s.objects.size ≤ id ∧ id < objects.size ∧
      answer.object = .ref id ∧ Wrapper.StoresAs P nodes
        (.widen ⟨n, c, t, raw, id, fun _ => False⟩ s.objects objects) objects answer := by
  obtain ⟨c', hc', hwraps⟩ := hcov n t (h.reachable n hn.ends.entered) hn.tag
  obtain rfl : c = c' := Option.some.inj (hn.converter.symm.trans hc')
  exact hwraps raw s.objects (h.shows hn.ends.refers hn.raw)

theorem spares (h : Sound P session nodes root s es) (hcov : session.CoversAs P nodes root)
    (hstep : Step session nodes (s, es) (s', es')) (call : LoadCall)
    (hcall : s'.calls = s.calls ++ [call]) : call.Spares session.context s.built := by
  rcases hstep.calls_cases with he | ⟨n, c, t, raw, answer, objects, hn, hyields, he⟩
  · simp [he] at hcall
  · obtain rfl : call = .fromTree c t raw s.objects := by simpa [he] using hcall.symm
    obtain ⟨answer', objects', id, hyields', hfixes, -⟩ := h.call hcov hn
    obtain ⟨rfl, rfl⟩ := hyields.unique hyields'
    have hafter : (LoadCall.fromTree c t raw s.objects).after session.context = objects :=
      congrArg Prod.snd hyields
    constructor
    · rw [hafter]
      exact hfixes.size
    · rw [hafter]
      exact fun b _ hlt => hfixes.read b.2 hlt

section
variable {n id : NodeId} {c : LoadedConverter Behaviour} {t : TagUri} {raw : Object}
  {answer : FromTree} {objects : ObjectGraph}

theorem ne_of_fresh (h : Sound P session nodes root s es) {i : ObjectId} (hi : s.objects.size ≤ i)
    (b : NodeId × ObjectId) (hb : b ∈ s.built) : b.2 ≠ i :=
  Nat.ne_of_lt (Nat.lt_of_lt_of_le (h.slots.bound b hb) hi)

theorem grows_record (h : Sound P session nodes root s es) (hn : Calls session nodes s es n c t raw)
    (hfixes : Fixes (· < s.objects.size) s.objects objects) (answer : FromTree) :
    Grows ((s.answered c t raw answer objects).leave n)
      (((s.answered c t raw answer objects).leave n).record n answer.object) := by
  have hslots : Slots session nodes ((s.answered c t raw answer objects).leave n) es :=
    h.slots.congr rfl rfl rfl hfixes.size fun b hb => hfixes.read b.2 (h.slots.bound b hb)
  exact hslots.grows_record (h.tracks.lookup_none hn.not_settled) answer.object

theorem isMade (h : Sound P session nodes root s es) (hn : Calls session nodes s es n c t raw)
    (hfixes : Fixes (· < s.objects.size) s.objects objects) (hid : s.objects.size ≤ id)
    (hlt : id < objects.size) (hobject : answer.object = .ref id) :
    IsMade nodes (((s.answered c t raw answer objects).leave n).record n answer.object)
      (.widen ⟨n, c, t, raw, id, fun _ => False⟩ s.objects objects) where
  bound i hi := by
    have hrecord := h.grows_record hn hfixes answer
    exact Nat.lt_of_lt_of_le (hi.resolve_left not_false).2 hrecord.objects.size
  free b hb hi := h.ne_of_fresh (hi.resolve_left not_false).1 b hb rfl
  id := .inr ⟨hid, hlt⟩
  result := by
    change _ = some (Object.ref id)
    rw [← hobject, LoadState.lookup_record]
    exact if_pos rfl
  tag := hn.tag
  raw := hn.raw.mono fun b hb => hb

theorem covers_record {m : NodeId} {o p : Object} (hw : Wrapped P session nodes ready late s)
    (hm : (s.record n p).done.lookup m = some o) (hc : session.converterAt nodes m ≠ none) :
    m = n ∨ ∃ w ∈ ready ++ late.map Prod.fst, w.node = m := by
  rw [LoadState.lookup_record] at hm
  split at hm
  · rename_i he
    exact .inl he
  · exact .inr (hw.covers m o hm hc)

theorem answered (h : Sound P session nodes root s es) (hcov : session.CoversAs P nodes root)
    (hn : Calls session nodes s es n c t raw)
    (hcall : Yields (c.converter.behaviour.fromTree session.context raw t) s.objects answer
      objects) :
    ∃ ready late, Wrapped P session nodes ready late
      (((s.answered c t raw answer objects).leave n).record n answer.object) := by
  obtain ⟨answer', objects', id, hcall', hfixes, hid, hlt, hobject, hstores⟩ := h.call hcov hn
  obtain ⟨rfl, rfl⟩ := hcall.unique hcall'
  obtain ⟨ready, late, hw⟩ := h.wrapped
  have hrecord := h.grows_record hn hfixes answer
  have hinst := hw.instances.grow ((grows_answered hfixes n c t raw answer).trans hrecord)
  have hmade := h.isMade hn hfixes hid hlt hobject
  let v : Wrapper := .widen ⟨n, c, t, raw, id, fun _ => False⟩ s.objects objects
  have hown (i : ObjectId) (hi : v.own i) : s.objects.size ≤ i ∧ i < objects.size :=
    hi.resolve_left not_false
  have hapart : ∀ w ∈ ready ++ late.map Prod.fst, v.Apart w := fun w hmem i hi hi' =>
    absurd ((hw.instances.made w hmem).bound i hi') (Nat.not_lt.2 (hown i hi).1)
  -- what waited for the instance lies in lists and maps, which are none of its cells
  have hfix : Fixes v.own objects
      (((s.answered c t raw answer objects).leave n).record n answer.object).objects :=
    hrecord.objects.mono fun i hi => ⟨(hown i hi).2, h.ne_of_fresh (hown i hi).1⟩
  cases answer with
  | ready o =>
    have hkeeps := Wrapper.KeepsAs.mono hstores hfix
    refine ⟨v :: ready, late, hinst.cons hmade hapart hkeeps, hw.deferred, fun m p hm hc => ?_⟩
    rcases covers_record hw hm hc with rfl | ⟨w, hmem, hnode⟩
    · exact ⟨v, List.mem_cons_self, rfl⟩
    · exact ⟨w, List.mem_cons_of_mem _ hmem, hnode⟩
  | deferred d =>
    have hphase : d.emit.2.phase = .placeholderEmitted := by
      have := hstores.1
      cases hd : d.phase <;> simp [Deferred.emit, hd] at this ⊢
    refine ⟨ready, late ++ [(v, ⟨c, t, raw, d.emit.2⟩)],
      hinst.snoc hmade hapart hphase (Wrapper.KeepsLaterAs.mono hstores.2 hfix), ?_,
      fun m p hm hc => ?_⟩
    · rw [List.map_append, ← hw.deferred]
      rfl
    · rw [List.map_append, ← List.append_assoc]
      rcases covers_record hw hm hc with rfl | ⟨w, hmem, hnode⟩
      · exact ⟨v, List.mem_append_right _ List.mem_cons_self, rfl⟩
      · exact ⟨w, List.mem_append_left _ hmem, hnode⟩

end

theorem step (h : Sound P session nodes root s es) (hcov : session.CoversAs P nodes root)
    (hstep : Step session nodes (s, es) (s', es'))
    (hreach : ∀ n, enter n ∈ es' → nodes.Reachable root n) :
    Sound P session nodes root s' es' where
  tracks := h.tracks.step hstep
  slots := h.slots.step hstep h.tracks (h.spares hcov hstep)
  isResult := hstep.isResult h.isResult
  reachable := hreach
  wrapped := by
    obtain ⟨ready, late, hw⟩ := h.wrapped
    cases hstep with
    | @enterRaw _ _ n hn hc =>
      have hnone : (s.begin n (nodes.content n)).2.done.lookup n = none := by
        rw [LoadState.done_begin]
        exact h.tracks.lookup_none fun hs => hn (h.tracks.enter_of_settled hs)
      have hrecord := (h.slots.begin h.tracks.trace hn).grows_record hnone
        (s.begin n (nodes.content n)).1
      refine ⟨ready, late, hw.grow ((grows_begin s n _).trans hrecord) ?_ fun m o hm hcm => ?_⟩
      · exact s.deferred_begin n _
      · have hne : m ≠ n := fun he => hcm (he ▸ hc)
        rwa [lookup_record_of_ne hne, LoadState.done_begin] at hm
    | @enterConverted _ _ n hn hc =>
      have hbegin := grows_begin (s.enter n) n (nodes.content n)
      -- the entering of a node changes none of the fields that matter
      have hgrow : Grows s ((s.enter n).begin n (nodes.content n)).2 :=
        ⟨hbegin.objects, hbegin.mem_built, hbegin.built, hbegin.done⟩
      refine ⟨ready, late, hw.grow hgrow ?_ fun m o hm _ => ?_⟩
      · exact (s.enter n).deferred_begin n _
      · rwa [LoadState.done_begin] at hm
    | refer hb hc he hn hr hec =>
      refine ⟨ready, late, hw.grow (grows_put hb _ _ _) ?_ fun m o hm _ => ?_⟩
      · rw [LoadState.put, LoadState.await_eq]
      · rwa [LoadState.done_put] at hm
    | @leaveRaw _ _ n hends hc =>
      refine ⟨ready, late, hw.grow (grows_noted s n) ?_ fun m o hm _ => ?_⟩
      · rw [LoadState.noted_eq]
      · rwa [LoadState.done_noted] at hm
    | leaveConverted hcalls hcall => exact h.answered hcov hcalls hcall

end Sound

end Load

end TaggedGraph
