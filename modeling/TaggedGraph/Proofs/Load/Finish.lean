import TaggedGraph.Proofs.Load.Answers

namespace TaggedGraph

namespace Completion

def call (d : Completion) (g : ObjectGraph) : LoadCall :=
  .finish d.converter d.tag d.raw d.deferred.completion g

def failure (d : Completion) (e : DeferredError) : Halt :=
  .failed (.converterFailed (some d.tag) d.converter.className e.message)

/-- The conversion cannot be ended on `g`: its steps fail, or they must not be run. -/
inductive Breaks (d : Completion) (g : ObjectGraph) :
    DeferredError → List LoadCall → ObjectGraph → Prop
  | early (hphase : d.deferred.phase = .notStarted) : Breaks d g .notEmitted [] g
  | again (hphase : d.deferred.phase = .finished) : Breaks d g .finishedTwice [] g
  | failed {message : String} {h : ObjectGraph} (hphase : d.deferred.phase = .placeholderEmitted)
      (hfails : Fails d.deferred.completion g message h) :
      Breaks d g (.failed message) [d.call g] h

end Completion

namespace LoadState

/-- What a pending reference stands for in the end. -/
def follow (s : LoadState) : Object → Object
  | .pending n => s.result n
  | o => o

def ran (s : LoadState) (objects : ObjectGraph) (calls : List LoadCall) : LoadState :=
  { s with objects, calls := s.calls ++ calls }

theorem ran_nil (s : LoadState) : s.ran s.objects [] = s := by
  simp [ran]

theorem ran_ran (s : LoadState) (g g' : ObjectGraph) (cs cs' : List LoadCall) :
    (s.ran g cs).ran g' cs' = s.ran g' (cs ++ cs') := by
  simp [ran]

end LoadState

namespace Load

open Traversal Event

/-- The deferred conversions are ended one after the other, from `g` on, by these calls. -/
inductive Finishes : ObjectGraph → List Completion → List LoadCall → ObjectGraph → Prop
  | nil (g : ObjectGraph) : Finishes g [] [] g
  | cons {g h k : ObjectGraph} {d : Completion} {ds : List Completion} {calls : List LoadCall}
      (hphase : d.deferred.phase = .placeholderEmitted)
      (hrun : Yields d.deferred.completion g () h) (hrest : Finishes h ds calls k) :
      Finishes g (d :: ds) (d.call g :: calls) k

theorem run_complete_cons (d : Completion) (ds : List Completion) (s : LoadState) :
    (complete (d :: ds)).run s = match d.deferred.phase with
      | .notStarted => (.error (d.failure .notEmitted), s)
      | .finished => (.error (d.failure .finishedTwice), s)
      | .placeholderEmitted => match d.deferred.completion.run s.objects with
        | (.ok (), g) => (complete ds).run (s.ran g [d.call s.objects])
        | (.error message, g) =>
          (.error (d.failure (.failed message)), s.ran g [d.call s.objects]) := by
  rw [complete, run_get_bind, Deferred.finish]
  cases hphase : d.deferred.phase with
  | notStarted => exact congrArg (Prod.mk _) s.ran_nil
  | finished => exact congrArg (Prod.mk _) s.ran_nil
  | placeholderEmitted =>
    generalize d.deferred.completion.run s.objects = p
    obtain ⟨result, g⟩ := p
    cases result <;> rfl

theorem yields_complete_cons (d : Completion) (ds : List Completion) (s : LoadState) (u : Unit)
    (s' : LoadState) : Yields (complete (d :: ds)) s u s' ↔
      d.deferred.phase = .placeholderEmitted ∧ ∃ g, Yields d.deferred.completion s.objects () g ∧
        Yields (complete ds) (s.ran g [d.call s.objects]) u s' := by
  unfold Yields
  rw [run_complete_cons]
  cases d.deferred.phase with
  | notStarted | finished => exact iff_of_false (by rintro ⟨⟩) fun h => nomatch h.1
  | placeholderEmitted =>
    generalize d.deferred.completion.run s.objects = p
    obtain ⟨result, g⟩ := p
    cases result with
    | ok => exact ⟨fun h => ⟨rfl, g, rfl, h⟩, fun ⟨_, _, hg, h⟩ => (Prod.mk.inj hg).2 ▸ h⟩
    | error => exact iff_of_false (by rintro ⟨⟩) fun ⟨_, _, hg, _⟩ => nomatch hg

theorem yields_complete (ds : List Completion) (s : LoadState) (u : Unit) (s' : LoadState) :
    Yields (complete ds) s u s' ↔
      ∃ calls g, Finishes s.objects ds calls g ∧ s' = s.ran g calls := by
  induction ds generalizing s with
  | nil =>
    constructor
    · intro h
      obtain ⟨-, rfl⟩ := (yields_pure _ _ _ _).1 h
      exact ⟨[], s'.objects, .nil _, s'.ran_nil.symm⟩
    · rintro ⟨_, _, ⟨⟩, rfl⟩
      exact (yields_pure _ _ _ _).2 ⟨rfl, s.ran_nil⟩
  | cons d ds ih =>
    rw [yields_complete_cons]
    constructor
    · intro ⟨hphase, g, hrun, h⟩
      obtain ⟨calls, k, hrest, rfl⟩ := (ih _).1 h
      exact ⟨d.call s.objects :: calls, k, .cons hphase hrun hrest, s.ran_ran g k _ calls⟩
    · rintro ⟨_, k, hfinishes, rfl⟩
      cases hfinishes with
      | cons hphase hrun hrest =>
        exact ⟨hphase, _, hrun, (ih _).2 ⟨_, k, hrest, (s.ran_ran _ k [_] _).symm⟩⟩

/-- A completion that fails is the last one that runs. -/
theorem fails_complete (ds : List Completion) (s : LoadState) (e : Halt) (s' : LoadState)
    (h : Fails (complete ds) s e s') : ∃ before d after calls g error more k,
      ds = before ++ d :: after ∧ Finishes s.objects before calls g ∧ d.Breaks g error more k ∧
      e = d.failure error ∧ s' = s.ran k (calls ++ more) := by
  induction ds generalizing s with
  | nil => exact absurd h (not_fails_pure _ _ _ _)
  | cons d ds ih =>
    rw [Fails, run_complete_cons] at h
    cases hphase : d.deferred.phase with
    | notStarted =>
      rw [hphase] at h
      cases h
      exact ⟨[], d, ds, [], _, _, [], _, rfl, .nil _, .early hphase, rfl, s'.ran_nil.symm⟩
    | finished =>
      rw [hphase] at h
      cases h
      exact ⟨[], d, ds, [], _, _, [], _, rfl, .nil _, .again hphase, rfl, s'.ran_nil.symm⟩
    | placeholderEmitted =>
      rw [hphase] at h
      rcases yields_or_fails d.deferred.completion s.objects with ⟨_, g, hrun⟩ | ⟨message, g, hrun⟩
      · simp only [show d.deferred.completion.run s.objects = _ from hrun] at h
        obtain ⟨before, c, after, calls, k, error, more, k', rfl, hbefore, hbreaks, he, rfl⟩ :=
          ih _ h
        refine ⟨d :: before, c, after, d.call s.objects :: calls, k, error, more, k', rfl,
          .cons hphase hrun hbefore, hbreaks, he, ?_⟩
        exact s.ran_ran g k' [d.call s.objects] (calls ++ more)
      · simp only [show d.deferred.completion.run s.objects = _ from hrun] at h
        cases h
        exact ⟨[], d, ds, [], s.objects, _, [d.call s.objects], g, rfl, .nil _,
          .failed hphase hrun, rfl, rfl⟩

section
variable {ctx : Context} {built : List (NodeId × ObjectId)} {g h : ObjectGraph}
  {ds : List Completion} {calls : List LoadCall}

theorem Finishes.spares (hds : Finishes g ds calls h)
    (hspares : ∀ call ∈ calls, call.Spares ctx built) :
    g.size ≤ h.size ∧ ∀ b ∈ built, b.2 < g.size → h.read b.2 = g.read b.2 := by
  induction hds with
  | nil => exact ⟨Nat.le_refl _, fun _ _ _ => rfl⟩
  | @cons g h k d ds calls hphase hrun hrest ih =>
    have hafter : (d.call g).after ctx = h := congrArg Prod.snd hrun
    obtain ⟨hsize, hread⟩ := hspares (d.call g) List.mem_cons_self
    rw [hafter] at hsize hread
    obtain ⟨hsize', hread'⟩ := ih fun c hc => hspares c (List.mem_cons_of_mem _ hc)
    refine ⟨Nat.le_trans hsize hsize', fun b hb hlt => ?_⟩
    rw [hread' b hb (Nat.lt_of_lt_of_le hlt hsize), hread b hb hlt]
    rfl

end

/-- From `s` to `s'` calls are made, and cells change that are not in `built`. -/
structure Completes (built : List (NodeId × ObjectId)) (s s' : LoadState) : Prop where
  done : s'.done = s.done
  waiting : s'.waiting = s.waiting
  built_eq : s'.built = s.built
  calls : s.calls <+: s'.calls
  size : s.objects.size ≤ s'.objects.size
  read : ∀ b ∈ built, b.2 < s.objects.size → s'.objects.read b.2 = s.objects.read b.2

variable {built : List (NodeId × ObjectId)} {s s' s'' : LoadState}

theorem Completes.refl (built : List (NodeId × ObjectId)) (s : LoadState) : Completes built s s :=
  ⟨rfl, rfl, rfl, List.prefix_rfl, Nat.le_refl _, fun _ _ _ => rfl⟩

theorem Completes.trans (h : Completes built s s') (h' : Completes built s' s'') :
    Completes built s s'' where
  done := h'.done.trans h.done
  waiting := h'.waiting.trans h.waiting
  built_eq := h'.built_eq.trans h.built_eq
  calls := h.calls.trans h'.calls
  size := Nat.le_trans h.size h'.size
  read b hb hlt := by
    rw [h'.read b hb (Nat.lt_of_lt_of_le hlt h.size), h.read b hb hlt]

theorem completes_ran {g : ObjectGraph} {calls : List LoadCall} (hsize : s.objects.size ≤ g.size)
    (hread : ∀ b ∈ built, b.2 < s.objects.size → g.read b.2 = s.objects.read b.2) :
    Completes built s (s.ran g calls) :=
  ⟨rfl, rfl, rfl, List.prefix_append _ _, hsize, hread⟩

variable {session : Session} {nodes : NodeGraph} {es es' : List (Event NodeId)}

/-- A load that ends well has gone through all events of the traversal, and then has completed its
deferred conversions. -/
theorem load_steps {root : NodeId} {objects : ObjectGraph} {warnings : Warnings} {o : Object}
    (h : load session nodes root objects warnings = (.ok o, s')) : ∃ s,
      Steps session nodes (LoadState.start objects warnings, [])
        (s, walk nodes.children (nodes.size + 1) [] root) ∧
      enter root ∈ walk nodes.children (nodes.size + 1) [] root ∧
      Yields (complete s.deferred) s () s' ∧ o = s'.follow (s.result root) := by
  have h : Yields (run session nodes root) (LoadState.start objects warnings) o s' := h
  simp only [run, runWithin, yields_bind, yields_get] at h
  obtain ⟨p, _, hconvert, _, s, ⟨rfl, rfl⟩, _, s'', hcomplete, h⟩ := h
  obtain ⟨hsteps, rfl, hroot⟩ := convert_steps _ _ _ _ _ _ (.nil objects warnings) hconvert
  refine ⟨s, hsteps, hroot, ?_⟩
  -- only a pending result is followed
  cases hr : s.result root with
  | pending m =>
    rw [hr] at h
    simp only [yields_bind, yields_get, yields_pure] at h
    obtain ⟨_, _, ⟨rfl, rfl⟩, rfl, rfl⟩ := h
    exact ⟨hcomplete, rfl⟩
  | _ =>
    rw [hr] at h
    obtain ⟨rfl, rfl⟩ := (yields_pure _ _ _ _).1 h
    exact ⟨hcomplete, rfl⟩

/-- What is true of the state of a load, given the events so far. -/
structure Loaded (session : Session) (nodes : NodeGraph) (s : LoadState)
    (es : List (Event NodeId)) : Prop where
  slots : Slots session nodes s es
  trace : Traced nodes.children es
  done : ∀ n, (s.done.lookup n).isSome ↔ Settled session nodes es n
  isResult : ∀ n o, s.done.lookup n = some o → s.IsResult session nodes n o

theorem Completes.loaded (h : Completes s.built s s') (ht : Tracks session nodes s es)
    (hslots : Slots session nodes s es)
    (hres : ∀ n o, s.done.lookup n = some o → s.IsResult session nodes n o) :
    Loaded session nodes s' es where
  slots := by
    apply hslots.congr h.done h.built_eq h.waiting h.size
    exact fun b hb => h.read b hb (hslots.bound b hb)
  trace := ht.trace
  done n := by
    rw [h.done]
    exact ht.done n
  isResult n o hn := by
    rw [h.done] at hn
    exact (hres n o hn).mono (fun b hb => h.built_eq ▸ hb) fun c hcall => h.calls.subset hcall

theorem load_loaded {root : NodeId} {objects : ObjectGraph} {warnings : Warnings} {o : Object}
    (h : load session nodes root objects warnings = (.ok o, s'))
    (hspares : ∀ call ∈ s'.calls, call.Spares session.context s'.built) :
    Loaded session nodes s' (walk nodes.children (nodes.size + 1) [] root) ∧
      enter root ∈ walk nodes.children (nodes.size + 1) [] root ∧
      o = s'.follow (s'.result root) := by
  obtain ⟨s, hsteps, hroot, hcomplete, rfl⟩ := load_steps h
  obtain ⟨calls, g, hfinishes, rfl⟩ := (yields_complete _ _ _ _).1 hcomplete
  have hslots := hsteps.slots fun call hcall => hspares call (List.mem_append_left _ hcall)
  obtain ⟨hsize, hread⟩ :=
    hfinishes.spares fun call hcall => hspares call (List.mem_append_right _ hcall)
  have hc : Completes s.built s (s.ran g calls) := completes_ran hsize hread
  exact ⟨hc.loaded (hsteps.tracks (.nil _ _)) hslots hsteps.isResult, hroot, rfl⟩

end Load

end TaggedGraph
