import TaggedGraph.Proofs.Plugin.History

namespace TaggedGraph

variable {β : Type}

def PluginCall.TellsErrors : PluginCall β → Prop
  | .register p => p.TellsErrors
  | _ => True

namespace History

open Discovery

variable {start : EntryPoints β} {ledger : Ledger}

theorem calls_pass (h : History β) : (h.pass start ledger).2.calls =
    (h.after start ledger).ledger.calls ++ (h.passCalls start ledger).map (·.1.id) := by
  rw [pass, discover_eq, passCalls]

theorem calls_after_cons (h : History β) (c : PluginCall β) :
    (after start ledger (c :: h)).ledger.calls = (h.after start ledger).ledger.calls ++
      if c.passes (h.cached start ledger) then (h.passCalls start ledger).map (·.1.id) else [] := by
  rw [after_cons]
  split
  · rw [(refresh_after h).2, calls_pass]
  · rw [((h.after start ledger).record_frame c).2, List.append_nil]

theorem discovered_after_cons (h : History β) (c : PluginCall β) :
    (after start ledger (c :: h)).discovered =
      if c.passes (h.cached start ledger) then (h.pass start ledger).1.toOption
      else if c.discards then none else (h.after start ledger).discovered := by
  rw [after_cons]
  split
  · exact (refresh_after h).1
  · exact ((h.after start ledger).record_frame c).1

/-- What a pass discovers that is made after these calls is made of the answers of the factories
that it calls, and each of them is told how often it was called before. A pass that comes to its
end calls every factory that is not disabled, once, those of extensions first and each group in
order. -/
structure Answered (start : EntryPoints β) (ledger : Ledger) (h : History β) : Prop where
  answer : ∀ (i : Nat) (x : EntryPoint β × Produced β), (h.passCalls start ledger)[i]? = some x →
    x.2 = x.1.factory (((h.after start ledger).ledger.calls ++
      ((h.passCalls start ledger).take i).map (·.1.id)).count x.1.id)
  calls : ∀ d, (h.pass start ledger).1 = .ok d → (h.passCalls start ledger).map Prod.fst =
    enabled h.options ((h.source start).ofGroup .extensions) ++
      enabled h.options ((h.source start).ofGroup .resourceMappings)
  found : ∀ d, (h.pass start ledger).1 = .ok d →
    h.passCalls start ledger =
        calledInTurn (h.source start).ofGroup h.options (h.after start ledger).ledger ∧
      d = found (h.source start).ofGroup h.options (h.after start ledger).ledger

theorem answered (h : History β) : h.Answered start ledger where
  answer i x hx := by
    rw [passCalls, calledInTurn_eq] at hx ⊢
    exact eq_of_getElem?_reached hx
  calls d hd := by
    obtain ⟨hfatal, -⟩ := discover_eq_ok_iff.1 hd
    rw [passCalls, reached_eq_self hfatal, calledInTurn_eq, produced_map_fst]
  found d hd := by
    obtain ⟨hfatal, hfound⟩ := discover_eq_ok_iff.1 hd
    exact ⟨reached_eq_self hfatal, hfound⟩

theorem tellsErrors_source {h : History β} (hstart : ∀ p ∈ start, p.TellsErrors)
    (hcalls : ∀ c ∈ h, c.TellsErrors) : ∀ p ∈ h.source start, p.TellsErrors := by
  induction h with
  | nil => exact hstart
  | cons c h ih =>
    rw [List.forall_mem_cons] at hcalls
    have hrest := ih hcalls.2
    cases c with
    | register p =>
      intro q hq
      rcases List.mem_append.1 hq with hq | hq
      · exact hrest q hq
      · rw [List.mem_singleton.1 hq]
        exact hcalls.1
    | unregister name => exact fun p hp => hrest p (List.mem_of_mem_filter hp)
    | _ => exact hrest

/-- No pass panics if all errors of the factories have a text. -/
theorem exists_pass_eq_ok {h : History β} (hstart : ∀ p ∈ start, p.TellsErrors)
    (hcalls : ∀ c ∈ h, c.TellsErrors) : ∃ d, (h.pass start ledger).1 = .ok d := by
  have hsource := tellsErrors_source hstart hcalls
  refine ⟨_, discover_eq_ok_iff.2 ⟨firstFatal?_eq_none fun g p hp => ?_, rfl⟩⟩
  exact hsource p (List.mem_of_mem_filter hp)

/-- A pass is at hand if there was a refresh or a question since the last configuration. -/
theorem cached_eq_any {h : History β} (hstart : ∀ p ∈ start, p.TellsErrors)
    (hcalls : ∀ c ∈ h, c.TellsErrors) : h.cached start ledger =
      (h.takeWhile fun c => !c.discards).any fun c => c.passes false := by
  induction h with
  | nil => rfl
  | cons c h ih =>
    rw [List.forall_mem_cons] at hcalls
    obtain ⟨d, hd⟩ := @exists_pass_eq_ok β start ledger h hstart hcalls.2
    rw [cached, hd, ih hcalls.2, List.takeWhile_cons]
    cases hdiscards : c.discards with
    | true => simp [PluginCall.passes_of_discards hdiscards]
    | false =>
      simp only [Bool.not_false, Bool.and_true, if_true, List.any_cons]
      rw [← c.passes_or]
      cases c.passes _ <;> rfl

/-- The warnings of additions are recorded in the order of the additions. A later removal does not
take them back. -/
theorem addedWarnings_after (h : History β) : (h.after start ledger).addedWarnings =
    ⟨(h.additions start ledger).reverse.flatMap (·.warnings), []⟩ := by
  induction h with
  | nil => rfl
  | cons c h ih =>
    rw [after_cons]
    cases c with
    | add e =>
      rw [if_neg (by simp [PluginCall.passes]), additions]
      rcases @add_after β start ledger h e with ⟨hnone, f, hadd⟩ | ⟨a, hsome, -, hadd⟩
      · rw [PluginSet.record, hadd, hnone]
        exact ih
      · rw [PluginSet.record, hadd, hsome]
        simp [ih, Warnings.append, Warnings.keep, Warnings.isSilenced]
    | remove id =>
      have hwarnings : Addition.warnings ∘ Addition.remove id = (Addition.warnings (β := β)) := rfl
      rw [if_neg (by simp [PluginCall.passes]), additions, ← List.map_reverse, List.flatMap_map]
      exact ih
    | reset => rfl
    | _ => split <;> exact ih

/-- Discovery is lazy and cached, and it uses the current options. A call makes a pass if it is a
refresh, or if it asks for what is discovered and no pass is at hand, and no other call calls a
factory. Questions are answered from the last pass. The warnings are those of the pass at hand, and
then those of the additions since the last reset. If all errors of the factories have a text, every
pass comes to its end, and one is at hand if there was a refresh or a question since the start and
since the last configuration. -/
theorem discovery_is_lazy (h : History β) (c : PluginCall β) :
    ((after start ledger (c :: h)).ledger.calls = (h.after start ledger).ledger.calls ++
        if c.passes (h.cached start ledger) then (h.passCalls start ledger).map (·.1.id)
        else []) ∧
      h.Answered start ledger ∧
      ((after start ledger (c :: h)).discovered =
        if c.passes (h.cached start ledger) then
          (discover (h.source start).ofGroup h.options (h.after start ledger).ledger).1.toOption
        else if c.discards then none else (h.after start ledger).discovered) ∧
      (h.after start ledger).discovered = h.currentPass start ledger ∧
      (∃ r, lastPass start ledger (.mappings :: h) = some r ∧
        (h.after start ledger).mappings.1 = r.map (·.mappings) ∧
        (h.after start ledger).resources.1 = r.map fun d => ⟨d.mappings⟩) ∧
      (h.after start ledger).warnings =
        ((h.currentPass start ledger).map (·.warnings.records)).getD [] ++
          (h.additions start ledger).reverse.flatMap (·.warnings) ∧
      ((∀ p ∈ start, p.TellsErrors) → (∀ c ∈ h, c.TellsErrors) →
        (∃ d, (h.pass start ledger).1 = .ok d) ∧
          h.cached start ledger =
            (h.takeWhile fun c => !c.discards).any fun c => c.passes false) := by
  refine ⟨calls_after_cons h c, answered h, discovered_after_cons h c, (discovered_after h).2,
    ⟨_, lastPass_extensions h, rfl, ?_⟩, ?_, fun hstart hcalls => ?_⟩
  · change ((h.after start ledger).ensure.1.map _).map _ = _
    cases (h.after start ledger).ensure.1 <;> rfl
  · rw [PluginSet.warnings, (discovered_after h).2, addedWarnings_after]
  · exact ⟨exists_pass_eq_ok hstart hcalls, cached_eq_any hstart hcalls⟩

end History

/-- One factory fails at its first call. The package of the other one may be disabled. -/
def quietPlugins : EntryPoints Unit :=
  [⟨0, "quiet", .extensions, none, fun n =>
      if n = 0 then .failed (.missingDependency "units") else .items []⟩,
    ⟨1, "optional", .resourceMappings, some ⟨"pkg", "1"⟩, fun _ => .items []⟩]

/-- A refresh, a configuration, and then two questions. -/
def asking : History Unit :=
  [.extensions, .mappings, .configure ⟨["pkg"], []⟩, .refresh]

theorem quietPlugins_tellsErrors : ∀ p ∈ quietPlugins, p.TellsErrors := by
  intro p hp n panic h
  simp only [quietPlugins, List.mem_cons, List.not_mem_nil, or_false] at hp
  rcases hp with rfl | rfl
  · dsimp only at h
    split at h <;> cases h
  · cases h

theorem discovery_is_lazy_asking :
    (∀ p ∈ quietPlugins, p.TellsErrors) ∧ (∀ c ∈ asking, c.TellsErrors) ∧
      (∃ d, (asking.pass quietPlugins .empty).1 = .ok d) ∧
      asking.cached quietPlugins .empty =
        (asking.takeWhile fun c => !c.discards).any (fun c => c.passes false) ∧
      (asking.after quietPlugins .empty).ledger.calls = [0, 1, 0] := by
  have hcalls : ∀ c ∈ asking, c.TellsErrors := by simp [asking, PluginCall.TellsErrors]
  obtain ⟨-, -, -, -, -, -, htells⟩ :=
    @History.discovery_is_lazy Unit quietPlugins .empty asking .refresh
  obtain ⟨hpass, hcached⟩ := htells quietPlugins_tellsErrors hcalls
  exact ⟨quietPlugins_tellsErrors, hcalls, hpass, hcached, by decide +kernel⟩

end TaggedGraph
