import TaggedGraph.Plugin.Set
import TaggedGraph.Proofs.DiscoveryOptions

namespace TaggedGraph

variable {β : Type}

inductive PluginCall (β : Type)
  | configure (options : DiscoveryOptions)
  | refresh
  | extensions
  | mappings
  | resources
  | registry
  | warnings
  | add (e : Extension β)
  | remove (id : String)
  | reset
  | register (p : EntryPoint β)
  | unregister (name : String)

namespace PluginCall

/-- Whether the call makes a discovery pass: a refresh does, and a question about what is
discovered if no pass is at hand. -/
def passes (cached : Bool) : PluginCall β → Bool
  | refresh => true
  | extensions => !cached
  | mappings => !cached
  | resources => !cached
  | registry => !cached
  | _ => false

def discards : PluginCall β → Bool
  | configure _ => true
  | _ => false

theorem passes_of_discards {c : PluginCall β} (h : c.discards) (cached : Bool) :
    c.passes cached = false := by
  cases c with
  | configure => rfl
  | _ => cases h

theorem passes_or (c : PluginCall β) (cached : Bool) :
    (c.passes cached || cached) = (c.passes false || cached) := by
  cases c <;> cases cached <;> rfl

end PluginCall

namespace PluginSet

def call (s : PluginSet β) : PluginCall β → PluginSet β
  | .configure options => s.configure options
  | .refresh => s.refresh.2
  | .extensions => s.extensions.2
  | .mappings => s.mappings.2
  | .resources => s.resources.2
  | .registry => s.registry.2
  | .warnings => s
  | .add e => (s.add e).2
  | .remove id => s.remove id
  | .reset => s.reset
  | .register p => s.register p
  | .unregister name => s.unregister name

def record (s : PluginSet β) : PluginCall β → PluginSet β
  | .configure options => s.configure options
  | .add e => (s.add e).2
  | .remove id => s.remove id
  | .reset => s.reset
  | .register p => s.register p
  | .unregister name => s.unregister name
  | _ => s

theorem ensure_eq (s : PluginSet β) :
    s.ensure.2 = if s.discovered.isSome then s else s.refresh.2 := by
  unfold ensure
  cases s.discovered <;> rfl

theorem discovered_ensure (s : PluginSet β) :
    s.ensure.2.discovered = s.ensure.1.toOption := by
  unfold ensure
  split
  · assumption
  · rfl

/-- A call either makes a pass and nothing else, or none. -/
theorem call_eq (s : PluginSet β) (c : PluginCall β) :
    s.call c = if c.passes s.discovered.isSome then s.refresh.2 else s.record c := by
  have hensure : s.ensure.2 = if !s.discovered.isSome then s.refresh.2 else s := by
    rw [ensure_eq]
    cases s.discovered <;> rfl
  cases c with
  | extensions => exact hensure
  | mappings => exact hensure
  | resources => exact hensure
  | registry => exact hensure
  | _ => rfl

section
variable (s : PluginSet β)

theorem discovered_refresh : s.refresh.2.discovered =
    (discover s.source.ofGroup s.options s.ledger).1.toOption := rfl

theorem ledger_refresh : s.refresh.2.ledger =
    (discover s.source.ofGroup s.options s.ledger).2 := rfl

theorem add_frame (e : Extension β) : (s.add e).2.source = s.source ∧
    (s.add e).2.options = s.options ∧ (s.add e).2.discovered = s.discovered ∧
    (s.add e).2.removed = s.removed ∧ (s.add e).2.ledger.calls = s.ledger.calls := by
  unfold add
  split <;> exact ⟨rfl, rfl, rfl, rfl, rfl⟩

theorem add_error {e : Extension β} {f : LoadFailure} (h : (s.add e).1 = .error f) :
    (s.add e).2 = s := by
  unfold add at h ⊢
  split at h
  · rfl
  · cases h

theorem record_frame (c : PluginCall β) :
    (s.record c).discovered = (if c.discards then none else s.discovered) ∧
      (s.record c).ledger.calls = s.ledger.calls := by
  cases c with
  | add e =>
    obtain ⟨-, -, hdiscovered, -, hcalls⟩ := s.add_frame e
    exact ⟨hdiscovered, hcalls⟩
  | _ => exact ⟨rfl, rfl⟩

end

end PluginSet

/-- Calls, the latest first. -/
abbrev History (β : Type) := List (PluginCall β)

namespace History

def options : History β → DiscoveryOptions
  | [] => default
  | .configure options :: _ => options
  | _ :: h => History.options h

/-- What is registered in the end, beginning with `start`. -/
def source (start : EntryPoints β) : History β → EntryPoints β
  | [] => start
  | .register p :: h => (source start h).register p
  | .unregister name :: h => (source start h).unregister name
  | _ :: h => source start h

/-- The ids that were removed since the last reset. -/
def removals : History β → List String
  | [] => []
  | .remove id :: h => id :: removals h
  | .reset :: _ => []
  | _ :: h => removals h

section
variable (start : EntryPoints β) (ledger : Ledger)

def after : History β → PluginSet β
  | [] => .new start ledger
  | c :: h => (after h).call c

/-- What a pass comes to that is made after these calls. -/
def pass (h : History β) : Except Panic (Discovered β) × Ledger :=
  discover (h.source start).ofGroup h.options (h.after start ledger).ledger

/-- The calls of factories in a pass that is made after these calls, with their answers. -/
def passCalls (h : History β) : List (EntryPoint β × Produced β) :=
  Discovery.reached (Discovery.calledInTurn (h.source start).ofGroup h.options
    (h.after start ledger).ledger)

/-- Whether a pass was made that did not panic, and not discarded since. -/
def cached : History β → Bool
  | [] => false
  | c :: h => if c.passes (cached h) then (pass start ledger h).1.isOk
    else cached h && !c.discards

def lastPass : History β → Option (Except Panic (Discovered β))
  | [] => none
  | c :: h => if c.passes (cached start ledger h) then some (pass start ledger h).1 else lastPass h

/-- The pass at hand: the latest one, unless it panicked or was discarded. -/
def currentPass (h : History β) : Option (Discovered β) :=
  if h.cached start ledger then (h.lastPass start ledger).bind Except.toOption else none

end

end History

/-- An extension that was added, those of the warnings of its load that were not silenced then, and
the ids that were removed since. -/
structure Addition (β : Type) where
  extension : LoadedExtension β
  warnings : List Warning
  removedSince : List String

namespace Addition

/-- No id that was removed since is the URI of the extension. -/
def isActive (a : Addition β) : Bool :=
  decide (∀ id ∈ a.removedSince, a.extension.info.uri ≠ some id)

def remove (id : String) (a : Addition β) : Addition β :=
  { a with removedSince := id :: a.removedSince }

end Addition

namespace History

section
variable (start : EntryPoints β) (ledger : Ledger)

/-- The addition of `e` after these calls, if it loads. -/
def addition? (h : History β) (e : Extension β) : Option (Addition β) :=
  match e.load (h.after start ledger).ledger.loads none with
  | (.ok l, met) => some ⟨l, met.filter fun w => w.category ∉ h.options.silencedWarnings, []⟩
  | (.error _, _) => none

/-- What was added since the last reset, the latest first. -/
def additions : History β → List (Addition β)
  | [] => []
  | .add e :: h => (addition? start ledger h e).toList ++ additions h
  | .remove id :: h => (additions h).map (.remove id)
  | .reset :: _ => []
  | _ :: h => additions h

def active (h : History β) : List (LoadedExtension β) :=
  ((h.additions start ledger).filter Addition.isActive).map (·.extension)

end

variable {start : EntryPoints β} {ledger : Ledger}

theorem source_after (h : History β) : (h.after start ledger).source = h.source start := by
  induction h with
  | nil => rfl
  | cons c h ih =>
    rw [after, PluginSet.call_eq]
    cases c with
    | add e => exact ((after start ledger h).add_frame e).1.trans ih
    | register p => exact congrArg (·.register p) ih
    | unregister name => exact congrArg (·.unregister name) ih
    | _ => split <;> exact ih

theorem options_after (h : History β) : (h.after start ledger).options = h.options := by
  induction h with
  | nil => rfl
  | cons c h ih =>
    rw [after, PluginSet.call_eq]
    cases c with
    | add e => exact ((after start ledger h).add_frame e).2.1.trans ih
    | configure options => rfl
    | _ => split <;> exact ih

theorem refresh_after (h : History β) :
    (h.after start ledger).refresh.2.discovered = (h.pass start ledger).1.toOption ∧
      (h.after start ledger).refresh.2.ledger = (h.pass start ledger).2 := by
  rw [PluginSet.discovered_refresh, PluginSet.ledger_refresh, source_after, options_after]
  exact ⟨rfl, rfl⟩

theorem discovered_after (h : History β) :
    (h.after start ledger).discovered.isSome = h.cached start ledger ∧
      (h.after start ledger).discovered = h.currentPass start ledger := by
  induction h with
  | nil => exact ⟨rfl, rfl⟩
  | cons c h ih =>
    obtain ⟨hcached, hdiscovered⟩ := ih
    rw [currentPass] at hdiscovered ⊢
    rw [after, PluginSet.call_eq, hcached, cached, lastPass]
    cases hpasses : c.passes (cached start ledger h) with
    | true =>
      cases hpass : (pass start ledger h).1 <;>
        simp [refresh_after, hpass, Except.isOk, Except.toBool, Except.toOption]
    | false =>
      have hrecord := ((after start ledger h).record_frame c).1
      cases hdiscards : c.discards with
      | true => simp [hrecord, hdiscards]
      | false => simpa [hrecord, hdiscards] using And.intro hcached hdiscovered

theorem after_cons (c : PluginCall β) (h : History β) : after start ledger (c :: h) =
    if c.passes (h.cached start ledger) then (h.after start ledger).refresh.2
      else (h.after start ledger).record c := by
  rw [after, PluginSet.call_eq, (discovered_after h).1]

theorem pass_eq (h : History β) : h.pass start ledger =
    discover (h.after start ledger).source.ofGroup (h.after start ledger).options
      (h.after start ledger).ledger := by
  rw [source_after, options_after]
  rfl

/-- What a question is answered from. -/
theorem lastPass_extensions (h : History β) : History.lastPass start ledger (.extensions :: h) =
    some (h.after start ledger).ensure.1 := by
  obtain ⟨hsome, hdiscovered⟩ := @discovered_after β start ledger h
  rw [lastPass, PluginCall.passes, PluginSet.ensure]
  cases hcached : h.cached start ledger with
  | true =>
    rw [currentPass, hcached, if_pos rfl] at hdiscovered
    rw [hcached, hdiscovered] at hsome
    obtain ⟨d, hd⟩ := Option.isSome_iff_exists.1 hsome
    obtain ⟨r, hr, hok⟩ := Option.bind_eq_some_iff.1 hd
    rw [hdiscovered, hd]
    cases r with
    | error => cases hok
    | ok d' =>
      cases hok
      exact hr
  | false =>
    rw [hcached] at hsome
    rw [Option.isSome_eq_false_iff, Option.isNone_iff_eq_none] at hsome
    rw [hsome, pass_eq]
    rfl

theorem add_after (h : History β) (e : Extension β) :
    (addition? start ledger h e = none ∧ ∃ f, (h.after start ledger).add e =
      (.error f, h.after start ledger)) ∨
    ∃ a, addition? start ledger h e = some a ∧ a.removedSince = [] ∧
      (h.after start ledger).add e = (.ok a.extension, { h.after start ledger with
        added := a.extension :: (h.after start ledger).added
        addedWarnings := (h.after start ledger).addedWarnings.append a.warnings
        ledger := (h.after start ledger).ledger.addLoad }) := by
  unfold addition? PluginSet.add
  rcases e.load (h.after start ledger).ledger.loads none with ⟨f | l, met⟩
  · exact .inl ⟨rfl, f, rfl⟩
  · refine .inr ⟨_, rfl, rfl, ?_⟩
    simp only [options_after, Warnings.absorb, Warnings.records_silencing]

end History

end TaggedGraph
