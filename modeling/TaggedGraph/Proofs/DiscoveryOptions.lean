import TaggedGraph.Proofs.Discovery
import TaggedGraph.Settings.Config

namespace TaggedGraph

variable {β : Type}

def EntryPointSource.without (source : EntryPointSource β) (packages : List String) :
    EntryPointSource β :=
  fun g => (source g).filter fun p => p.package.all fun package => package.name ∉ packages

@[simp] theorem EntryPointSource.without_nil (source : EntryPointSource β) :
    source.without [] = source := by
  funext g
  refine List.filter_eq_self.2 fun p _ => ?_
  cases p.package <;> simp

theorem EntryPointSource.filter_isNone_without (source : EntryPointSource β)
    (packages : List String) (g : Group) :
    ((source.without packages) g).filter (fun p => p.package.isNone) =
      (source g).filter fun p => p.package.isNone := by
  rw [without, List.filter_filter]
  refine List.filter_congr fun p _ => ?_
  cases p.package <;> simp

@[simp] theorem DiscoveryOptions.disabledPackages_default :
    (default : DiscoveryOptions).disabledPackages = [] :=
  rfl

@[simp] theorem DiscoveryOptions.silencedWarnings_default :
    (default : DiscoveryOptions).silencedWarnings = [] :=
  rfl

theorem Warnings.records_silencing (silenced : List WarningCategory) (l : List Warning) :
    ((silencing silenced).append l).records = l.filter fun w => w.category ∉ silenced := by
  simp [append, keep, isSilenced, silencing]

namespace Discovery

variable (source : EntryPointSource β) (options : DiscoveryOptions) (ledger : Ledger)

theorem enabled_eq_without (g : Group) :
    enabled options (source g) = (source.without options.disabledPackages) g := by
  refine List.filter_congr fun p _ => ?_
  unfold DiscoveryOptions.isDisabled
  cases p.package <;> simp

theorem called_eq_without (g : Group) : called source options ledger g =
    called (source.without options.disabledPackages) default ledger g := by
  cases g <;> simp [called, enabled_eq_without]

theorem calledInTurn_eq_without : calledInTurn source options ledger =
    calledInTurn (source.without options.disabledPackages) default ledger := by
  rw [calledInTurn, calledInTurn, called_eq_without source options ledger .extensions,
    called_eq_without source options ledger .resourceMappings]

theorem itemsIn_eq_without (g : Group) : itemsIn source options ledger g =
    itemsIn (source.without options.disabledPackages) default ledger g := by
  rw [itemsIn, itemsIn, called_eq_without]

end Discovery

open Discovery

/-- The run finds and does what the other one does, and drops some of its warnings. One panics iff
the other one does. -/
structure Silences (silenced : List WarningCategory)
    (run plain : Except Panic (Discovered β) × Ledger) : Prop where
  extensions : run.1.map (·.extensions) = plain.1.map (·.extensions)
  mappings : run.1.map (·.mappings) = plain.1.map (·.mappings)
  ledger : run.2 = plain.2
  warnings : run.1.map (·.warnings.records) =
    plain.1.map fun d => d.warnings.records.filter fun w => w.category ∉ silenced

section
variable (source : EntryPointSource β) (options : DiscoveryOptions) (ledger : Ledger)

theorem warnings_found : (found source options ledger).warnings.records =
    (found (source.without options.disabledPackages) default ledger).warnings.records.filter
      fun w => w.category ∉ options.silencedWarnings := by
  simp only [found, called_eq_without source options, itemsIn_eq_without source options,
    Warnings.records_silencing]
  simp

theorem silences_discover : Silences options.silencedWarnings (discover source options ledger)
    (discover (source.without options.disabledPackages) default ledger) := by
  have hfound := warnings_found source options ledger
  have hcalled := calledInTurn_eq_without source options ledger
  have hitems := itemsIn_eq_without source options ledger
  rw [discover_eq, discover_eq, hcalled, called_eq_without source options, hitems]
  cases firstFatal? (calledInTurn (source.without options.disabledPackages) default ledger) with
  | some panic => exact ⟨rfl, rfl, rfl, rfl⟩
  | none =>
    refine ⟨congrArg Except.ok ?_, congrArg Except.ok ?_, rfl, congrArg Except.ok hfound⟩
    · simp only [found, hitems]
    · simp only [found, hitems]

/-- A pass that comes to its end calls every factory that is not disabled. -/
theorem calls_discover {d : Discovered β} (hd : (discover source options ledger).1 = .ok d) :
    (discover source options ledger).2.calls =
      ledger.calls ++ (enabled options (source .extensions)).map (·.id) ++
        (enabled options (source .resourceMappings)).map (·.id) := by
  obtain ⟨hfatal, -⟩ := discover_eq_ok_iff.1 hd
  rw [discover_eq, reached_eq_self hfatal, calledInTurn, List.map_append, called_map_id,
    called_map_id, List.append_assoc]

end

/-- Discovery with options is discovery without options of what is not disabled: the same
extensions and mappings and the same calls of factories, and of the warnings those that are not
silenced. That holds for the options of a configuration as well, and what belongs to no package is
never disabled. -/
theorem discover_filters (source : EntryPointSource β) (ledger : Ledger) :
    (∀ options, Silences options.silencedWarnings (discover source options ledger)
        (discover (source.without options.disabledPackages) default ledger) ∧
      ∀ d, (discover source options ledger).1 = .ok d →
        (discover source options ledger).2.calls = ledger.calls ++
          ((source.without options.disabledPackages) .extensions).map (·.id) ++
          ((source.without options.disabledPackages) .resourceMappings).map (·.id)) ∧
    (∀ c : Config, Silences c.silence (c.discover source ledger)
      (discover (source.without c.disabledPackages) default ledger)) ∧
    ∀ packages g, ((source.without packages) g).filter (fun p => p.package.isNone) =
      (source g).filter fun p => p.package.isNone := by
  refine ⟨fun options => ⟨silences_discover source options ledger, fun d hd => ?_⟩,
    fun c => silences_discover source c.discoveryOptions ledger,
    fun packages g => source.filter_isNone_without packages g⟩
  rw [calls_discover source options ledger hd, enabled_eq_without, enabled_eq_without]

end TaggedGraph
