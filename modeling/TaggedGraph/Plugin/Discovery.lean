import TaggedGraph.Plugin.EntryPoint

namespace TaggedGraph

variable {β : Type}

structure DiscoveryOptions where
  disabledPackages : List String
  silencedWarnings : List WarningCategory
deriving DecidableEq

namespace DiscoveryOptions

instance : Inhabited DiscoveryOptions := ⟨⟨[], []⟩⟩

def isDisabled (o : DiscoveryOptions) (p : EntryPoint β) : Bool :=
  match p.package with
  | some package => o.disabledPackages.contains package.name
  | none => false

end DiscoveryOptions

/-- What happened so far: the entry points whose factories were called, in order, and the serial
number of the next load. -/
structure Ledger where
  calls : List Nat
  loads : Nat
deriving DecidableEq

namespace Ledger

def empty : Ledger := ⟨[], 0⟩

def callsOf (l : Ledger) (id : Nat) : Nat :=
  l.calls.count id

def addCall (l : Ledger) (id : Nat) : Ledger :=
  { l with calls := l.calls ++ [id] }

def addLoad (l : Ledger) : Ledger :=
  { l with loads := l.loads + 1 }

end Ledger

namespace Discovery

def report (p : EntryPoint β) (message : String) : Warning :=
  ⟨.pluginDiscovery, p.describe ++ " " ++ message⟩

abbrev Item (β : Type) := EntryPoint β × PluginItem β

/-- Calls the factories of entry points that are not disabled, and reports those that fail. The
text of a returned error is not asked for under guard: if it panics, so does the pass. -/
def collectItems (options : DiscoveryOptions) (g : Group) :
    EntryPoints β → Warnings → Ledger → Except Panic (List (Item β) × Warnings) × Ledger
  | [], warnings, ledger => (.ok ([], warnings), ledger)
  | p :: r, warnings, ledger =>
    if options.isDisabled p then collectItems options g r warnings ledger
    else
      let failure (e : PluginError) :=
        match e.text with
        | .ok text =>
          collectItems options g r
            (warnings.append [report p ("failed to load (" ++ g.text ++ "): " ++ text)])
            (ledger.addCall p.id)
        | .error panic => (.error panic, ledger.addCall p.id)
      match p.factory (ledger.callsOf p.id) with
      | .items new =>
        let (rest, ledger) := collectItems options g r warnings (ledger.addCall p.id)
        (rest.map fun (items, warnings) => (new.map ((p, ·)) ++ items, warnings), ledger)
      | .failed e => failure e
      | .panicked panic => failure (.ofPanic panic)

def notConforming (p : EntryPoint β) (i : PluginItem β) (violation : String) : Warning :=
  let name := match i.describe with
    | .ok name => name
    | .error _ => "unnamed item"
  report p ("returned a non-conforming item (" ++ name ++ "): TypeError: " ++ violation)

/-- Loads the items that are extensions. Each load has a collector of its own, which the collector
of the pass absorbs. -/
def collectExtensions (options : DiscoveryOptions) :
    List (Item β) → Warnings → Ledger → List (LoadedExtension β) × Warnings × Ledger
  | [], warnings, ledger => ([], warnings, ledger)
  | (p, .extension e) :: r, warnings, ledger =>
    let (result, met) := e.load ledger.loads p.package
    let own := (Warnings.silencing options.silencedWarnings).append met
    match result with
    | .ok l =>
      let (loaded, warnings, ledger) :=
        collectExtensions options r (warnings.absorb own) ledger.addLoad
      (l :: loaded, warnings, ledger)
    | .error (.invalid error) =>
      let failure := report p ("failed to load extension: ConfigurationError: " ++ error.message)
      collectExtensions options r ((warnings.absorb own).append [failure]) ledger.addLoad
    | .error (.panicked panic) =>
      let failure := report p ("failed to load extension: " ++ (PluginError.ofPanic panic).kind ++
        ": " ++ panic.text)
      -- a panic takes the collector of the load with it
      collectExtensions options r (warnings.append [failure]) ledger.addLoad
  | (p, i) :: r, warnings, ledger =>
    collectExtensions options r
      (warnings.append [notConforming p i "Extension items must implement Extension"]) ledger

def collectMappings : List (Item β) → Warnings → List ProvidedMapping × Warnings
  | [], warnings => ([], warnings)
  | (p, .mapping m) :: r, warnings =>
    let (mappings, warnings) := collectMappings r warnings
    (⟨m, p.package⟩ :: mappings, warnings)
  | (p, i) :: r, warnings =>
    collectMappings r (warnings.append
      [notConforming p i "Resource mapping items must implement ResourceMapping"])

end Discovery

structure Discovered (β : Type) where
  extensions : List (LoadedExtension β)
  mappings : List ProvidedMapping
  warnings : Warnings

open Discovery in
def discover (source : EntryPointSource β) (options : DiscoveryOptions) (ledger : Ledger) :
    Except Panic (Discovered β) × Ledger :=
  let warnings := Warnings.silencing options.silencedWarnings
  match collectItems options .extensions (source .extensions) warnings ledger with
  | (.error panic, ledger) => (.error panic, ledger)
  | (.ok (items, warnings), ledger) =>
    let (extensions, warnings, ledger) := collectExtensions options items warnings ledger
    match collectItems options .resourceMappings (source .resourceMappings) warnings ledger with
    | (.error panic, ledger) => (.error panic, ledger)
    | (.ok (items, warnings), ledger) =>
      let (mappings, warnings) := collectMappings items warnings
      (.ok ⟨extensions, mappings, warnings⟩, ledger)

end TaggedGraph
