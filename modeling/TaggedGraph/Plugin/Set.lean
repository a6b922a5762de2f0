import TaggedGraph.Plugin.Discovery
import TaggedGraph.Registry

namespace TaggedGraph

variable {β : Type}

/-- The added extensions are in order, newest first. An id in `removed` hides discovered
extensions. -/
structure PluginSet (β : Type) where
  source : EntryPoints β
  options : DiscoveryOptions
  discovered : Option (Discovered β)
  added : List (LoadedExtension β)
  removed : List String
  addedWarnings : Warnings
  ledger : Ledger

namespace PluginSet

def new (source : EntryPoints β) (ledger : Ledger) : PluginSet β :=
  ⟨source, default, none, [], [], ∅, ledger⟩

/-- Discards what was discovered. -/
def configure (s : PluginSet β) (options : DiscoveryOptions) : PluginSet β :=
  { s with options, discovered := none }

/-- Makes a discovery pass. After one that panics nothing is discovered. -/
def refresh (s : PluginSet β) : Except Panic Unit × PluginSet β :=
  let (d, ledger) := discover s.source.ofGroup s.options s.ledger
  (d.map fun _ => (), { s with discovered := d.toOption, ledger })

def ensure (s : PluginSet β) : Except Panic (Discovered β) × PluginSet β :=
  match s.discovered with
  | some d => (.ok d, s)
  | none =>
    let (d, ledger) := discover s.source.ofGroup s.options s.ledger
    (d, { s with discovered := d.toOption, ledger })

def isRemoved (s : PluginSet β) (e : LoadedExtension β) : Bool :=
  s.removed.any fun id => e.isIdentifiedBy id

def extensions (s : PluginSet β) : Except Panic (List (LoadedExtension β)) × PluginSet β :=
  let (d, s) := s.ensure
  (d.map fun d => s.added ++ d.extensions.filter fun e => !s.isRemoved e, s)

def mappings (s : PluginSet β) : Except Panic (List ProvidedMapping) × PluginSet β :=
  let (d, s) := s.ensure
  (d.map (·.mappings), s)

def resources (s : PluginSet β) : Except Panic ResourceManager × PluginSet β :=
  let (ms, s) := s.mappings
  (ms.map fun ms => ⟨ms⟩, s)

def registry (s : PluginSet β) : Except Panic (Registry β) × PluginSet β :=
  let (es, s) := s.extensions
  (es.map .ofExtensions, s)

/-- Adds an extension that belongs to no package. One that does not load changes nothing. -/
def add (s : PluginSet β) (e : Extension β) :
    Except LoadFailure (LoadedExtension β) × PluginSet β :=
  match e.load s.ledger.loads none with
  | (.error f, _) => (.error f, s)
  | (.ok l, met) =>
    let own := (Warnings.silencing s.options.silencedWarnings).append met
    (.ok l, { s with
      added := l :: s.added
      addedWarnings := s.addedWarnings.absorb own
      ledger := s.ledger.addLoad })

def remove (s : PluginSet β) (id : String) : PluginSet β :=
  { s with
    added := s.added.filter fun e => !e.isIdentifiedBy id
    removed := if id ∈ s.removed then s.removed else s.removed ++ [id] }

def reset (s : PluginSet β) : PluginSet β :=
  { s with added := [], removed := [], addedWarnings := ∅ }

/-- The warnings of the last discovery and of the additions since. -/
def warnings (s : PluginSet β) : List Warning :=
  (s.discovered.map (·.warnings.records)).getD [] ++ s.addedWarnings.records

def register (s : PluginSet β) (p : EntryPoint β) : PluginSet β :=
  { s with source := s.source.register p }

def unregister (s : PluginSet β) (name : String) : PluginSet β :=
  { s with source := s.source.unregister name }

end PluginSet

end TaggedGraph
