import TaggedGraph.Conversion.Load
import TaggedGraph.Conversion.Save
import TaggedGraph.Object.Equality
import TaggedGraph.Object.Json
import TaggedGraph.Node.Json
import TaggedGraph.Plugin.Set
import TaggedGraph.Settings.Config
import TaggedGraph.Traversal
import TaggedGraph.Proofs.Preorder
import TaggedGraph.Proofs.Forall2
import TaggedGraph.Proofs.Load.Step
import TaggedGraph.Proofs.Load.Program
import TaggedGraph.Proofs.Load.Tracks
import TaggedGraph.Proofs.Load.Simulation
import TaggedGraph.Proofs.Load.Containers
import TaggedGraph.Proofs.Load.Slots
import TaggedGraph.Proofs.Load.Finish
import TaggedGraph.Proofs.Load.Leaks
import TaggedGraph.Proofs.Load.Answers
import TaggedGraph.Proofs.Load.Results
import TaggedGraph.Proofs.Save.Step
import TaggedGraph.Proofs.Save.Tracks
import TaggedGraph.Proofs.Save.Program
import TaggedGraph.Proofs.Save.Simulation
import TaggedGraph.Proofs.Save.Nodes
import TaggedGraph.Proofs.Save.Copies
import TaggedGraph.Proofs.Save.Finished
import TaggedGraph.Proofs.Save.Faithful
import TaggedGraph.Proofs.Save.Sharing
import TaggedGraph.Proofs.RoundTrip.Instances
import TaggedGraph.Proofs.RoundTrip.LoadSound
import TaggedGraph.Proofs.RoundTrip.LoadSucceeds
import TaggedGraph.Proofs.RoundTrip.Mirrors
import TaggedGraph.Proofs.Isomorphic
import TaggedGraph.Proofs.RoundTrip.SaveSucceeds
import TaggedGraph.Proofs.RoundTrip.Saved
import TaggedGraph.Proofs.RoundTrip.Isomorphism
import TaggedGraph.Proofs.Load.Failure
import TaggedGraph.Proofs.Postorder
import TaggedGraph.Proofs.Load.Calls
import TaggedGraph.Proofs.Load.Agreement
import TaggedGraph.Proofs.FirstOfEach
import TaggedGraph.Proofs.Load.Unresolved
import TaggedGraph.Proofs.RoundTrip.Upholds
import TaggedGraph.Proofs.Alike
import TaggedGraph.Proofs.Reachable
import TaggedGraph.Proofs.RoundTrip.Restores
import TaggedGraph.Proofs.RoundTrip.Rendered
import TaggedGraph.Proofs.RoundTrip.Written
import TaggedGraph.Proofs.RoundTrip.Reloaded
import TaggedGraph.Proofs.RoundTrip.Objects
import TaggedGraph.Proofs.Bisimilar
import TaggedGraph.Proofs.Equality
import TaggedGraph.Proofs.Loaded
import TaggedGraph.Proofs.Lookup
import TaggedGraph.Proofs.Discovery
import TaggedGraph.Proofs.DiscoveryOptions
import TaggedGraph.Proofs.Plugin.History
import TaggedGraph.Proofs.Plugin.Passes
import TaggedGraph.Proofs.Plugin.Serials
import TaggedGraph.Proofs.Plugin.Active
import TaggedGraph.Proofs.Json.Encoders
import TaggedGraph.Proofs.Load.Unconverted
import TaggedGraph.Proofs.Json.Adding
import TaggedGraph.Proofs.Json.NodeTrees
import TaggedGraph.Proofs.Json.ObjectTrees
import TaggedGraph.Proofs.Json.Converted
import TaggedGraph.Proofs.Json.Pipeline
import TaggedGraph.Proofs.Tag.Matching
import TaggedGraph.Proofs.Validation
import TaggedGraph.Proofs.Json.Guarded
import TaggedGraph.Proofs.Json.Inverse
import TaggedGraph.Proofs.Load.Depth
import TaggedGraph.Proofs.Save.Depth
import TaggedGraph.Proofs.Termination
import TaggedGraph.Proofs.Tag.Grammar
import TaggedGraph.Proofs.Tag.Parts
import TaggedGraph.Proofs.Unfolding
import TaggedGraph.Proofs.Inspect
import TaggedGraph.Proofs.TypeLookup
import TaggedGraph.Proofs.Save.ByType
import TaggedGraph.Proofs.Resource
