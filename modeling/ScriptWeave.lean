import ScriptWeave.Graph.Outline
import ScriptWeave.Main
import ScriptWeave.Proofs.Emit.RoundTrip
import ScriptWeave.Proofs.Pipeline.DependencyLists
import ScriptWeave.Proofs.Resolve.Precedence
import ScriptWeave.Resolve.Outline
import ScriptWeave.Script.Outline
import ScriptWeave.Web.Flight
import ScriptWeave.Proofs.Pipeline.Execution
import ScriptWeave.Proofs.Pipeline.Endings
import ScriptWeave.Proofs.Pipeline.Schedule
import ScriptWeave.Proofs.Resolve.Tables
import ScriptWeave.Proofs.Graph.Agreement
import ScriptWeave.Proofs.Pipeline.FileOrder
import ScriptWeave.Proofs.Emit.Bindings
import ScriptWeave.Proofs.Cycle.EdgeSums
import ScriptWeave.Proofs.Pipeline.Collisions
import ScriptWeave.Proofs.Pipeline.EdgeWeights
import ScriptWeave.Proofs.Resolve.Visibility
import ScriptWeave.Proofs.Command.FailedRuns
import ScriptWeave.Proofs.Resolve.LocalScope
import ScriptWeave.Proofs.Web.Sequence
import ScriptWeave.Proofs.Web.Transparency
import ScriptWeave.Proofs.Emit.Initialisers
import ScriptWeave.Proofs.Emit.Receiver
import ScriptWeave.Proofs.Pipeline.Hygiene
import ScriptWeave.Proofs.Pipeline.Superclasses
import ScriptWeave.Proofs.Resolve.Unrelated
import ScriptWeave.Proofs.Resolve.SourceOrder
import ScriptWeave.Proofs.Pipeline.Cancellation
import ScriptWeave.Proofs.Script.Names
import ScriptWeave.Proofs.Script.Unplaced
import ScriptWeave.Proofs.Script.Standing
import ScriptWeave.Proofs.Script.Mismatches
import ScriptWeave.Proofs.Digest.SourceSets
import ScriptWeave.Proofs.Disk.Overlap
import ScriptWeave.Proofs.Build.Writing
import ScriptWeave.Proofs.Emit.Literals
import ScriptWeave.Proofs.Module.LastRegistration
import ScriptWeave.Proofs.Emit.QualifiedNames
import ScriptWeave.Proofs.Project.Listing
import ScriptWeave.Proofs.Web.Route
import ScriptWeave.Proofs.Command.Directories
import ScriptWeave.Proofs.Web.Modules
