import Pipewright.Text.Blank
import Pipewright.Text.Pieces
import Pipewright.Text.Quoted
import Pipewright.Disk.Lemmas
import Pipewright.Document.Parse
import Pipewright.Graph.Reach
import Pipewright.Graph.Visit
import Pipewright.Json.Decoder
import Pipewright.Kernel.Listing
import Pipewright.ProcessModule
import Pipewright.Composition
import Pipewright.Diagnostics
import Pipewright.Project.Generate
import Pipewright.Run.Checkpoint
import Pipewright.Run.Registry
import Pipewright.Main
import Pipewright.Proofs.Graph.Circle
import Pipewright.Proofs.Graph.Loop
import Pipewright.Proofs.Plan.Arrangement
import Pipewright.Proofs.Diagnostics.Collisions
import Pipewright.Proofs.CommandLine.Looking
import Pipewright.Proofs.Project.Agreement
import Pipewright.Proofs.Json.Reads
import Pipewright.Proofs.Json.Scalars
import Pipewright.Proofs.Json.Shapes
import Pipewright.Proofs.Document.RoundTrip
import Pipewright.Proofs.Disk.Places
import Pipewright.Proofs.Project.EntryFiles
import Pipewright.Proofs.Project.OwnPlaces
import Pipewright.Proofs.Disk.Outside
import Pipewright.Proofs.Disk.Copying
import Pipewright.Proofs.Alike
import Pipewright.Proofs.Project.Scaffolding
import Pipewright.Proofs.Project.SideBySide
import Pipewright.Proofs.Project.Conversions
import Pipewright.Proofs.Project.Requests
import Pipewright.Proofs.Run.Duplicates
import Pipewright.Proofs.CommandLine.Running
import Pipewright.Proofs.Graph.Recursion
import Pipewright.Proofs.Graph.Work
import Pipewright.Proofs.Composition.Slots
import Pipewright.Proofs.Composition.Parameters
import Pipewright.Proofs.Diagnostics.Reports
import Pipewright.Proofs.Project.Runtimes
import Pipewright.Proofs.Project.Parameters
import Pipewright.Proofs.Step.Offers
import Pipewright.Proofs.Diagnostics.Ambiguities
import Pipewright.Proofs.Composition.Grammar
import Pipewright.Proofs.Composition.Filling
import Pipewright.Proofs.Composition.Growth
import Pipewright.Proofs.Step.Spelling
import Pipewright.Proofs.Graph.Adjacency
import Pipewright.Proofs.Document.Identity
import Pipewright.Proofs.Document.Leniency
import Pipewright.Proofs.Kernel.Reuse
import Pipewright.Proofs.Kernel.Environments
import Pipewright.Proofs.Run.Bookkeeping
import Pipewright.Proofs.Run.AsReceived
import Pipewright.Proofs.Project.Rejections
import Pipewright.Proofs.Shell.Words
import Pipewright.Proofs.Process.Declarations
import Pipewright.Proofs.Process.Commands
import Pipewright.Proofs.Project.Sources
import Pipewright.Proofs.Disk.Overlays
import Pipewright.Proofs.Project.Templates
import Pipewright.Proofs.Graph.Ordered
import Pipewright.Proofs.Graph.Coherence
