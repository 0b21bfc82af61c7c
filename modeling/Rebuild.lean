import Rebuild.Build.Crew
import Rebuild.Build.Run
import Rebuild.Digest
import Rebuild.Encoding.Field
import Rebuild.Main
import Rebuild.Plan.Session
import Rebuild.Worker.Pipe
import Rebuild.Worker.Traffic
import Rebuild.Proofs.Containers
import Rebuild.Proofs.Graph.Basic
import Rebuild.Proofs.Graph.Closure
import Rebuild.Proofs.Graph.Components
import Rebuild.Proofs.Partition
import Rebuild.Proofs.Plan.Grouping
import Rebuild.Proofs.Changes
import Rebuild.Proofs.Plan.Claims
import Rebuild.Proofs.Plan.Impact
import Rebuild.Proofs.Plan.Selection
import Rebuild.Proofs.Plan.Order
import Rebuild.Proofs.Analysis
import Rebuild.Proofs.Plan.Merge
import Rebuild.Proofs.Plan.Idempotence
import Rebuild.Proofs.Plan.Deletion
import Rebuild.Proofs.Plan.Coverage
import Rebuild.Proofs.Plan.Purge
import Rebuild.Proofs.Plan.Retry
import Rebuild.Proofs.Plan.Isolation
import Rebuild.Proofs.Plan.Appearance
import Rebuild.Proofs.Build.Dependencies
import Rebuild.Proofs.Analysis.Damage
import Rebuild.Proofs.Analysis.Store
import Rebuild.Proofs.Machine.FileTree
import Rebuild.Proofs.Machine.FileTree.Run
import Rebuild.Proofs.Analysis.Store.Run
import Rebuild.Proofs.Worker.Change
import Rebuild.Proofs.Worker.Traffic
import Rebuild.Proofs.Worker.Queue
import Rebuild.Proofs.Worker.Staff
import Rebuild.Proofs.Worker.Progress
import Rebuild.Proofs.Worker.Cancellation
import Rebuild.Proofs.Worker.PoolRun
import Rebuild.Proofs.Worker.Closing
import Rebuild.Proofs.Worker.Message
import Rebuild.Proofs.Worker.Frame
import Rebuild.Proofs.Worker.Dialogue
import Rebuild.Proofs.Graph.Build
import Rebuild.Proofs.Graph.Cycles
import Rebuild.Proofs.Machine.Discovery
import Rebuild.Proofs.Numeral
import Rebuild.Proofs.Plan.Naming
import Rebuild.Proofs.Worker.Admission
import Rebuild.Proofs.Worker.Serve
import Rebuild.Proofs.Plan.Together
import Rebuild.Proofs.Plan.Outputs
import Rebuild.Proofs.Plan.Unrecorded
import Rebuild.Proofs.Toolchain.Payload
import Rebuild.Proofs.Toolchain.Manifest.RoundTrip
import Rebuild.Proofs.Roots.Resolution
import Rebuild.Proofs.Toolchain.Compile
import Rebuild.Proofs.Build.Compile
import Rebuild.Proofs.Config.Environment
import Rebuild.Proofs.Config.Keys
import Rebuild.Proofs.Analysis.Edits
import Rebuild.Proofs.Machine.Naming
import Rebuild.Proofs.Worker.CommandLine
import Rebuild.Proofs.Worker.Action
import Rebuild.Proofs.Graph.Dependents
import Rebuild.Proofs.Log.Gate
import Rebuild.Proofs.Checksum.Serial
import Rebuild.Proofs.Encoding.Moves
import Rebuild.Proofs.Partition.Run
import Rebuild.Proofs.Changes.Exact
import Rebuild.Proofs.Machine.Survey
