import UnionBridge.CommandLine.Disk
import UnionBridge.Compile.Log
import UnionBridge.Datum.Merge
import UnionBridge.Main
import UnionBridge.Session.Basic
import UnionBridge.Text.Json
import UnionBridge.Proofs.Execution.Effects
import UnionBridge.Proofs.Mapping.Resolution
import UnionBridge.Proofs.Schema.RoundTrip
import UnionBridge.Proofs.Execution.Bridges
import UnionBridge.Proofs.Execution.Converters
import UnionBridge.Proofs.Execution.Nesting
import UnionBridge.Proofs.Execution.Added
import UnionBridge.Proofs.Execution.Mirrored
import UnionBridge.Proofs.Execution.Routing
import UnionBridge.Proofs.Planning
import UnionBridge.Proofs.Schema.Progress
import UnionBridge.Proofs.Execution.Statements
import UnionBridge.Proofs.Execution.Importable
import UnionBridge.Proofs.Execution.Leftovers
import UnionBridge.Proofs.Schema.Moved
import UnionBridge.Proofs.Mapping.Unplaced
import UnionBridge.Proofs.Padding
import UnionBridge.Proofs.CommandLine.Report
import UnionBridge.Proofs.Execution.Gathered
import UnionBridge.Proofs.Execution.Capture
import UnionBridge.Proofs.Mapping.Ambiguity
import UnionBridge.Proofs.Schema.Places
import UnionBridge.Proofs.Schema.Viable
import UnionBridge.Proofs.Execution.Arrival
import UnionBridge.Proofs.Execution.Unaffected
import UnionBridge.Proofs.Datum.Merge
import UnionBridge.Proofs.Module.Blocks
import UnionBridge.Proofs.Module.Supplied
import UnionBridge.Proofs.Execution.Variants
import UnionBridge.Proofs.Datum.Refusal
import UnionBridge.Proofs.Mapping.Checking
import UnionBridge.Proofs.Module.Agreement
import UnionBridge.Proofs.Schema.Repeats
import UnionBridge.Proofs.Module.Numbering
import UnionBridge.Proofs.World.History
import UnionBridge.Proofs.World.Fallible
import UnionBridge.Proofs.Execution.Insulated
import UnionBridge.Proofs.Execution.Isolated
