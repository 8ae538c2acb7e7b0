import FlowFold.Expectation
import FlowFold.Machine
import FlowFold.Main
import FlowFold.Proofs.Effort
import FlowFold.Proofs.Idempotence
import FlowFold.Proofs.Pipeline
import FlowFold.Proofs.Unassigned
import FlowFold.Proofs.Rebuilding
import FlowFold.Proofs.Schedules
import FlowFold.Proofs.Readable
import FlowFold.Proofs.Listing
import FlowFold.Proofs.Quoting
import FlowFold.Proofs.Digraph
import FlowFold.Proofs.Exactness
import FlowFold.Proofs.Connections
import FlowFold.Proofs.DeadJoins
import FlowFold.Proofs.StepLimit
import FlowFold.Proofs.Merging
import FlowFold.Proofs.Printed
import FlowFold.Proofs.Regrouping
import FlowFold.Proofs.Findings
import FlowFold.Proofs.Pruning
