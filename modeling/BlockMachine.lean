import BlockMachine.Code.Listing
import BlockMachine.Json.Printer
import BlockMachine.Main
import BlockMachine.Proofs.Turn.Ending
import BlockMachine.Proofs.Turn.Waiting
import BlockMachine.Proofs.Machine.Once
import BlockMachine.Proofs.Machine.Errors
import BlockMachine.Proofs.Machine.Receivers
import BlockMachine.Proofs.Machine.ListLimit
import BlockMachine.Proofs.Machine.Monitors
import BlockMachine.Proofs.Machine.Owners
import BlockMachine.Proofs.Machine.References
import BlockMachine.Proofs.Turn.Rejection
import BlockMachine.Proofs.Turn.Branches
import BlockMachine.Proofs.Script.Literals
import BlockMachine.Proofs.Sheet.Scripts
import BlockMachine.Proofs.Code.Memo
import BlockMachine.Proofs.Code.Collected
import BlockMachine.Proofs.Machine.Flag
import BlockMachine.Proofs.Value.Compare
import BlockMachine.Proofs.Number.Bounds
import BlockMachine.Proofs.Machine.Placement
import BlockMachine.Proofs.Stopwatch
