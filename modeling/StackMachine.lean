import StackMachine.Datum
import StackMachine.Engine.Command
import StackMachine.Main
import StackMachine.Proofs.Coupling
import StackMachine.Proofs.Tracing
import StackMachine.Proofs.Contract
import StackMachine.Proofs.Reference
import StackMachine.Proofs.Reachable
import StackMachine.Proofs.Bracketing
import StackMachine.Proofs.StackCoupling
import StackMachine.Proofs.Capacities
import StackMachine.Proofs.Framing
import StackMachine.Proofs.Footprint
import StackMachine.Proofs.Endings
import StackMachine.Proofs.LastInstruction
import StackMachine.Proofs.Log
import StackMachine.Proofs.RoundTrip
import StackMachine.Proofs.Launches
import StackMachine.Proofs.Diagnostics
import StackMachine.Proofs.Progress
import StackMachine.Proofs.Transcript
import StackMachine.Proofs.Rationing
import StackMachine.Proofs.FixedWidth
import StackMachine.Proofs.TraceCut
import StackMachine.Proofs.OutputCut
import StackMachine.Proofs.ForwardJumps
import StackMachine.Proofs.Addresses
import StackMachine.Proofs.GivenCapacities
import StackMachine.Proofs.Residue
import StackMachine.Proofs.SlotHistory
import StackMachine.Proofs.Wrapping
import StackMachine.Proofs.Congruence
import StackMachine.Proofs.StraightLine
import StackMachine.Proofs.Summation
import StackMachine.Proofs.Streaming
import StackMachine.Proofs.Stepping
import StackMachine.Proofs.Arrangement
import StackMachine.Proofs.Digits
import StackMachine.Proofs.CapacityGrammar
import StackMachine.Proofs.Dumps
import StackMachine.Proofs.Blocks
