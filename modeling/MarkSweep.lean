import MarkSweep.Main
import MarkSweep.Proofs.Heap.Inventory
import MarkSweep.Proofs.Machine.Trimming
import MarkSweep.Proofs.Machine.PolicyIndependence
import MarkSweep.Proofs.Machine.Exhaustion
import MarkSweep.Proofs.Machine.Footprint
import MarkSweep.Proofs.Machine.Amortization
import MarkSweep.Proofs.StaleHandles
import MarkSweep.Proofs.Heap.Recursion
import MarkSweep.Proofs.Heap.Exposure
import MarkSweep.Proofs.Heap.Filtering
import MarkSweep.Proofs.Machine.Triggers
import MarkSweep.Proofs.Machine.Grants
import MarkSweep.Proofs.Machine.Preconditions
import MarkSweep.Proofs.Machine.Immutability
import MarkSweep.Proofs.Heap.Tenancy
import MarkSweep.Proofs.CommandLine.ExitStatus
import MarkSweep.Proofs.Unfolding.Rendering
import MarkSweep.Proofs.Machine.Repetition
import MarkSweep.Proofs.Machine.Chronicle
import MarkSweep.Proofs.Machine.Bookkeeping
import MarkSweep.Proofs.Machine.Dump
