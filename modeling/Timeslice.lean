import Timeslice.Describe
import Timeslice.Main
import Timeslice.Scenario.FileTree
import Timeslice.Script
import Timeslice.Proofs.CommandLine.Groups
import Timeslice.Proofs.CommandLine.Overrides
import Timeslice.Proofs.Json.Documents
import Timeslice.Proofs.Kernel.Accounting
import Timeslice.Proofs.Kernel.Containment
import Timeslice.Proofs.Kernel.CreationOrder
import Timeslice.Proofs.Kernel.Effects
import Timeslice.Proofs.Kernel.Lifecycle
import Timeslice.Proofs.Kernel.Monopoly
import Timeslice.Proofs.Kernel.Punctuality
import Timeslice.Proofs.Kernel.Quantum
import Timeslice.Proofs.Kernel.Rejection
import Timeslice.Proofs.Kernel.Repetition
import Timeslice.Proofs.Machine.Data
import Timeslice.Proofs.Machine.Integers
import Timeslice.Proofs.Machine.Layout
import Timeslice.Proofs.Machine.Printing
import Timeslice.Proofs.Machine.ProgramCounter
import Timeslice.Proofs.Machine.Resumption
import Timeslice.Proofs.Rotation
import Timeslice.Proofs.Scenario.Decoding
import Timeslice.Proofs.Simulation.Audit
import Timeslice.Proofs.Simulation.Diagnostics
import Timeslice.Proofs.Simulation.Exits
import Timeslice.Proofs.Simulation.Input
import Timeslice.Proofs.Simulation.Isolation
import Timeslice.Proofs.Simulation.Limits
import Timeslice.Proofs.Simulation.Trail
import Timeslice.Proofs.Simulation.Usage
