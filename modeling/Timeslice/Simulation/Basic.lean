import Timeslice.Kernel.Basic
import Timeslice.Scenario.Basic
import Timeslice.Services
import Timeslice.Simulation.Report

/-! # Simulations

A simulation runs the processes of a scenario tick by tick. A tick begins with one input for the
first process that waits for any, and ends by closing a running process whose program is over. A
run ends when every process has exited, when input is wanted and none is left, or at its last tick.
-/

namespace Timeslice

structure Simulation where
  maxTicks : Nat
  kernel : Kernel Services
  /-- The inputs not yet given out. -/
  inputs : List String
  /-- The durations for which input blocks the process that gets it. -/
  inputRotation : Rotation
  log : Log
  /-- All output so far. -/
  output : List Output

namespace Simulation

/-! ## The start -/

/-- Creates the process of a specification with the standard services. The rotation of each
process starts one place after that of the process before it. -/
def addProcess (range : BlockRange) (kernel : Kernel Services) (spec : ProcessSpec) (index : Nat) :
    Except SetupError (Kernel Services) := do
  let source ← spec.source
  match kernel.table.create spec.name source spec.arrivalTime spec.schedulingClass
      spec.priority with
  | (.error reason, _) => .error (.badProgram spec.name reason)
  | (.ok id, table) =>
    return { kernel with table := (table.setHandler id ⟨.of range index⟩).2 }

/-- The simulation of a scenario, with every process created. -/
def create (scenario : Scenario) : Except SetupError Simulation := do
  let start := (Kernel.empty scenario.logLevel).setQuantum scenario.quantum
  let kernel ← scenario.processes.zipIdx.foldlM
    (fun kernel entry => addProcess scenario.blockTicks kernel entry.1 entry.2) start
  return {
    maxTicks := scenario.maxTicks
    kernel
    inputs := scenario.inputs
    inputRotation := .of scenario.blockTicks 0
    log := .keeping scenario.logLevel
    output := [] }

def setQuantum (s : Simulation) (quantum : Int) : Simulation :=
  { s with kernel := s.kernel.setQuantum quantum }

def setMaxTicks (s : Simulation) (maxTicks : Nat) : Simulation := { s with maxTicks }

def now (s : Simulation) : Nat := s.kernel.now

/-! ## One tick -/

/-- The first process that waits for input and has not exited. -/
def waiting? (s : Simulation) : Option (Process Services) :=
  s.kernel.table.processes.find? fun p => !p.isExited && p.cpu.waitingForInput

/-- Why the run is over, if it is. -/
def ending? (s : Simulation) : Option Ending :=
  if s.kernel.table.isIdle then some .allExited
  else if s.inputs.isEmpty && s.waiting?.isSome then some .inputExhausted
  else if s.maxTicks ≤ s.now then some .tickLimit
  else none

/-- Gives the next input to process `id`. Input that is taken blocks the process, and may make
output; input that is refused is spent. -/
def offer (s : Simulation) (id : Pid) (input : String) : List String × Simulation :=
  match s.kernel.table.supply id input with
  | (.ok true, table) =>
    let (texts, table) := table.applyEffects id
    let (ticks, inputRotation) := s.inputRotation.next
    (texts, { s with kernel := { s.kernel with table := (table.block id ticks).2 }, inputRotation })
  | (.ok false, _) => ([], s)
  | (.error fault, _) =>
    ([], { s with
      log := s.log.add (.of .warn id s.now "input rejected" [("error", fault.message)]) })

/-- Gives one input to the first process that waits, if there are both, and tells what output
it made. -/
def deliver (s : Simulation) : List (Pid × String) × Simulation :=
  match s.waiting?, s.inputs with
  | some p, input :: inputs =>
    let (texts, s) := { s with inputs }.offer p.id input
    (texts.map fun text => (p.id, text), s)
  | _, _ => ([], s)

/-- Ends a running process that is past its last instruction, unless it waits for input. -/
def finishHalted (s : Simulation) : Simulation :=
  match s.kernel.table.running? with
  | none => s
  | some p =>
    if p.cpu.isHalted && !p.cpu.waitingForInput then
      { s with
        log := s.log.add (.of .info p.id s.now "program finished" [])
        kernel := (s.kernel.terminate p.id .normal).2 }
    else s

/-- Reports what was recorded since the last tick and clears the records. -/
def conclude (s : Simulation) (selected : Option Pid) (fromInput : List (Pid × String)) :
    TickRecord × Simulation :=
  let tick := s.now
  let events := s.kernel.scheduler.audit
  let output := (fromInput.map fun (process, text) => Output.mk tick process text)
    ++ events.filterMap fun
      | .output process text _ => some ⟨tick, process, text⟩
      | _ => none
  let logs := s.log.entries ++ s.kernel.table.log.entries ++ s.kernel.scheduler.log.entries
  ({ tick, selected, output, events, logs },
    { s with
      kernel := ⟨s.kernel.table.withoutLog, s.kernel.scheduler.withoutAudit.withoutLog⟩
      log := s.log.cleared
      output := s.output ++ output })

/-- Runs one tick. -/
def step (s : Simulation) : TickRecord × Simulation :=
  let (fromInput, s) := s.deliver
  let ((selected, _), kernel) := s.kernel.tick
  { s with kernel }.finishHalted.conclude selected fromInput

/-! ## Runs -/

def report (s : Simulation) : Report where
  ending := s.ending?.getD .tickLimit
  ticks := s.now
  processes := s.kernel.table.reports
  output := s.output

/-- Runs until the run is over, at most `limit` ticks, and folds their reports. -/
def foldTicks {σ : Type} (onTick : σ → TickRecord → σ) :
    Nat → σ → Simulation → σ × Simulation
  | 0, acc, s => (acc, s)
  | limit + 1, acc, s =>
    match s.ending? with
    | some _ => (acc, s)
    | none =>
      let (report, s) := s.step
      foldTicks onTick limit (onTick acc report) s

/-- Runs until the run is over and folds the reports of its ticks. No more ticks are run than lie
before the last one allowed. -/
def runWith {σ : Type} (onTick : σ → TickRecord → σ) (acc : σ) (s : Simulation) :
    σ × Report × Simulation :=
  let (acc, s) := foldTicks onTick (s.maxTicks - s.now) acc s
  (acc, s.report, s)

/-- Runs until the run is over and gives the reports of its ticks with that of the run. -/
def trace (s : Simulation) : List TickRecord × Report × Simulation :=
  let (ticks, report, s) := s.runWith (fun ticks tick => tick :: ticks) []
  (ticks.reverse, report, s)

def run (s : Simulation) : Report × Simulation := (s.runWith (fun _ _ => ()) ()).2

end Simulation

end Timeslice
