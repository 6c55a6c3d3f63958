import Timeslice.Machine.Cpu
import Timeslice.Process.Attributes
import Timeslice.Process.Urgency

/-! # Processes

A process owns a processor. The changes of its state that time brings are made by `elapse`, once
for each tick; blocking and exit come from outside.
-/

namespace Timeslice

structure Process (H : Type) where
  id : Pid
  name : String
  /-- The text of the program. -/
  source : String
  arrivalTime : Nat
  schedulingClass : SchedulingClass
  priority : Priority
  state : ProcessState
  cpu : Cpu H
  /-- The tick that ends the last block. -/
  blockEnd : Nat
  /-- What is left of the quantum of the last dispatch. -/
  quantumLeft : Int
  /-- Ticks charged while running. -/
  executionTime : Nat
  /-- Ticks charged while ready. -/
  waitingTime : Nat

/-- A process as it is reported. -/
structure ProcessReport where
  id : Pid
  name : String
  schedulingClass : SchedulingClass
  priority : Priority
  state : ProcessState
  arrivalTime : Nat
  executionTime : Nat
  waitingTime : Nat
  quantumLeft : Int
  blockEnd : Nat
  accumulator : Int32
  programCounter : Nat
  deriving DecidableEq

namespace ProcessReport

def codec : Codec ProcessReport where
  encode p := .record [
    ("id", Pid.codec.encode p.id),
    ("name", Codec.text.encode p.name),
    ("class", SchedulingClass.codec.encode p.schedulingClass),
    ("priority", Priority.codec.encode p.priority),
    ("state", ProcessState.codec.encode p.state),
    ("arrival_time", Codec.word.encode p.arrivalTime),
    ("execution_time", Codec.word.encode p.executionTime),
    ("waiting_time", Codec.word.encode p.waitingTime),
    ("quantum_left", Codec.int64.encode p.quantumLeft),
    ("block_end_time", Codec.word.encode p.blockEnd),
    ("accumulator", Codec.int32.encode p.accumulator),
    ("program_counter", Codec.word.encode p.programCounter)]
  decode json := do
    let record ← Record.of? ["id", "name", "class", "priority", "state", "arrival_time",
      "execution_time", "waiting_time", "quantum_left", "block_end_time", "accumulator",
      "program_counter"] json
    return {
      id := ← record.required "id" Pid.codec
      name := ← record.required "name" .text
      schedulingClass := ← record.required "class" SchedulingClass.codec
      priority := ← record.required "priority" Priority.codec
      state := ← record.required "state" ProcessState.codec
      arrivalTime := ← record.required "arrival_time" .word
      executionTime := ← record.required "execution_time" .word
      waitingTime := ← record.required "waiting_time" .word
      quantumLeft := ← record.required "quantum_left" .int64
      blockEnd := ← record.required "block_end_time" .word
      accumulator := ← record.required "accumulator" .int32
      programCounter := ← record.required "program_counter" .word }

end ProcessReport

namespace Process

variable {H : Type}

/-- The quantum of a best-effort dispatch, which no run uses up. -/
def unboundedQuantum : Int := Word.largest64

/-- The least quantum, which stays as it is when it is charged. -/
def leastQuantum : Int := Word.least64

/-- A new process for the program of a text. -/
def create (id : Pid) (name source : String) (arrivalTime : Nat)
    (schedulingClass : SchedulingClass) (priority : Priority) :
    Except LoadError (Process H) := do
  let program ← Program.parse source
  return {
    id, name, source, arrivalTime, schedulingClass, priority
    state := .new
    cpu := .load program
    blockEnd := 0
    quantumLeft := 0
    executionTime := 0
    waitingTime := 0 }

def isRealtime (p : Process H) : Bool := p.schedulingClass.isRealtime

def isReady (p : Process H) : Bool := p.state = .ready

def isRunning (p : Process H) : Bool := p.state = .running

def isExited (p : Process H) : Bool := p.state.isTerminal

/-- Whether a new process has its time of arrival behind it. -/
def arrives (p : Process H) (now : Nat) : Bool := p.state = .new && p.arrivalTime ≤ now

/-- Whether a blocked process has the end of its block behind it. -/
def wakes (p : Process H) (now : Nat) : Bool := p.state = .blocked && p.blockEnd ≤ now

def wake (p : Process H) : Process H :=
  { p with state := .ready, cpu := { p.cpu with blocked := false } }

/-- Charges one tick to the counter of the state. -/
def charge (p : Process H) : Process H :=
  match p.state with
  | .ready => { p with waitingTime := p.waitingTime + 1 }
  | .running =>
    { p with
      executionTime := p.executionTime + 1
      quantumLeft := max (p.quantumLeft - 1) leastQuantum }
  | _ => p

/-- The process after the tick that sets the clock to `now`. A process that arrives or wakes up is
charged as ready. -/
def elapse (p : Process H) (now : Nat) : Process H :=
  (if p.arrives now then { p with state := .ready }
    else if p.wakes now then p.wake
    else p).charge

/-- The process blocked at `now` for `duration` ticks. -/
def block (p : Process H) (now duration : Nat) : Process H :=
  { p with
    state := .blocked
    blockEnd := Word.add now duration
    cpu := { p.cpu with blocked := true, blockTime := duration } }

def terminate (p : Process H) : Process H :=
  { p with state := .exit, cpu := { p.cpu with running := false } }

/-- The process on the processor with a fresh quantum. -/
def dispatch (p : Process H) (quantum : Int) : Process H :=
  { p with state := .running, quantumLeft := quantum }

def sendBack (p : Process H) : Process H := { p with state := .ready }

def withCpu (p : Process H) (cpu : Cpu H) : Process H := { p with cpu }

/-- The process with registers that were saved before. -/
def restore (p : Process H) (registers : Registers) : Process H :=
  p.withCpu (p.cpu.restore registers)

/-- The urgency of a process. The priority of a best-effort process does not count. -/
def urgency (p : Process H) : Urgency where
  level := if p.isRealtime then p.priority.level else 0
  arrivalTime := p.arrivalTime
  id := p.id

def report (p : Process H) : ProcessReport where
  id := p.id
  name := p.name
  schedulingClass := p.schedulingClass
  priority := p.priority
  state := p.state
  arrivalTime := p.arrivalTime
  executionTime := p.executionTime
  waitingTime := p.waitingTime
  quantumLeft := p.quantumLeft
  blockEnd := p.blockEnd
  accumulator := p.cpu.accumulator
  programCounter := p.cpu.programCounter

end Process

end Timeslice
