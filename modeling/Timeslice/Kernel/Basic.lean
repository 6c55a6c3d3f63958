import Timeslice.Kernel.Scheduler
import Timeslice.Process.Table

/-! # The kernel

A process table and its scheduler. Realtime processes go before best-effort ones and run for a
quantum at a time; best-effort processes run until they block. Scheduling works in passes: a pass
settles the running process, fills an empty processor, and asks for another pass if a best-effort
process has to make way.
-/

namespace Timeslice

structure Kernel (H : Type) where
  table : ProcessTable H
  scheduler : Scheduler

namespace Kernel

variable {H : Type}

def empty (minimum : Log.Level) : Kernel H := ⟨.empty minimum, .idle minimum⟩

def now (k : Kernel H) : Nat := k.table.now

def recordExit (k : Kernel H) (id : Pid) (reason : ExitCause) : Kernel H :=
  { k with scheduler := k.scheduler.record (.exited id reason k.now) }

def advance (k : Kernel H) : Kernel H := { k with table := k.table.advance }

/-! ## Scheduling -/

/-- Sends a process back to the ready ones. -/
def preempt (k : Kernel H) (id : Pid) (reason : Preemption) : Kernel H where
  table := k.table.update id (·.sendBack)
  scheduler := ((k.scheduler.deselect id).record (.preempted id reason k.now)).note
    (.of .info id k.now "process preempted" [("reason", reason.name)])

/-- The quantum that a dispatch grants. -/
def granted (k : Kernel H) (p : Process H) : Int :=
  if p.isRealtime then k.scheduler.quantum else Process.unboundedQuantum

/-- Puts a process on the processor. -/
def dispatch (k : Kernel H) (p : Process H) : Kernel H where
  table := k.table.update p.id (·.dispatch (k.granted p))
  scheduler := ((k.scheduler.select (some p.id)).record (.selected p.id k.now)).note
    (.of .debug p.id k.now "process dispatched" [("quantum", Text.decimal (k.granted p))])

/-- The process to dispatch: the most urgent of the ready realtime processes, or else of the ready
best-effort ones. -/
def choice? (k : Kernel H) : Option (Process H) :=
  let ready := k.table.ready
  match (ready.filter (·.isRealtime)).minOn? (·.urgency) with
  | some p => some p
  | none => (ready.filter (! ·.isRealtime)).minOn? (·.urgency)

/-- Selects the running process, or sends it back if it is realtime and its quantum is used up.
Also tells whether the process keeps the processor because it waits for input. -/
def settle (k : Kernel H) : Bool × Kernel H :=
  match k.table.running? with
  | none => (false, k)
  | some p =>
    if p.isRealtime && p.quantumLeft ≤ 0 then (false, k.preempt p.id .quantumExpired)
    else (p.cpu.waitingForInput, { k with scheduler := k.scheduler.select (some p.id) })

/-- Drops a selection that no longer runs. An exit that was not recorded is recorded now. -/
def dropStale (k : Kernel H) : Kernel H :=
  match k.scheduler.current with
  | none => k
  | some id =>
    match (k.table.find? id).map Process.state with
    | some .running => k
    | some .exit => { k with scheduler := k.scheduler.select none }.recordExit id .terminated
    | _ => { k with scheduler := k.scheduler.select none }

/-- Fills an empty processor. -/
def fill (k : Kernel H) : Kernel H :=
  match k.scheduler.current with
  | some _ => k
  | none =>
    match k.choice? with
    | some p => k.dispatch p
    | none => k

/-- Sends a selected best-effort process back if a realtime process is ready, and tells whether it
did. -/
def makeWay (k : Kernel H) : Bool × Kernel H :=
  match k.scheduler.current with
  | none => (false, k)
  | some id =>
    if (k.table.find? id).any (! ·.isRealtime) && k.table.ready.any (·.isRealtime) then
      (true, k.preempt id .realtimeArrival)
    else (false, k)

/-- One pass, which tells whether another is due. -/
def pass (k : Kernel H) : Bool × Kernel H :=
  match k.settle with
  | (true, k) => (false, k)
  | (false, k) => k.dropStale.fill.makeWay

/-- Passes until none is due, at most `limit`. -/
def passes : Nat → Kernel H → Kernel H
  | 0, k => k
  | limit + 1, k =>
    match k.pass with
    | (true, k) => passes limit k
    | (false, k) => k

/-- Decides which process holds the processor. A pass that asks for another sends one running
process back, so no more passes are needed than there are processes, and one. -/
def schedule (k : Kernel H) : Option Pid × Kernel H :=
  let k := passes (k.table.processes.length + 1) k
  (k.scheduler.current, k)

/-! ## Running -/

/-- Ends a process and records why, and tells whether there is one. -/
def terminate (k : Kernel H) (id : Pid) (reason : ExitCause) : Bool × Kernel H :=
  match k.table.terminate id with
  | (false, _) => (false, k)
  | (true, table) =>
    (true, ({ k with table, scheduler := k.scheduler.deselect id } : Kernel H).recordExit id reason)

/-- Applies what a process left behind, records its output, and notices its exit. -/
def collect (k : Kernel H) (id : Pid) : Kernel H :=
  let (texts, table) := k.table.applyEffects id
  let scheduler := k.scheduler.recordAll (texts.map fun text => .output id text k.now)
  if (table.find? id).any (·.isExited) then
    ({ k with table, scheduler := scheduler.select none } : Kernel H).recordExit id .normal
  else { k with table, scheduler }

/-- Ends a process whose current instruction failed. -/
def fail (k : Kernel H) (p : Process H) (fault : Fault) : Kernel H :=
  let entry := Log.Entry.of .error p.id k.now fault.message [
    ("pc", Text.decimal p.cpu.programCounter),
    ("instruction", (p.cpu.current?.map (·.text)).getD "")]
  (({ k with scheduler := k.scheduler.note entry } : Kernel H).terminate p.id .failed).2

/-- Executes one instruction of the selected process, and tells whether one was executed. -/
def execute [SyscallHandler H] (k : Kernel H) : Bool × Kernel H :=
  match k.scheduler.current with
  | none => (false, k)
  | some id =>
    match k.table.find? id with
    | none => (false, { k with scheduler := k.scheduler.select none })
    | some p =>
      if p.isRunning then
        match p.cpu.step with
        | (.ok executed, cpu) =>
          (executed, { k with table := k.table.update id (·.withCpu cpu) }.collect id)
        | (.error fault, _) => (false, k.fail p fault)
      else (false, k)

/-- One tick: the clock, the choice, one instruction. Gives what the choice and the instruction
gave. -/
def tick [SyscallHandler H] (k : Kernel H) : (Option Pid × Bool) × Kernel H :=
  let (selected, k) := k.advance.schedule
  let (executed, k) := k.execute
  ((selected, executed), k)

/-! ## Settings -/

def setQuantum (k : Kernel H) (quantum : Int) : Kernel H :=
  { k with scheduler := k.scheduler.setQuantum quantum }

/-- Sets the minimum level of both logs. -/
def logAt (k : Kernel H) (minimum : Log.Level) : Kernel H :=
  ⟨k.table.logAt minimum, k.scheduler.logAt minimum⟩

end Kernel

end Timeslice
