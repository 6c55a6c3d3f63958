import Timeslice.Clock
import Timeslice.Log
import Timeslice.Process.Basic

/-! # The process table

Every process ever created, in the order of creation, with the clock they live by. A process that
has exited stays in the table.
-/

namespace Timeslice

structure ProcessTable (H : Type) where
  processes : List (Process H)
  /-- The id of the process created next. -/
  nextId : Pid
  clock : Clock
  log : Log

namespace ProcessTable

variable {H : Type}

/-- An empty table that logs from `minimum` on. -/
def empty (minimum : Log.Level) : ProcessTable H := ⟨[], .first, .zero, .keeping minimum⟩

def now (table : ProcessTable H) : Nat := table.clock.ticks

/-! ## Views -/

def find? (table : ProcessTable H) (id : Pid) : Option (Process H) :=
  table.processes.find? (·.id = id)

def inState (table : ProcessTable H) (state : ProcessState) : List (Process H) :=
  table.processes.filter (·.state = state)

def ready (table : ProcessTable H) : List (Process H) := table.processes.filter (·.isReady)

def running? (table : ProcessTable H) : Option (Process H) := table.processes.find? (·.isRunning)

/-- Whether every process has exited. -/
def isIdle (table : ProcessTable H) : Bool := table.processes.all (·.isExited)

def reports (table : ProcessTable H) : List ProcessReport := table.processes.map (·.report)

/-! ## Changes -/

/-- Changes the process of an id. -/
def update (table : ProcessTable H) (id : Pid) (f : Process H → Process H) : ProcessTable H :=
  { table with processes := table.processes.map fun p => if p.id = id then f p else p }

/-- Logs an entry of process `id` at the time of the clock. -/
def note (table : ProcessTable H) (level : Log.Level) (id : Pid) (message : String)
    (fields : List (String × String)) : ProcessTable H :=
  { table with log := table.log.add (.of level id table.now message fields) }

def logAt (table : ProcessTable H) (minimum : Log.Level) : ProcessTable H :=
  { table with log := { table.log with minimum } }

def withoutLog (table : ProcessTable H) : ProcessTable H := { table with log := table.log.cleared }

/-- Creates a process and gives its id. -/
def create (table : ProcessTable H) (name source : String) (arrivalTime : Nat)
    (schedulingClass : SchedulingClass) (priority : Priority) :
    Except LoadError Pid × ProcessTable H :=
  match Process.create table.nextId name source arrivalTime schedulingClass priority with
  | .error e => (.error e, table)
  | .ok p =>
    (.ok table.nextId,
      { table with
        processes := table.processes ++ [p]
        nextId := table.nextId.next }.note .info table.nextId "process created" [
          ("name", name),
          ("class", schedulingClass.name),
          ("priority", Text.decimal priority.level),
          ("arrival", Text.decimal arrivalTime)])

/-- Moves the clock on by one tick and lets every process elapse. Arrivals are logged before
processes that wake up. -/
def advance (table : ProcessTable H) : ProcessTable H :=
  let clock := table.clock.tick
  let now := clock.ticks
  let arrivals := (table.processes.filter (·.arrives now)).map fun p =>
    Log.Entry.of .info p.id now "process admitted" []
  let wakings := (table.processes.filter (·.wakes now)).map fun p =>
    Log.Entry.of .info p.id now "process woke up" []
  { table with
    clock
    processes := table.processes.map (·.elapse now)
    log := table.log.addAll (arrivals ++ wakings) }

/-- Blocks a running process, and tells whether it was running. -/
def block (table : ProcessTable H) (id : Pid) (duration : Nat) : Bool × ProcessTable H :=
  match table.find? id with
  | none => (false, table)
  | some p =>
    if p.isRunning then
      (true, (table.update id (·.block table.now duration)).note .info id "process blocked"
        [("ticks", Text.decimal duration)])
    else (false, table)

/-- Ends a process in any state, and tells whether there is one. -/
def terminate (table : ProcessTable H) (id : Pid) : Bool × ProcessTable H :=
  match table.find? id with
  | none => (false, table)
  | some _ => (true, (table.update id (·.terminate)).note .info id "process terminated" [])

/-- Does what one effect of process `id` asks for. -/
def apply (id : Pid) (table : ProcessTable H) : Effect → ProcessTable H
  | .exit => (table.terminate id).2
  | .block ticks => (table.block id ticks).2
  | .output _ => table

/-- Applies and removes the effects that process `id` has left, and gives the texts among them. -/
def applyEffects (table : ProcessTable H) (id : Pid) : List String × ProcessTable H :=
  match table.find? id with
  | none => ([], table)
  | some p =>
    let effects := p.cpu.effects
    let texts := effects.filterMap fun
      | .output text => some text
      | _ => none
    (texts, effects.foldl (apply id) (table.update id fun p => p.withCpu p.cpu.withoutEffects))

/-- Installs a handler, and tells whether there is a process for it. -/
def setHandler (table : ProcessTable H) (id : Pid) (handler : H) : Bool × ProcessTable H :=
  ((table.find? id).isSome,
    table.update id fun p => p.withCpu { p.cpu with handler := some handler })

/-- Gives input to a process, and tells whether it waited for any. -/
def supply [SyscallHandler H] (table : ProcessTable H) (id : Pid) (text : String) :
    Except Fault Bool × ProcessTable H :=
  match table.find? id with
  | none => (.ok false, table)
  | some p =>
    match p.cpu.supply text with
    | (.ok true, cpu) =>
      (.ok true, (table.update id (·.withCpu cpu)).note .debug id "input delivered"
        [("value", String.ofList (Text.trim text.toList))])
    | (answer, _) => (answer, table)

/-- The table without processes, back at tick 0. It logs at the same level. -/
def reset (table : ProcessTable H) : ProcessTable H := empty table.log.minimum

end ProcessTable

end Timeslice
