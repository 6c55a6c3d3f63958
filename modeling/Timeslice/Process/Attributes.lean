import Timeslice.Json.Codec
import Timeslice.Text.Decimal

/-! # What is said of a process

Its id, its scheduling class, its priority and its lifecycle state, each with the name it goes by
in documents and on the console.
-/

namespace Timeslice

/-- Processes are numbered from 1 in the order of their creation. -/
abbrev Pid := Nat

namespace Pid

def first : Pid := 1

def next (id : Pid) : Pid := Nat.succ id

def label (id : Pid) : String := "Process(" ++ Text.decimal id ++ ")"

def codec : Codec Pid := .word

end Pid

/-- Realtime processes run under a quantum and go before all others. Best-effort processes run
until they block. -/
inductive SchedulingClass where
  | realtime
  | bestEffort
  deriving DecidableEq

namespace SchedulingClass

def name : SchedulingClass → String
  | realtime => "realtime"
  | bestEffort => "besteffort"

def isRealtime (c : SchedulingClass) : Bool := c = realtime

def codec : Codec SchedulingClass :=
  .choice name [("realtime", realtime), ("besteffort", bestEffort), ("best_effort", bestEffort)]

end SchedulingClass

/-- Among realtime processes the lower level goes first. -/
inductive Priority where
  | high
  | low
  deriving DecidableEq

namespace Priority

def level : Priority → Nat
  | high => 0
  | low => 1

def name : Priority → String
  | high => "high"
  | low => "low"

def label (p : Priority) : String := p.name ++ " (" ++ Text.decimal p.level ++ ")"

def codec : Codec Priority := .choice name [("high", high), ("low", low)]

end Priority

inductive ProcessState where
  /-- Created, and its arrival time not reached. -/
  | new
  /-- Able to run. -/
  | ready
  /-- Holding the processor. -/
  | running
  /-- Until its block ends. -/
  | blocked
  /-- Finished, for good. -/
  | exit
  deriving DecidableEq

namespace ProcessState

def name : ProcessState → String
  | new => "new"
  | ready => "ready"
  | running => "running"
  | blocked => "blocked"
  | exit => "exit"

def isTerminal (s : ProcessState) : Bool := s = exit

def codec : Codec ProcessState :=
  .choice name [("new", new), ("ready", ready), ("running", running), ("blocked", blocked),
    ("exit", exit)]

end ProcessState

end Timeslice
