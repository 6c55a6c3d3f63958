import Timeslice.Kernel.Event
import Timeslice.Log

/-! # The scheduler's own state

The realtime quantum, the process that holds the processor if there is one, the record of events
and a log.
-/

namespace Timeslice

/-- The settings of a scheduler. -/
structure SchedulerSettings where
  quantum : Nat
  deriving DecidableEq

namespace SchedulerSettings

def standard : SchedulerSettings := ⟨2⟩

def codec : Codec SchedulerSettings where
  encode settings := .record [("quantum", (Codec.natural Word.limit32).encode settings.quantum)]
  decode json := do
    let record ← Record.of? ["quantum"] json
    return { quantum := ← record.required "quantum" (.natural Word.limit32) }

end SchedulerSettings

structure Scheduler where
  settings : SchedulerSettings
  current : Option Pid
  /-- The events recorded, oldest first. -/
  audit : List Event
  log : Log
  deriving DecidableEq

namespace Scheduler

/-- A scheduler with nothing selected that logs from `minimum` on. -/
def idle (minimum : Log.Level) : Scheduler := ⟨.standard, none, [], .keeping minimum⟩

def quantum (s : Scheduler) : Nat := s.settings.quantum

/-- Sets the quantum, brought into the range from 1 to the largest 32-bit word. Dispatches from
then on grant it. -/
def setQuantum (s : Scheduler) (quantum : Int) : Scheduler :=
  { s with settings := ⟨(max 1 (min quantum Word.limit32)).toNat⟩ }

def select (s : Scheduler) (id : Option Pid) : Scheduler := { s with current := id }

/-- The scheduler without process `id` on the processor. -/
def deselect (s : Scheduler) (id : Pid) : Scheduler :=
  if s.current = some id then { s with current := none } else s

def record (s : Scheduler) (event : Event) : Scheduler := { s with audit := s.audit ++ [event] }

def recordAll (s : Scheduler) (events : List Event) : Scheduler :=
  { s with audit := s.audit ++ events }

def note (s : Scheduler) (entry : Log.Entry) : Scheduler := { s with log := s.log.add entry }

def logAt (s : Scheduler) (minimum : Log.Level) : Scheduler :=
  { s with log := { s.log with minimum } }

def withoutAudit (s : Scheduler) : Scheduler := { s with audit := [] }

def withoutLog (s : Scheduler) : Scheduler := { s with log := s.log.cleared }

end Scheduler

end Timeslice
