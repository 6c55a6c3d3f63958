import Timeslice.Process.Attributes

/-! # Scheduling events

What the scheduler records of each process: that it was put on the processor, sent back, ended, or
produced output.
-/

namespace Timeslice

/-- Why a running process was sent back. -/
inductive Preemption where
  /-- A realtime process used up its quantum. -/
  | quantumExpired
  /-- A best-effort process ran while a realtime process was ready. -/
  | realtimeArrival
  deriving DecidableEq

namespace Preemption

def name : Preemption → String
  | quantumExpired => "QuantumExpired"
  | realtimeArrival => "RealtimeArrival"

def codec : Codec Preemption :=
  .choice name [("QuantumExpired", quantumExpired), ("RealtimeArrival", realtimeArrival)]

end Preemption

/-- Why a process ended. -/
inductive ExitCause where
  /-- Its program asked for it. -/
  | normal
  /-- An instruction failed. -/
  | failed
  /-- It was ended from outside. -/
  | terminated
  deriving DecidableEq

namespace ExitCause

def name : ExitCause → String
  | normal => "Normal"
  | failed => "Failed"
  | terminated => "Terminated"

def codec : Codec ExitCause :=
  .choice name [("Normal", normal), ("Failed", failed), ("Terminated", terminated)]

end ExitCause

inductive Event where
  | selected (id : Pid) (tick : Nat)
  | preempted (id : Pid) (reason : Preemption) (tick : Nat)
  | exited (id : Pid) (reason : ExitCause) (tick : Nat)
  | output (id : Pid) (text : String) (tick : Nat)
  deriving DecidableEq

namespace Event

/-- An event is written as an object whose only member is named for the kind of event. -/
def encode : Event → Json
  | selected id tick => .record [("ProcessSelected", .record [
      ("process_id", Pid.codec.encode id),
      ("timestamp_ticks", Codec.word.encode tick)])]
  | preempted id reason tick => .record [("ProcessPreempted", .record [
      ("process_id", Pid.codec.encode id),
      ("reason", Preemption.codec.encode reason),
      ("timestamp_ticks", Codec.word.encode tick)])]
  | exited id reason tick => .record [("ProcessExited", .record [
      ("process_id", Pid.codec.encode id),
      ("reason", ExitCause.codec.encode reason),
      ("timestamp_ticks", Codec.word.encode tick)])]
  | output id text tick => .record [("ProcessOutput", .record [
      ("process_id", Pid.codec.encode id),
      ("text", Codec.text.encode text),
      ("timestamp_ticks", Codec.word.encode tick)])]

def decode : Json → Option Event
  | .object [(some "ProcessSelected", json)] => do
    let record ← Record.of? ["process_id", "timestamp_ticks"] json
    return selected (← record.required "process_id" Pid.codec)
      (← record.required "timestamp_ticks" .word)
  | .object [(some "ProcessPreempted", json)] => do
    let record ← Record.of? ["process_id", "reason", "timestamp_ticks"] json
    return preempted (← record.required "process_id" Pid.codec)
      (← record.required "reason" Preemption.codec)
      (← record.required "timestamp_ticks" .word)
  | .object [(some "ProcessExited", json)] => do
    let record ← Record.of? ["process_id", "reason", "timestamp_ticks"] json
    return exited (← record.required "process_id" Pid.codec)
      (← record.required "reason" ExitCause.codec)
      (← record.required "timestamp_ticks" .word)
  | .object [(some "ProcessOutput", json)] => do
    let record ← Record.of? ["process_id", "text", "timestamp_ticks"] json
    return output (← record.required "process_id" Pid.codec)
      (← record.required "text" .text)
      (← record.required "timestamp_ticks" .word)
  | _ => none

def codec : Codec Event := ⟨encode, decode⟩

end Event

end Timeslice
