import Timeslice.Kernel.Event
import Timeslice.Log
import Timeslice.Process.Basic

/-! # Reports

What a simulation says of one tick, and of a whole run.
-/

namespace Timeslice

inductive Ending where
  /-- Every process has exited. -/
  | allExited
  /-- The last tick allowed has passed. -/
  | tickLimit
  /-- A process waits for input and none is left. -/
  | inputExhausted
  deriving DecidableEq

namespace Ending

def name : Ending → String
  | allExited => "all_exited"
  | tickLimit => "tick_limit"
  | inputExhausted => "input_exhausted"

def text : Ending → String
  | allExited => "all processes exited"
  | tickLimit => "tick limit reached"
  | inputExhausted => "waiting for input, none left"

def codec : Codec Ending :=
  .choice name [("all_exited", allExited), ("tick_limit", tickLimit),
    ("input_exhausted", inputExhausted)]

end Ending

/-- A line of output of a process. -/
structure Output where
  tick : Nat
  process : Pid
  text : String
  deriving DecidableEq

namespace Output

def line (l : Output) : String :=
  "[" ++ Text.padLeft 4 (Text.decimal l.tick) ++ "] " ++ l.process.label ++ ": " ++ l.text

def codec : Codec Output where
  encode l := .record [
    ("tick", Codec.word.encode l.tick),
    ("process_id", Pid.codec.encode l.process),
    ("text", Codec.text.encode l.text)]
  decode json := do
    let record ← Record.of? ["tick", "process_id", "text"] json
    return {
      tick := ← record.required "tick" .word
      process := ← record.required "process_id" Pid.codec
      text := ← record.required "text" .text }

end Output

/-- What happened in one tick. -/
structure TickRecord where
  tick : Nat
  /-- The process that held the processor. -/
  selected : Option Pid
  output : List Output
  events : List Event
  logs : List Log.Entry
  deriving DecidableEq

/-- The end of a run. -/
structure Report where
  ending : Ending
  ticks : Nat
  processes : List ProcessReport
  output : List Output
  deriving DecidableEq

namespace Report

/-- One row of the table of processes. -/
def row (pid name schedulingClass priority state arrival exec wait acc : String) : String :=
  Text.padLeft 4 pid ++ "  " ++ Text.padRight 12 name ++ " " ++ Text.padRight 10 schedulingClass
    ++ " " ++ Text.padRight 8 priority ++ " " ++ Text.padRight 8 state ++ " "
    ++ Text.padLeft 7 arrival ++ " " ++ Text.padLeft 5 exec ++ " " ++ Text.padLeft 5 wait ++ " "
    ++ Text.padLeft 6 acc ++ "\n"

def processRow (p : ProcessReport) : String :=
  row (Text.decimal p.id) p.name p.schedulingClass.name (Text.decimal p.priority.level)
    p.state.name (Text.decimal p.arrivalTime) (Text.decimal p.executionTime)
    (Text.decimal p.waitingTime) (Text.decimal p.accumulator.toInt)

/-- The report for the console, one process to the line. -/
def text (r : Report) : String :=
  "Simulation stopped after " ++ Text.decimal r.ticks ++ " ticks: " ++ r.ending.text ++ "\n"
    ++ row "PID" "NAME" "CLASS" "PRIO" "STATE" "ARRIVAL" "EXEC" "WAIT" "ACC"
    ++ String.join (r.processes.map processRow)

def codec : Codec Report where
  encode r := .record [
    ("stop_reason", Ending.codec.encode r.ending),
    ("ticks", Codec.word.encode r.ticks),
    ("processes", (Codec.list ProcessReport.codec).encode r.processes),
    ("output", (Codec.list Output.codec).encode r.output)]
  decode json := do
    let record ← Record.of? ["stop_reason", "ticks", "processes", "output"] json
    return {
      ending := ← record.required "stop_reason" Ending.codec
      ticks := ← record.required "ticks" .word
      processes := ← record.required "processes" (.list ProcessReport.codec)
      output := ← record.required "output" (.list Output.codec) }

end Report

end Timeslice
