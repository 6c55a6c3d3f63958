import Timeslice.Process.Basic
import Timeslice.Text.Quoted

/-! # Descriptions

A processor or a process on one line, field by field, for people who look for a fault.
-/

namespace Timeslice

namespace Describe

/-- A list of fields between braces, after the name of what they belong to. -/
def fields (name : String) (fields : List (String × String)) : String :=
  name ++ " \x7b " ++ String.intercalate ", " (fields.map fun (key, value) => key ++ ": " ++ value)
    ++ " \x7d"

def flag (b : Bool) : String := if b then "true" else "false"

def store (s : Store) : String :=
  "\x7b" ++ String.intercalate ", " (s.entries.map fun (name, value) =>
    Text.quoted name ++ ": " ++ Text.decimal value.toInt) ++ "\x7d"

def schedulingClass : SchedulingClass → String
  | .realtime => "Realtime"
  | .bestEffort => "BestEffort"

def priority : Priority → String
  | .high => "High"
  | .low => "Low"

def processState : ProcessState → String
  | .new => "New"
  | .ready => "Ready"
  | .running => "Running"
  | .blocked => "Blocked"
  | .exit => "Exit"

end Describe

def Cpu.describe {H : Type} (cpu : Cpu H) : String :=
  Describe.fields "VirtualCpu" [
    ("accumulator", Text.decimal cpu.accumulator.toInt),
    ("program_counter", Text.decimal cpu.programCounter),
    ("instructions", Text.decimal cpu.program.size),
    ("data", Describe.store cpu.data),
    ("running", Describe.flag cpu.running),
    ("blocked", Describe.flag cpu.blocked),
    ("waiting_for_input", Describe.flag cpu.waitingForInput),
    ("has_handler", Describe.flag cpu.handler.isSome)]

def Process.describe {H : Type} (p : Process H) : String :=
  Describe.fields "Process" [
    ("id", "ProcessId(" ++ Text.decimal p.id ++ ")"),
    ("name", Text.quoted p.name),
    ("class", Describe.schedulingClass p.schedulingClass),
    ("priority", Describe.priority p.priority),
    ("state", Describe.processState p.state),
    ("arrival_time", Text.decimal p.arrivalTime),
    ("quantum_left", Text.decimal p.quantumLeft),
    ("cpu", p.cpu.describe)]

end Timeslice
