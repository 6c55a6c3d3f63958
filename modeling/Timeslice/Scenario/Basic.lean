import Timeslice.Json.Parser
import Timeslice.Log
import Timeslice.Machine.Program
import Timeslice.Rotation

/-! # Scenarios

A scenario says which processes a simulation has, what input they get, and how it runs. It is
written as a JSON document in which only the processes are required.
-/

namespace Timeslice

/-- Why the text of a file could not be had. -/
inductive ReadError where
  | notFound
  | notDirectory
  | isDirectory
  | nameTooLong
  | notText
  | other (message : String)
  deriving DecidableEq

namespace ReadError

def message : ReadError → String
  | notFound => "No such file or directory (os error 2)"
  | notDirectory => "Not a directory (os error 20)"
  | isDirectory => "Is a directory (os error 21)"
  | nameTooLong => "File name too long (os error 36)"
  | notText => "stream did not contain valid UTF-8"
  | other message => message

end ReadError

/-- Why a simulation does not start. -/
inductive SetupError where
  | unreadable (path : String) (reason : ReadError)
  | invalid
  | missingProgram (name : String)
  | badProgram (name : String) (reason : LoadError)
  deriving DecidableEq

namespace SetupError

def message : SetupError → String
  | unreadable path reason => "Failed to read " ++ path ++ ": " ++ reason.message
  | invalid => "Invalid scenario: the text is not a scenario document"
  | missingProgram name => "Process '" ++ name ++ "' has no program"
  | badProgram name reason =>
    "Failed to create process '" ++ name ++ "': Program load failed: " ++ reason.message

end SetupError

/-- A process of a scenario. Its program is given in place or by the path of a file. -/
structure ProcessSpec where
  name : String
  arrivalTime : Nat
  schedulingClass : SchedulingClass
  priority : Priority
  program : Option String
  programPath : Option String
  deriving DecidableEq

namespace ProcessSpec

/-- The text of the program. -/
def source (spec : ProcessSpec) : Except SetupError String :=
  match spec.program with
  | some text => .ok text
  | none => .error (.missingProgram spec.name)

def codec : Codec ProcessSpec where
  encode spec := .record ([
    ("name", Codec.text.encode spec.name),
    ("arrival_time", Codec.word.encode spec.arrivalTime),
    ("class", SchedulingClass.codec.encode spec.schedulingClass),
    ("priority", Priority.codec.encode spec.priority)]
    ++ (spec.program.toList.map fun text => ("program", Codec.text.encode text))
    ++ (spec.programPath.toList.map fun path => ("program_path", Codec.text.encode path)))
  decode json := do
    let record ← Record.of? ["name", "arrival_time", "class", "priority", "program",
      "program_path"] json
    return {
      name := ← record.required "name" .text
      arrivalTime := ← record.defaulted "arrival_time" .word 0
      schedulingClass := ← record.required "class" SchedulingClass.codec
      priority := ← record.defaulted "priority" Priority.codec .low
      program := ← record.defaulted "program" (.option .text) none
      programPath := ← record.defaulted "program_path" (.option .text) none }

end ProcessSpec

structure Scenario where
  quantum : Nat
  maxTicks : Nat
  logLevel : Log.Level
  blockTicks : BlockRange
  /-- What is given, in this order, to processes that wait for input. -/
  inputs : List String
  processes : List ProcessSpec
  deriving DecidableEq

namespace Scenario

/-- Quanta are words of 32 bits. -/
def quantumCodec : Codec Nat := .natural Word.limit32

def codec : Codec Scenario where
  encode s := .record [
    ("quantum", quantumCodec.encode s.quantum),
    ("max_ticks", Codec.word.encode s.maxTicks),
    ("log_level", Log.Level.codec.encode s.logLevel),
    ("block_ticks", BlockRange.codec.encode s.blockTicks),
    ("inputs", (Codec.list .text).encode s.inputs),
    ("processes", (Codec.list ProcessSpec.codec).encode s.processes)]
  decode json := do
    let record ← Record.of? ["quantum", "max_ticks", "log_level", "block_ticks", "inputs",
      "processes"] json
    return {
      quantum := ← record.defaulted "quantum" quantumCodec 2
      maxTicks := ← record.defaulted "max_ticks" .word 1000
      logLevel := ← record.defaulted "log_level" Log.Level.codec .info
      blockTicks := ← record.defaulted "block_ticks" BlockRange.codec .standard
      inputs := ← record.defaulted "inputs" (.list .text) []
      processes := ← record.required "processes" (.list ProcessSpec.codec) }

/-- The scenario of a document. Programs given by path are not read. -/
def ofText (text : String) : Except SetupError Scenario :=
  match (Json.parse? text).bind codec.decode with
  | some scenario => .ok scenario
  | none => .error .invalid

end Scenario

end Timeslice
