import Timeslice.Json.Printer
import Timeslice.Scenario.Load
import Timeslice.Simulation.Basic

/-! # The command line

Options are read from the left, each with its value after it. Of an option that comes more than
once the last value counts, and a call for help ends the reading. What the program prints is kept
as a transcript, in the order of printing.
-/

namespace Timeslice.CommandLine

structure Options where
  config : Option String
  quantum : Option Int
  maxTicks : Option Nat
  logLevel : Option Log.Level
  json : Bool
  deriving DecidableEq

def Options.none : Options := ⟨.none, .none, .none, .none, false⟩

/-- The options that are followed by a value. -/
inductive Setting where
  | config
  | quantum
  | maxTicks
  | logLevel
  deriving DecidableEq

inductive UsageError where
  | missingValue (setting : Setting)
  | invalidQuantum (text : String)
  | invalidMaxTicks (text : String)
  | invalidLogLevel (text : String)
  | unknownOption (text : String)
  | missingConfig
  deriving DecidableEq

namespace Setting

def flag : Setting → String
  | config => "--config"
  | quantum => "--quantum"
  | maxTicks => "--max-ticks"
  | logLevel => "--log-level"

def ofFlag? : String → Option Setting
  | "--config" | "-c" => some config
  | "--quantum" | "-q" => some quantum
  | "--max-ticks" => some maxTicks
  | "--log-level" => some logLevel
  | _ => none

/-- The options with a setting made. -/
def apply (options : Options) (value : String) : Setting → Except UsageError Options
  | config => .ok { options with config := some value }
  | quantum =>
    match Text.signedIn? Word.least64 Word.largest64 value.toList with
    | some n => .ok { options with quantum := some n }
    | none => .error (.invalidQuantum value)
  | maxTicks =>
    match Text.unsignedIn? Word.limit value.toList with
    | some n => .ok { options with maxTicks := some n }
    | none => .error (.invalidMaxTicks value)
  | logLevel =>
    let name := String.ofList (value.toList.map Char.toLower)
    match Log.Level.named.lookup name with
    | some level => .ok { options with logLevel := some level }
    | none => .error (.invalidLogLevel name)

end Setting

namespace UsageError

def message : UsageError → String
  | missingValue setting => "Missing value for " ++ setting.flag
  | invalidQuantum text => "Invalid quantum value: " ++ text
  | invalidMaxTicks text => "Invalid max-ticks value: " ++ text
  | invalidLogLevel text => "Invalid log level: " ++ text
  | unknownOption text => "Unknown option: " ++ text
  | missingConfig => "Missing --config"

end UsageError

/-- What the arguments ask for. -/
inductive Command where
  | help
  | simulate (config : String) (options : Options)
  deriving DecidableEq

/-- Reads arguments on top of the options read so far. -/
def parseOnto (options : Options) : List String → Except UsageError Command
  | [] =>
    match options.config with
    | some config => .ok (.simulate config options)
    | none => .error .missingConfig
  | argument :: rest =>
    match Setting.ofFlag? argument with
    | some setting =>
      match rest with
      | [] => .error (.missingValue setting)
      | value :: rest => do parseOnto (← setting.apply options value) rest
    | none =>
      if argument = "--json" then parseOnto { options with json := true } rest
      else if argument = "--help" ∨ argument = "-h" then .ok .help
      else .error (.unknownOption argument)

def parse (arguments : List String) : Except UsageError Command := parseOnto .none arguments

/-- One piece of printed text, on one of the two streams. -/
inductive Print where
  | out (text : String)
  | err (text : String)
  deriving DecidableEq

/-- What a run of the program prints, and its exit code. -/
structure Transcript where
  prints : List Print
  code : Nat
  deriving DecidableEq

namespace Transcript

def stdout (t : Transcript) : String :=
  String.join (t.prints.map fun
    | .out text => text
    | .err _ => "")

def stderr (t : Transcript) : String :=
  String.join (t.prints.map fun
    | .out _ => ""
    | .err text => text)

end Transcript

/-- The lines of the text that explains the program. -/
def usageLines (program : String) : List String := [
  "Usage: " ++ program ++ " --config <FILE> [OPTIONS]",
  "",
  "Options:",
  "  -c, --config <FILE>      Scenario file (JSON)",
  "  -q, --quantum <N>        Realtime quantum in ticks (minimum 1)",
  "  --max-ticks <N>          Stop after N ticks",
  "  --log-level <LEVEL>      debug, info, warn or error",
  "  --json                   Print the final report as JSON",
  "  -h, --help               Show this help message",
  "",
  "Examples:",
  "  " ++ program ++ " --config demos/mixed.json",
  "  " ++ program ++ " -c demos/interactive.json --quantum 3 --json"]

def usage (program : String) : String :=
  String.join ((usageLines program).map (· ++ "\n"))

def failure (text : String) : Transcript := ⟨[.err text], 1⟩

/-- The simulation of a scenario under the options. -/
def start (scenario : Scenario) (options : Options) : Except SetupError Simulation := do
  let scenario := match options.logLevel with
    | some logLevel => { scenario with logLevel }
    | none => scenario
  let simulation ← Simulation.create scenario
  let simulation := match options.quantum with
    | some quantum => simulation.setQuantum quantum
    | none => simulation
  return match options.maxTicks with
    | some maxTicks => simulation.setMaxTicks maxTicks
    | none => simulation

/-- What is printed of one tick: its logs, and then its output. -/
def printTick (tick : TickRecord) : List Print :=
  tick.logs.map (fun entry => .err (entry.line ++ "\n"))
    ++ tick.output.map (fun line => .out (line.line ++ "\n"))

def printReport (json : Bool) (report : Report) : Print :=
  .out (if json then (Report.codec.encode report).pretty ++ "\n" else report.text)

/-- Runs a simulation to its end. -/
def simulate (simulation : Simulation) (json : Bool) : Transcript :=
  let (prints, report, _) :=
    simulation.runWith (fun prints tick => (printTick tick).reverse ++ prints) []
  ⟨(printReport json report :: prints).reverse, 0⟩

/-- Runs the program under the name `program`. -/
def run {m : Type → Type} [Monad m] (read : Reader m) (program : String)
    (arguments : List String) : m Transcript :=
  match parse arguments with
  | .error e => return failure ("Error: " ++ e.message ++ "\n" ++ usage program)
  | .ok .help => return ⟨[.err (usage program)], 0⟩
  | .ok (.simulate config options) => do
    match ← (Scenario.load read config).run with
    | .error e => return failure ("Failed to load scenario: " ++ e.message ++ "\n")
    | .ok scenario =>
      match start scenario options with
      | .error e => return failure ("Failed to create simulation: " ++ e.message ++ "\n")
      | .ok simulation => return simulate simulation options.json

end Timeslice.CommandLine
