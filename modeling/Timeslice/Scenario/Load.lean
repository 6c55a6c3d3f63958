import Timeslice.Scenario.Basic
import Timeslice.Scenario.Path

/-! # Loading scenarios

A scenario is loaded from a file, and then the programs that it gives by path are read from files
beside it, in the order of the processes. The first file that cannot be read ends the loading.
-/

namespace Timeslice

/-- A way to have the text of a file. -/
abbrev Reader (m : Type → Type) := String → m (Except ReadError String)

variable {m : Type → Type} [Monad m]

/-- The text of a file, or an error that names it. -/
def Reader.text (read : Reader m) (path : String) : ExceptT SetupError m String := do
  match ← (read path : m _) with
  | .ok text => return text
  | .error reason => throw (.unreadable path reason)

/-- The process with its program in place. A program that is in place already is kept, and its
path is not read. -/
def ProcessSpec.resolve (read : Reader m) (base : String) (spec : ProcessSpec) :
    ExceptT SetupError m ProcessSpec :=
  match spec.program, spec.programPath with
  | none, some path => do
    let text ← read.text (Path.join base path)
    return { spec with program := some text }
  | _, _ => return spec

/-- The scenario with every program in place that has a path. -/
def Scenario.resolve (read : Reader m) (base : String) (scenario : Scenario) :
    ExceptT SetupError m Scenario := do
  let processes ← scenario.processes.mapM (·.resolve read base)
  return { scenario with processes }

/-- Loads the scenario of a file. -/
def Scenario.load (read : Reader m) (path : String) : ExceptT SetupError m Scenario := do
  let text ← read.text path
  let scenario ← (Scenario.ofText text : Except SetupError Scenario)
  scenario.resolve read (Path.directory path)

end Timeslice
