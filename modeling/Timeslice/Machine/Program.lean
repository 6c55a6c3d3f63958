import Timeslice.Machine.Instruction
import Timeslice.Store

/-! # Programs

A program is loaded line by line from its text. Blank lines and lines that start with a hash sign
say nothing. Markers open and close the data region and the code region, and lines outside both
say nothing either. A data line gives a name its first value, and a code line holds a label, an
instruction or both. Only a data value that is not a 32-bit integer stops the loading.
-/

namespace Timeslice

/-- A loaded program. Labels are held last first, so that the last of one name is found. -/
structure Program where
  instructions : List Instruction
  labels : List (String × Nat)
  data : Store
  deriving DecidableEq

/-- Why a text is not a program: on line `line` the value `text` is not an integer. -/
structure LoadError where
  line : Nat
  text : String
  deriving DecidableEq

namespace LoadError

def message (e : LoadError) : String :=
  "Invalid integer literal '" ++ e.text ++ "' on line " ++ Text.decimal e.line

end LoadError

namespace Program

def empty : Program := ⟨[], [], .empty⟩

def size (p : Program) : Nat := p.instructions.length

def instruction? (p : Program) (index : Nat) : Option Instruction := p.instructions[index]?

/-- The index of the instruction that a label stands before. -/
def label? (p : Program) (name : String) : Option Nat := p.labels.lookup name

def addLabel (p : Program) (name : String) : Program :=
  { p with labels := (name, p.size) :: p.labels }

/-- Adds the instruction of a text, if there is any text. -/
def addInstruction (p : Program) (text : List Char) : Program :=
  if text.isEmpty then p else { p with instructions := p.instructions ++ [.decode text] }

/-- Reads a code line. What stands before the first colon is a label for what comes after it. -/
def addCode (p : Program) (line : List Char) : Program :=
  match line.dropWhile (· != ':') with
  | [] => p.addInstruction line
  | _ :: rest =>
    let name := String.ofList (Text.trim (line.takeWhile (· != ':')))
    (p.addLabel name).addInstruction (Text.trim rest)

/-- Reads a data line. A line of one field says nothing. -/
def addData (p : Program) (number : Nat) (line : List Char) : Except LoadError Program :=
  match Text.fields line with
  | name :: value :: _ =>
    match Text.int32? value with
    | some v => .ok { p with data := p.data.insert (String.ofList name) v }
    | none => .error ⟨number, String.ofList value⟩
  | _ => .ok p

end Program

/-- The region of a program's text that a line belongs to. -/
inductive Region where
  | outside
  | data
  | code
  deriving DecidableEq

namespace Region

/-- The region after a marker line, or `none` for a line that is no marker. A closing marker
closes its own region alone. -/
def afterMarker? (region : Region) (line : List Char) : Option Region :=
  match String.ofList (line.map Char.toLower) with
  | ".code" => some code
  | ".data" => some data
  | ".endcode" => some (if region = code then outside else region)
  | ".enddata" => some (if region = data then outside else region)
  | _ => none

end Region

namespace Program

/-- A program in the course of loading. -/
structure Loading where
  region : Region
  program : Program
  deriving DecidableEq

namespace Loading

def start : Loading := ⟨.outside, .empty⟩

/-- Whether a trimmed line says nothing wherever it stands. -/
def isSilent (line : List Char) : Bool := line.isEmpty || line.head? == some '#'

/-- Reads the trimmed line of the given number. -/
def read (loading : Loading) (number : Nat) (line : List Char) : Except LoadError Loading :=
  if isSilent line then .ok loading
  else
    match loading.region.afterMarker? line with
    | some region => .ok { loading with region }
    | none =>
      match loading.region with
      | .outside => .ok loading
      | .code => .ok { loading with program := loading.program.addCode line }
      | .data => do
        let program ← loading.program.addData number line
        return { loading with program }

end Loading

/-- The trimmed lines of a text with their numbers, from 1. -/
def numberedLines (text : String) : List (List Char × Nat) :=
  ((Text.lines text.toList).map Text.trim).zipIdx 1

/-- Loads the program of a text. -/
def parse (text : String) : Except LoadError Program := do
  let loading ← (numberedLines text).foldlM
    (fun loading line => Loading.read loading line.2 line.1) Loading.start
  return loading.program

end Program

end Timeslice
