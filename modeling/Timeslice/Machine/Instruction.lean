import Timeslice.Text.Blank
import Timeslice.Text.Decimal
import Timeslice.Text.Upper

/-! # Instructions

An instruction is decoded from an opcode, in any case of its letters, and the field after it. What
does not decode is kept as it was written and fails when it is executed.
-/

namespace Timeslice

inductive Operand where
  /-- A number, written after a hash sign. -/
  | immediate (value : Int32)
  /-- The name of a value in the data store. -/
  | direct (name : String)
  /-- Something written where a number should stand. -/
  | malformed (text : String)
  | missing
  deriving DecidableEq

namespace Operand

def ofField : Option String → Operand
  | none => missing
  | some text =>
    match text.toList with
    | '#' :: digits =>
      match Text.int32? digits with
      | some value => immediate value
      | none => malformed text
    | _ => direct text

/-- A syscall code, a number written without a hash sign. -/
def codeOfField : Option String → Operand
  | none => missing
  | some text =>
    match Text.int32? text.toList with
    | some value => immediate value
    | none => malformed text

def text : Operand → String
  | immediate value => "#" ++ Text.decimal value.toInt
  | direct name => name
  | malformed text => text
  | missing => ""

end Operand

inductive Arithmetic where
  | add
  | sub
  | mult
  | div
  deriving DecidableEq

namespace Arithmetic

def mnemonic : Arithmetic → String
  | add => "ADD"
  | sub => "SUB"
  | mult => "MULT"
  | div => "DIV"

end Arithmetic

/-- When a branch is taken, by the accumulator. -/
inductive Condition where
  | always
  | positive
  | zero
  | negative
  deriving DecidableEq

namespace Condition

def mnemonic : Condition → String
  | always => "BRANY"
  | positive => "BRPOS"
  | zero => "BRZERO"
  | negative => "BRNEG"

def holds : Condition → Int32 → Bool
  | always, _ => true
  | positive, accumulator => 0 < accumulator
  | zero, accumulator => accumulator = 0
  | negative, accumulator => accumulator < 0

end Condition

inductive Instruction where
  | arithmetic (operation : Arithmetic) (operand : Operand)
  | load (operand : Operand)
  | store (operand : Operand)
  /-- Labels are looked up when the branch is taken. -/
  | branch (condition : Condition) (label : Option String)
  | syscall (code : Operand)
  /-- An opcode outside the set, in upper case. -/
  | unknown (opcode : String)
  deriving DecidableEq

namespace Instruction

/-- The instruction of an upper-case opcode and the field after it. -/
def ofFields (opcode : String) (field : Option String) : Instruction :=
  match opcode with
  | "ADD" => arithmetic .add (.ofField field)
  | "SUB" => arithmetic .sub (.ofField field)
  | "MULT" => arithmetic .mult (.ofField field)
  | "DIV" => arithmetic .div (.ofField field)
  | "LOAD" => load (.ofField field)
  | "STORE" => store (.ofField field)
  | "BRANY" => branch .always field
  | "BRPOS" => branch .positive field
  | "BRZERO" => branch .zero field
  | "BRNEG" => branch .negative field
  | "SYSCALL" => syscall (.codeOfField field)
  | opcode => unknown opcode

/-- Decodes the first two fields of a text, and takes no notice of any others. -/
def decode (text : List Char) : Instruction :=
  match Text.fields text with
  | [] => ofFields "" none
  | opcode :: rest =>
    ofFields (String.ofList (Text.upper opcode)) (rest.head?.map String.ofList)

def mnemonic : Instruction → String
  | arithmetic operation _ => operation.mnemonic
  | load _ => "LOAD"
  | store _ => "STORE"
  | branch condition _ => condition.mnemonic
  | syscall _ => "SYSCALL"
  | unknown opcode => opcode

/-- The text of what follows the mnemonic, if anything does. -/
def argument? : Instruction → Option String
  | arithmetic _ operand | load operand | store operand | syscall operand =>
    if operand = .missing then none else some operand.text
  | branch _ label => label
  | unknown _ => none

def text (i : Instruction) : String :=
  match i.argument? with
  | some argument => i.mnemonic ++ " " ++ argument
  | none => i.mnemonic

end Instruction

end Timeslice
