import Timeslice.Json.Codec
import Timeslice.Machine.Program
import Timeslice.Machine.Syscall

/-! # The processor

One accumulator, a program counter and a data store. Arithmetic is that of 32-bit words. A step
executes one instruction; a step that fails leaves the processor as it was.
-/

namespace Timeslice

/-- Why an instruction or an input was refused. -/
inductive Fault where
  | undefinedVariable (name : String)
  | divisionByZero
  | invalidOperand (text : String)
  | undefinedLabel (label : String)
  | unknownInstruction (opcode : String)
  | missingOperand (what : String)
  | invalidLiteral (text : String)
  | invalidInput (text : String)
  deriving DecidableEq

namespace Fault

def message : Fault → String
  | undefinedVariable name => "Undefined variable: " ++ name
  | divisionByZero => "Division by zero"
  | invalidOperand text => "Invalid operand: " ++ text
  | undefinedLabel label => "Undefined label: " ++ label
  | unknownInstruction opcode => "Unknown instruction: " ++ opcode
  | missingOperand what => "Missing operand for " ++ what
  | invalidLiteral text => "Invalid integer literal: " ++ text
  | invalidInput text => "Invalid input: " ++ text

end Fault

/-- What a processor holds apart from its program and its handler. -/
structure Registers where
  accumulator : Int32
  programCounter : Nat
  data : Store
  running : Bool
  blocked : Bool
  blockTime : Nat
  waitingForInput : Bool
  deriving DecidableEq

namespace Registers

def initial : Registers := ⟨0, 0, .empty, false, false, 0, false⟩

def codec : Codec Registers where
  encode r := .record [
    ("accumulator", Codec.int32.encode r.accumulator),
    ("program_counter", Codec.word.encode r.programCounter),
    ("data", Codec.store.encode r.data),
    ("running", Codec.bool.encode r.running),
    ("blocked", Codec.bool.encode r.blocked),
    ("block_time", Codec.word.encode r.blockTime),
    ("waiting_for_input", Codec.bool.encode r.waitingForInput)]
  decode json := do
    let record ← Record.of? ["accumulator", "program_counter", "data", "running", "blocked",
      "block_time", "waiting_for_input"] json
    return {
      accumulator := ← record.required "accumulator" .int32
      programCounter := ← record.required "program_counter" .word
      data := ← record.required "data" .store
      running := ← record.required "running" .bool
      blocked := ← record.required "blocked" .bool
      blockTime := ← record.required "block_time" .word
      waitingForInput := ← record.required "waiting_for_input" .bool }

end Registers

/-- A processor with its program, its handler if it has one, and the effects left by calls,
oldest first. -/
structure Cpu (H : Type) extends Registers where
  program : Program
  handler : Option H
  effects : List Effect

namespace Operand

/-- The value of an operand. -/
def resolve (data : Store) : Operand → Except Fault Int32
  | immediate value => .ok value
  | direct name =>
    match data.get? name with
    | some value => .ok value
    | none => .error (.undefinedVariable name)
  | malformed text => .error (.invalidLiteral text)
  | missing => .error (.missingOperand "operand")

/-- The number of a syscall. -/
def code : Operand → Except Fault Int32
  | immediate value => .ok value
  | direct text | malformed text => .error (.invalidLiteral text)
  | missing => .error (.missingOperand "SYSCALL")

/-- The name that a value can be stored under. -/
def target : Operand → Except Fault String
  | direct name => .ok name
  | immediate value => .error (.invalidOperand (immediate value).text)
  | malformed text => .error (.invalidOperand text)
  | missing => .error (.missingOperand "STORE")

end Operand

namespace Arithmetic

/-- The result of an operation on words. A quotient is cut toward zero, and the least word divided
by minus one is the least word. -/
def apply (operation : Arithmetic) (a b : Int32) : Except Fault Int32 :=
  match operation with
  | add => .ok (a + b)
  | sub => .ok (a - b)
  | mult => .ok (a * b)
  | div => if b = 0 then .error .divisionByZero else .ok (a / b)

end Arithmetic

namespace Program

/-- Where a branch that is taken goes. -/
def target (p : Program) (condition : Condition) : Option String → Except Fault Nat
  | none => .error (.missingOperand condition.mnemonic)
  | some label =>
    match p.label? label with
    | some index => .ok index
    | none => .error (.undefinedLabel label)

end Program

namespace Cpu

variable {H : Type}

/-- A processor at the start of a program. -/
def load (program : Program) : Cpu H where
  accumulator := 0
  programCounter := 0
  data := program.data
  running := true
  blocked := false
  blockTime := 0
  waitingForInput := false
  program
  handler := none
  effects := []

def restore (cpu : Cpu H) (registers : Registers) : Cpu H :=
  { cpu with toRegisters := registers }

def current? (cpu : Cpu H) : Option Instruction := cpu.program.instruction? cpu.programCounter

/-- Whether the program counter is past the last instruction. -/
def isHalted (cpu : Cpu H) : Bool := cpu.program.size ≤ cpu.programCounter

/-- Whether steps have no effect for the time being. -/
def isSuspended (cpu : Cpu H) : Bool := !cpu.running || cpu.blocked || cpu.waitingForInput

def valueOf (cpu : Cpu H) (name : String) : Except Fault Int32 :=
  (Operand.direct name).resolve cpu.data

def withoutEffects (cpu : Cpu H) : Cpu H := { cpu with effects := [] }

/-- Hands a syscall to the handler, if there is one. -/
def call [SyscallHandler H] (cpu : Cpu H) (code : Int32) : Cpu H :=
  match cpu.handler with
  | none => cpu
  | some handler =>
    let (reply, handler) := serve handler
      ⟨code, cpu.accumulator, cpu.programCounter, cpu.data, cpu.waitingForInput⟩
    { cpu with
      accumulator := reply.accumulator
      waitingForInput := reply.waitingForInput
      handler := some handler
      effects := cpu.effects ++ reply.effects }

def next (cpu : Cpu H) : Cpu H := { cpu with programCounter := cpu.programCounter + 1 }

/-- Executes one instruction. -/
def execute [SyscallHandler H] (cpu : Cpu H) : Instruction → Except Fault (Cpu H)
  | .arithmetic operation operand => do
    let value ← operand.resolve cpu.data
    let accumulator ← operation.apply cpu.accumulator value
    return { cpu with accumulator }.next
  | .load operand => do
    let accumulator ← operand.resolve cpu.data
    return { cpu with accumulator }.next
  | .store operand => do
    let name ← operand.target
    return { cpu with data := cpu.data.insert name cpu.accumulator }.next
  | .branch condition label =>
    if condition.holds cpu.accumulator then do
      let programCounter ← cpu.program.target condition label
      return { cpu with programCounter }
    else .ok cpu.next
  | .syscall operand => do
    let code ← operand.code
    return (cpu.call code).next
  | .unknown opcode => .error (.unknownInstruction opcode)

/-- Executes the current instruction and tells whether one was executed. Past the last instruction
the processor stops. -/
def step [SyscallHandler H] (cpu : Cpu H) : Except Fault Bool × Cpu H :=
  if cpu.isSuspended then (.ok false, cpu)
  else
    match cpu.current? with
    | none => (.ok false, { cpu with running := false })
    | some instruction =>
      match cpu.execute instruction with
      | .ok after => (.ok true, after)
      | .error fault => (.error fault, cpu)

/-- The input that calls the handler besides being read. -/
def sentinel : String := "0101"

/-- The code of the call that the sentinel makes. -/
def sentinelCode : Int32 := -1

/-- Gives a text to a processor that waits for input, and tells whether it waited. The trimmed
text must be a 32-bit integer. -/
def supply [SyscallHandler H] (cpu : Cpu H) (text : String) : Except Fault Bool × Cpu H :=
  if cpu.waitingForInput then
    let input := Text.trim text.toList
    match Text.int32? input with
    | none => (.error (.invalidInput (String.ofList input)), cpu)
    | some accumulator =>
      let read := { cpu with accumulator, waitingForInput := false }
      (.ok true, if input = sentinel.toList then read.call sentinelCode else read)
  else (.ok false, cpu)

/-- Steps until one executes nothing or fails, at most `limit` times. The result counts the
instructions executed and holds the last answer, or `none` where the limit was reached. -/
def run [SyscallHandler H] : Nat → Cpu H → Nat × Option (Except Fault Bool) × Cpu H
  | 0, cpu => (0, none, cpu)
  | limit + 1, cpu =>
    match cpu.step with
    | (.ok true, after) =>
      let (count, answer, last) := run limit after
      (count + 1, answer, last)
    | (answer, after) => (0, some answer, after)

end Cpu

end Timeslice
