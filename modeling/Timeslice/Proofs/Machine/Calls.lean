import Timeslice.Proofs.Machine.Session

/-! # What instructions leave for the owner

Of all instructions only three calls leave effects with the standard services: one greets, one
prints and blocks, and one ends the process. Reading a number leaves effects if it calls, and the
only effect that it can leave is the greeting.
-/

namespace Timeslice

namespace Instruction

def isExit (instruction : Instruction) : Bool :=
  instruction = .syscall (.immediate Services.exitCode)

def speech (accumulator : Int32) (instruction : Instruction) : List String :=
  if instruction = .syscall (.immediate Services.printCode) then [Text.decimal accumulator.toInt]
  else if instruction = .syscall (.immediate Cpu.sentinelCode) then [Services.greeting]
  else []

/-- `Leaves accumulator instruction effects`: executed with an accumulator, an instruction can leave
the effects. -/
inductive Leaves (accumulator : Int32) : Instruction → List Effect → Prop where
  | greeted : Leaves accumulator (.syscall (.immediate Cpu.sentinelCode))
      [.output Services.greeting]
  | ended : Leaves accumulator (.syscall (.immediate Services.exitCode)) [.exit]
  | printed (ticks : Nat) : Leaves accumulator (.syscall (.immediate Services.printCode))
      [.output (Text.decimal accumulator.toInt), .block ticks]
  | silent {instruction : Instruction} (stays : ¬ instruction.isExit)
      (mute : instruction.speech accumulator = []) : Leaves accumulator instruction []

variable {accumulator : Int32} {instruction : Instruction} {effects : List Effect}

theorem Leaves.texts (leaves : Leaves accumulator instruction effects) :
    Effect.texts effects = instruction.speech accumulator := by
  cases leaves with
  | greeted => rfl
  | ended => rfl
  | printed ticks => rfl
  | silent stays mute => exact mute.symm

end Instruction

namespace Cpu

variable {cpu after : Cpu Services}

theorem leaves_call (handled : cpu.handler.isSome) (clean : cpu.effects = []) (code : Int32) :
    Instruction.Leaves cpu.accumulator (.syscall (.immediate code)) (cpu.call code).effects := by
  obtain ⟨services, hc⟩ := Option.isSome_iff_exists.1 handled
  simp only [call, hc, serve, Services.answer, Call.ignored, clean, List.nil_append]
  split
  · rename_i sentinel
    subst sentinel
    exact .greeted
  · split
    · rename_i exit
      subst exit
      exact .ended
    · split
      · rename_i print
        subst print
        exact .printed _
      · rename_i other noExit noPrint
        have mute : Instruction.Leaves cpu.accumulator (.syscall (.immediate code)) [] :=
          .silent (by simp [Instruction.isExit, noExit])
            (by simp [Instruction.speech, noPrint, other])
        split
        · exact mute
        · exact mute

/-- What an instruction leaves for the owner of its process is its own. -/
theorem leaves_execute {instruction : Instruction} (handled : cpu.handler.isSome)
    (clean : cpu.effects = []) (executed : cpu.execute instruction = .ok after) :
    instruction.Leaves cpu.accumulator after.effects := by
  cases instruction with
  | syscall operand =>
      obtain ⟨code, known, last⟩ := eq_ok_of_bind executed
      cases last
      cases operand with
      | immediate value =>
          cases known
          exact leaves_call handled clean code
      | direct name => contradiction
      | malformed text => contradiction
      | missing => contradiction
  | _ =>
      have unchanged : after.effects = cpu.effects := by
        rcases execute_cases executed with ⟨_, _, call, -⟩ | ⟨_, _, _, rfl⟩
        · contradiction
        · rfl
      rw [unchanged, clean]
      exact .silent (by simp [Instruction.isExit]) (by simp [Instruction.speech])

theorem isSome_handler_execute {instruction : Instruction} (handled : cpu.handler.isSome)
    (executed : cpu.execute instruction = .ok after) : after.handler.isSome := by
  rcases execute_cases executed with ⟨_, code, -, -, rfl⟩ | ⟨_, _, _, rfl⟩
  · exact (isSome_handler_call cpu code).trans handled
  · exact handled

/-! ## Reading a number -/

/-- A text that is no number is refused. -/
theorem supply_of_no_number {H : Type} [SyscallHandler H] {cpu : Cpu H} {text : String}
    (waits : cpu.waitingForInput) (parsed : Text.int32? (Text.trim text.toList) = none) :
    cpu.supply text = (.error (.invalidInput (String.ofList (Text.trim text.toList))), cpu) := by
  simp only [supply, waits, parsed, if_true]

def reception (text : String) : List String :=
  if Text.trim text.toList = sentinel.toList then [Services.greeting] else []

def given (cpu : Cpu Services) (number : Int32) : Cpu Services :=
  { cpu with accumulator := number, waitingForInput := false }

theorem call_sentinelCode (handled : cpu.handler.isSome) :
    cpu.call sentinelCode = { cpu with effects := cpu.effects ++ [.output Services.greeting] } := by
  obtain ⟨services, hc⟩ := Option.isSome_iff_exists.1 handled
  simp only [call, hc, serve, Services.answer, Call.ignored, if_true]

/-- Reading a number leaves the greeting or nothing. -/
theorem read_eq (handled : cpu.handler.isSome) (clean : cpu.effects = []) (text : String)
    (number : Int32) : cpu.read text number =
      { cpu.given number with effects := (reception text).map .output } := by
  have effects : (cpu.given number).effects = [] := clean
  unfold read reception
  split
  · have handled' : (cpu.given number).handler.isSome := handled
    exact (call_sentinelCode handled').trans (by rw [effects]; rfl)
  · exact congrArg (fun effects => { cpu.given number with effects }) effects

end Cpu

end Timeslice
