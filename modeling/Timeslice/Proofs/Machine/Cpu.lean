import Timeslice.Services

/-! # What steps and input do to a processor

An instruction makes a call or writes three registers, and input writes one and may make a call.
Neither touches the registers that keep a processor from running. Of the standard services, only
the one for reading makes a processor wait.
-/

namespace Timeslice

def Effect.texts (effects : List Effect) : List String :=
  effects.filterMap fun
    | .output text => some text
    | _ => none

namespace Cpu

variable {H : Type}

def texts (cpu : Cpu H) : List String := Effect.texts cpu.effects

/-- The processor as if it had never been stopped or blocked. -/
def freed (cpu : Cpu H) : Cpu H := { cpu with running := true, blocked := false, blockTime := 0 }

theorem withoutEffects_of_nil {cpu : Cpu H} (clean : cpu.effects = []) :
    cpu.withoutEffects = cpu := by
  rw [withoutEffects, ← clean]

/-- `c.Continues d`: what turned `c` into `d` neither blocked nor freed it, and stopped it only past
its last instruction. -/
structure Continues (c d : Cpu H) : Prop where
  blocked : d.blocked = c.blocked
  running : c.running ∨ c.isHalted → d.running ∨ d.isHalted

theorem Continues.refl (cpu : Cpu H) : cpu.Continues cpu := ⟨rfl, fun goes => goes⟩

theorem Continues.trans {b c d : Cpu H} (h : b.Continues c) (h' : c.Continues d) :
    b.Continues d :=
  ⟨h'.blocked.trans h.blocked, fun goes => h'.running (h.running goes)⟩

theorem isHalted_of_current? {cpu : Cpu H} (none_there : cpu.current? = none) : cpu.isHalted :=
  decide_eq_true (List.getElem?_eq_none_iff.1 none_there)

theorem programCounter_lt_of_current? {cpu : Cpu H} {instruction : Instruction}
    (current : cpu.current? = some instruction) : cpu.programCounter < cpu.program.size :=
  (List.getElem?_eq_some_iff.1 current).1

theorem not_isHalted_of_current? {cpu : Cpu H} {instruction : Instruction}
    (current : cpu.current? = some instruction) : ¬ cpu.isHalted := fun halted =>
  absurd (of_decide_eq_true halted) (Nat.not_le.2 (programCounter_lt_of_current? current))

theorem waitingForInput_eq_of_freed {c d : Cpu H} (h : c.freed = d.freed) :
    c.waitingForInput = d.waitingForInput := congrArg (fun cpu => cpu.waitingForInput) h

variable [SyscallHandler H]

theorem step_eq_ok_true {cpu after : Cpu H} :
    cpu.step = (.ok true, after) ↔
      ¬ cpu.isSuspended ∧ ∃ instruction, cpu.current? = some instruction ∧
        cpu.execute instruction = .ok after := by
  unfold step
  cases cpu.isSuspended with
  | true => simp
  | false =>
      cases current : cpu.current? with
      | none => simp
      | some instruction =>
          cases executed : cpu.execute instruction with
          | error fault => simp [executed]
          | ok last => simp [executed]

/-- A step that executes nothing stops the processor at most. -/
theorem freed_of_idle_step {cpu after : Cpu H}
    (h : cpu.step = (.ok false, after)) : after.freed = cpu.freed := by
  unfold step at h
  split at h
  · cases h
    rfl
  · split at h
    · cases h
      rfl
    · split at h
      · simp at h
      · simp at h

theorem eq_ok_of_bind {ε α β : Type} {x : Except ε α} {f : α → Except ε β} {b : β}
    (h : x >>= f = .ok b) : ∃ a, x = .ok a ∧ f a = .ok b := by
  cases x with
  | error e => contradiction
  | ok a => exact ⟨a, rfl, h⟩

/-- An instruction that is executed makes a call, or writes three registers. -/
theorem execute_cases {cpu after : Cpu H} {instruction : Instruction}
    (executed : cpu.execute instruction = .ok after) :
    (∃ operand code, instruction = .syscall operand ∧ operand.code = .ok code ∧
      after = (cpu.call code).next) ∨
    ∃ accumulator programCounter data,
      after = { cpu with accumulator, programCounter, data } := by
  cases instruction with
  | arithmetic operation operand =>
      obtain ⟨value, -, rest⟩ := eq_ok_of_bind executed
      obtain ⟨accumulator, -, last⟩ := eq_ok_of_bind rest
      cases last
      exact .inr ⟨_, _, _, rfl⟩
  | load operand =>
      obtain ⟨accumulator, -, last⟩ := eq_ok_of_bind executed
      cases last
      exact .inr ⟨_, _, _, rfl⟩
  | store operand =>
      obtain ⟨name, -, last⟩ := eq_ok_of_bind executed
      cases last
      exact .inr ⟨_, _, _, rfl⟩
  | branch condition label =>
      simp only [execute] at executed
      split at executed
      · obtain ⟨programCounter, -, last⟩ := eq_ok_of_bind executed
        cases last
        exact .inr ⟨_, _, _, rfl⟩
      · cases executed
        exact .inr ⟨_, _, _, rfl⟩
  | syscall operand =>
      obtain ⟨code, known, last⟩ := eq_ok_of_bind executed
      cases last
      exact .inl ⟨operand, code, rfl, known, rfl⟩
  | unknown opcode => contradiction

def read (cpu : Cpu H) (text : String) (number : Int32) : Cpu H :=
  let after := { cpu with accumulator := number, waitingForInput := false }
  if Text.trim text.toList = sentinel.toList then after.call sentinelCode else after

theorem supply_eq_ok_true {cpu after : Cpu H} {text : String} :
    cpu.supply text = (.ok true, after) ↔
      cpu.waitingForInput ∧ ∃ number, Text.int32? (Text.trim text.toList) = some number ∧
        after = cpu.read text number := by
  unfold supply
  cases cpu.waitingForInput with
  | false => simp
  | true =>
      cases parsed : Text.int32? (Text.trim text.toList) with
      | none => simp [parsed]
      | some number => simp [parsed, read, eq_comm]

theorem frame_call (cpu : Cpu H) (code : Int32) :
    (cpu.call code).running = cpu.running ∧ (cpu.call code).blocked = cpu.blocked := by
  unfold call
  split <;> exact ⟨rfl, rfl⟩

theorem frame_read (cpu : Cpu H) (text : String) (number : Int32) :
    (cpu.read text number).running = cpu.running ∧
      (cpu.read text number).blocked = cpu.blocked := by
  unfold read
  split
  · exact frame_call _ _
  · exact ⟨rfl, rfl⟩

theorem frame_execute {cpu after : Cpu H} {instruction : Instruction}
    (executed : cpu.execute instruction = .ok after) :
    after.running = cpu.running ∧ after.blocked = cpu.blocked := by
  rcases execute_cases executed with ⟨operand, code, -, -, rfl⟩ | ⟨_, _, _, rfl⟩
  · exact frame_call cpu code
  · exact ⟨rfl, rfl⟩

theorem continues_step {cpu after : Cpu H} {answer : Except Fault Bool}
    (stepped : cpu.step = (answer, after)) : cpu.Continues after := by
  unfold step at stepped
  split at stepped
  · cases stepped
    exact .refl cpu
  · rename_i awake
    split at stepped
    · rename_i none_there
      cases stepped
      exact ⟨rfl, fun _ => .inr (isHalted_of_current? none_there)⟩
    · split at stepped
      · rename_i executed
        cases stepped
        obtain ⟨running, blocked⟩ := frame_execute executed
        refine ⟨blocked, fun _ => .inl ?_⟩
        rw [running]
        simp only [isSuspended, Bool.or_eq_true, Bool.not_eq_true', not_or] at awake
        exact eq_true_of_ne_false awake.1.1
      · cases stepped
        exact .refl cpu

theorem continues_call (cpu : Cpu H) (code : Int32) : cpu.Continues (cpu.call code) := by
  unfold call
  split <;> exact ⟨rfl, fun goes => goes⟩

theorem continues_read (cpu : Cpu H) (text : String) (number : Int32) :
    cpu.Continues (cpu.read text number) := by
  have given : cpu.Continues { cpu with accumulator := number, waitingForInput := false } :=
    ⟨rfl, fun goes => goes⟩
  unfold read
  split
  · exact given.trans (continues_call _ _)
  · exact given

end Cpu

/-! ## Waiting for input -/

def Instruction.isRead (instruction : Instruction) : Bool :=
  instruction = .syscall (.immediate Services.readCode)

namespace Cpu

theorem waitingForInput_call (cpu : Cpu Services) {code : Int32}
    (other : code ≠ Services.readCode) :
    (cpu.call code).waitingForInput = cpu.waitingForInput := by
  unfold call
  split
  · rfl
  · simp only [serve, Services.answer, other, if_false, Call.ignored]
    split
    · rfl
    · split
      · rfl
      · split <;> rfl

/-- An instruction that does not read leaves the processor waiting or not as it was. -/
theorem waitingForInput_execute {cpu after : Cpu Services} {instruction : Instruction}
    (executed : cpu.execute instruction = .ok after) (other : ¬ instruction.isRead) :
    after.waitingForInput = cpu.waitingForInput := by
  rcases execute_cases executed with ⟨operand, code, rfl, known, rfl⟩ | ⟨_, _, _, rfl⟩
  · refine cpu.waitingForInput_call fun read => other ?_
    cases operand with
    | immediate value =>
        cases known
        rw [read]
        decide
    | direct name => contradiction
    | malformed text => contradiction
    | missing => contradiction
  · rfl

end Cpu

end Timeslice
