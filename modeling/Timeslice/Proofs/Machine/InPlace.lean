import Timeslice.Machine.Cpu

/-! # Processors changed in place

`step` and `supply` give back the processor that they were given where they fail. Here both are
routines that assign to the registers of one processor in turn, and a failure undoes nothing. They
come to the same, since a routine makes its checks before its first assignment.
-/

namespace Timeslice

variable {H α β : Type}

/-- What changes a processor in place. A failure keeps the changes made before it. -/
abbrev Routine (H α : Type) := ExceptT Fault (StateM (Cpu H)) α

namespace Routine

def on (routine : Routine H α) (cpu : Cpu H) : Except Fault α × Cpu H := routine.run.run cpu

def check (f : Cpu H → Except Fault α) : Routine H α := fun cpu => (f cpu, cpu)

def assign (f : Cpu H → Cpu H) : Routine H Unit := modify f

theorem on_bind (routine : Routine H α) (rest : α → Routine H β) (cpu : Cpu H) :
    (routine >>= rest).on cpu = match routine.on cpu with
      | (.ok a, after) => (rest a).on after
      | (.error fault, after) => (.error fault, after) := by
  simp only [on, bind, ExceptT.run, ExceptT.bind, ExceptT.mk, StateT.run, StateT.bind]
  cases routine cpu with
  | mk answer after => cases answer <;> rfl

theorem on_check (f : Cpu H → Except Fault α) (cpu : Cpu H) :
    (check f).on cpu = (f cpu, cpu) := rfl

theorem on_assign (f : Cpu H → Cpu H) (cpu : Cpu H) : (assign f).on cpu = (.ok (), f cpu) := rfl

theorem on_get (cpu : Cpu H) : (get : Routine H (Cpu H)).on cpu = (.ok cpu, cpu) := rfl

variable [SyscallHandler H]

def perform : Instruction → Routine H Unit
  | .arithmetic operation operand => do
    let value ← check fun cpu => operand.resolve cpu.data
    let accumulator ← check fun cpu => operation.apply cpu.accumulator value
    assign fun cpu => { cpu with accumulator }
    assign .next
  | .load operand => do
    let accumulator ← check fun cpu => operand.resolve cpu.data
    assign fun cpu => { cpu with accumulator }
    assign .next
  | .store operand => do
    let name ← check fun _ => operand.target
    assign fun cpu => { cpu with data := cpu.data.insert name cpu.accumulator }
    assign .next
  | .branch condition label => do
    let cpu ← get
    if condition.holds cpu.accumulator then
      let programCounter ← check fun cpu => cpu.program.target condition label
      assign fun cpu => { cpu with programCounter }
    else assign .next
  | .syscall operand => do
    let code ← check fun _ => operand.code
    assign (·.call code)
    assign .next
  | .unknown opcode => check fun _ => .error (.unknownInstruction opcode)

def step : Routine H Bool := do
  let cpu ← get
  if cpu.isSuspended then pure false
  else
    match cpu.current? with
    | none => do
      assign fun cpu => { cpu with running := false }
      pure false
    | some instruction => do
      perform instruction
      pure true

def supply (text : String) : Routine H Bool := do
  let cpu ← get
  if cpu.waitingForInput then do
    let input := Text.trim text.toList
    let accumulator ← check fun _ =>
      match Text.int32? input with
      | some number => .ok number
      | none => .error (.invalidInput (String.ofList input))
    assign fun cpu => { cpu with accumulator }
    assign fun cpu => { cpu with waitingForInput := false }
    if input = Cpu.sentinel.toList then assign (·.call Cpu.sentinelCode) else pure ()
    pure true
  else pure false

/-- An instruction that fails has assigned nothing. -/
theorem on_perform (instruction : Instruction) (cpu : Cpu H) :
    (perform instruction).on cpu = match cpu.execute instruction with
      | .ok after => (.ok (), after)
      | .error fault => (.error fault, cpu) := by
  cases instruction with
  | arithmetic operation operand =>
      simp only [perform, on_bind, on_check, on_assign, Cpu.execute]
      cases operand.resolve cpu.data with
      | error fault => rfl
      | ok value =>
          simp only [bind, Except.bind]
          cases operation.apply cpu.accumulator value <;> rfl
  | load operand =>
      simp only [perform, on_bind, on_check, on_assign, Cpu.execute]
      cases operand.resolve cpu.data <;> rfl
  | store operand =>
      simp only [perform, on_bind, on_check, on_assign, Cpu.execute]
      cases operand.target <;> rfl
  | branch condition label =>
      simp only [perform, on_bind, on_get, Cpu.execute]
      split
      · simp only [on_bind, on_check, on_assign]
        cases cpu.program.target condition label <;> rfl
      · rfl
  | syscall operand =>
      simp only [perform, on_bind, on_check, on_assign, Cpu.execute]
      cases operand.code <;> rfl
  | unknown opcode => rfl

theorem on_step (cpu : Cpu H) : step.on cpu = cpu.step := by
  simp only [step, on_bind, on_get, Cpu.step]
  split
  · rfl
  · cases current : cpu.current? with
    | none => rfl
    | some instruction =>
        simp only [on_bind, on_perform]
        cases cpu.execute instruction <;> rfl

theorem on_supply (text : String) (cpu : Cpu H) : (supply text).on cpu = cpu.supply text := by
  simp only [supply, on_bind, on_get, Cpu.supply]
  split
  · simp only [on_bind, on_check, on_assign]
    cases Text.int32? (Text.trim text.toList) with
    | none => rfl
    | some number =>
        simp only
        split <;> rfl
  · rfl

end Routine

end Timeslice
