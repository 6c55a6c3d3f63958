import Timeslice.Proofs.Machine.Stimuli
import Timeslice.Services

/-! # What names stand for

Of all that can happen to a processor only one kind of instruction writes data: the one that stores
the accumulator under a name. So a name stands for what was stored under it last, or else for the
value that the program gives it, and once it stands for something it always will.
-/

namespace Timeslice

namespace Instruction

def reads? : Instruction → Option String
  | arithmetic _ (.direct name) | load (.direct name) => some name
  | _ => none

def stores? : Instruction → Option String
  | store (.direct name) => some name
  | _ => none

end Instruction

namespace Cpu

variable {H : Type}

theorem valueOf_eq (cpu : Cpu H) (name : String) :
    cpu.valueOf name = match cpu.data.get? name with
      | some value => .ok value
      | none => .error (.undefinedVariable name) := rfl

variable [SyscallHandler H]

/-- What a processor writes to its data in reaction to a stimulus, as a name and its value. -/
def write? (cpu : Cpu H) : Stimulus → Option (String × Int32)
  | .step =>
    match cpu.step with
    | (.ok true, _) =>
      (cpu.current?.bind Instruction.stores?).map fun name => (name, cpu.accumulator)
    | _ => none
  | .input _ => none

/-- What a processor writes to its data while it reacts to stimuli, latest first. -/
def writes : Cpu H → List Stimulus → List (String × Int32)
  | _, [] => []
  | cpu, stimulus :: rest => writes (cpu.react stimulus).2 rest ++ (cpu.write? stimulus).toList

/-- An instruction that is executed writes what it stores, and no other data. -/
theorem Executes.data {c d : Cpu H} {instruction : Instruction} (h : c.Executes instruction d) :
    d.data = match instruction.stores? with
      | some name => c.data.insert name c.accumulator
      | none => c.data := by
  cases h with
  | computed resolved applied => rfl
  | loaded resolved => rfl
  | stored name => rfl
  | branched holds found => rfl
  | passed fails => rfl
  | called code =>
      obtain ⟨_, _, _, _, called⟩ := c.exists_call_eq code
      rw [called]
      rfl

theorem data_react (cpu : Cpu H) (stimulus : Stimulus) :
    (cpu.react stimulus).2.data = match cpu.write? stimulus with
      | some (name, value) => cpu.data.insert name value
      | none => cpu.data := by
  cases stimulus with
  | input text =>
      obtain ⟨_, _, _, _, supplied⟩ := cpu.exists_supply_eq text
      simp only [react, supplied, write?]
  | step =>
      rcases stepped : cpu.step with ⟨answer, after⟩
      simp only [react, stepped, write?]
      cases steps_of_step stepped with
      | held suspended => rfl
      | ended awake past => rfl
      | failed awake current refused => rfl
      | @executed awake instruction after current done executes =>
          rw [executes.data, current, Option.bind_some]
          cases instruction.stores? <;> rfl

theorem get?_data_react (cpu : Cpu H) (stimulus : Stimulus) (name : String) :
    (cpu.react stimulus).2.data.get? name =
      ((cpu.write? stimulus).toList.lookup name).or (cpu.data.get? name) := by
  rw [data_react]
  cases cpu.write? stimulus with
  | none => rfl
  | some written =>
      simp only [Store.get?_insert, Option.toList_some, Store.lookup_entry]
      split <;> rfl

/-- The data after stimuli are what was written last, or else what was there before. -/
theorem get?_data_after (cpu : Cpu H) (stimuli : List Stimulus) (name : String) :
    (cpu.after stimuli).data.get? name =
      ((cpu.writes stimuli).lookup name).or (cpu.data.get? name) := by
  induction stimuli generalizing cpu with
  | nil => rfl
  | cons stimulus rest ih =>
      calc ((cpu.react stimulus).2.after rest).data.get? name
          = (((cpu.react stimulus).2.writes rest).lookup name).or
              ((cpu.react stimulus).2.data.get? name) := ih _
        _ = ((cpu.writes (stimulus :: rest)).lookup name).or (cpu.data.get? name) := by
            rw [get?_data_react, writes, List.lookup_append, Option.or_assoc]

theorem writes_append (cpu : Cpu H) (stimuli more : List Stimulus) :
    cpu.writes (stimuli ++ more) = (cpu.after stimuli).writes more ++ cpu.writes stimuli := by
  induction stimuli generalizing cpu with
  | nil => rw [List.nil_append, writes, List.append_nil, after, List.foldl_nil]
  | cons stimulus rest ih =>
      rw [List.cons_append, writes, ih, writes, List.append_assoc]
      rfl

/-! ## Reading -/

theorem apply_ne_undefinedVariable (operation : Arithmetic) (a b : Int32) (name : String) :
    operation.apply a b ≠ .error (.undefinedVariable name) := by
  cases operation with
  | div =>
      simp only [Arithmetic.apply]
      split <;> simp
  | _ => simp [Arithmetic.apply]

/-- An instruction that reads a name misses it exactly where it stands for nothing, and misses no
other. -/
theorem execute_misses_iff (cpu : Cpu H) {instruction : Instruction} {name : String}
    (reads : instruction.reads? = some name) (missing : String) :
    cpu.execute instruction = .error (.undefinedVariable missing) ↔
      missing = name ∧ cpu.data.get? name = none := by
  cases instruction with
  | arithmetic operation operand =>
      cases operand with
      | direct other =>
          cases reads
          cases found : cpu.data.get? name with
          | none => simp [execute, Operand.resolve, found, bind, Except.bind, eq_comm]
          | some value =>
              have applied := apply_ne_undefinedVariable operation cpu.accumulator value missing
              cases result : operation.apply cpu.accumulator value with
              | ok accumulator =>
                  simp [execute, Operand.resolve, found, result, bind, Except.bind, pure,
                    Except.pure]
              | error fault =>
                  rw [result] at applied
                  simpa [execute, Operand.resolve, found, result, bind, Except.bind] using applied
      | _ => contradiction
  | load operand =>
      cases operand with
      | direct other =>
          cases reads
          cases found : cpu.data.get? name with
          | none => simp [execute, Operand.resolve, found, bind, Except.bind, eq_comm]
          | some value =>
              simp [execute, Operand.resolve, found, bind, Except.bind, pure, Except.pure]
      | _ => contradiction
  | _ => contradiction

/-- Whatever a processor is made to do from the start of a program on, with any handler, a name
stands for what was stored under it last, or else for the value that the program gives it, or else
for nothing. Once it stands for something it always will, and an instruction that reads it misses it
exactly where it was neither stored nor given a value. -/
theorem valueOf_last_stored (program : Program) (handler : Option H) (stimuli : List Stimulus)
    (name : String) :
    let start := fresh program handler
    let cpu := start.after stimuli
    (cpu.valueOf name = match ((start.writes stimuli).lookup name).or (program.data.get? name) with
      | some value => .ok value
      | none => .error (.undefinedVariable name)) ∧
    (∀ value, cpu.valueOf name = .ok value →
      ∀ more, ∃ later, (start.after (stimuli ++ more)).valueOf name = .ok later) ∧
    ∀ instruction, cpu.current? = some instruction → instruction.reads? = some name →
      ¬ cpu.isSuspended → ∀ missing, cpu.step.1 = .error (.undefinedVariable missing) ↔
        missing = name ∧ (start.writes stimuli).lookup name = none ∧
          program.data.get? name = none := by
  intro start cpu
  have known (stimuli : List Stimulus) : (start.after stimuli).data.get? name =
      ((start.writes stimuli).lookup name).or (program.data.get? name) :=
    start.get?_data_after stimuli name
  refine ⟨?_, ?_, ?_⟩
  · rw [valueOf_eq, known]
  · intro value defined more
    rw [valueOf_eq, known] at defined
    rw [valueOf_eq, known, writes_append, List.lookup_append, Option.or_assoc]
    cases ((start.after stimuli).writes more).lookup name with
    | some later => exact ⟨later, rfl⟩
    | none => exact ⟨value, defined⟩
  · intro instruction current reads awake missing
    have misses := cpu.execute_misses_iff reads missing
    rw [known, Option.or_eq_none_iff] at misses
    rw [step_of_current awake current, ← misses]
    cases cpu.execute instruction <;> simp [Except.map]

def overwriting : Program where
  instructions := [.load (.immediate 4), .store (.direct "x"), .syscall (.immediate 2),
    .store (.direct "x"), .arithmetic .add (.direct "z")]
  labels := []
  data := .ofList [("x", 1), ("y", 2)]

theorem valueOf_last_stored_overwriting :
    let start : Cpu Services := fresh overwriting (some ⟨.standard⟩)
    let stimuli := [.step, .step, .step, .input "11", .step]
    start.writes stimuli = [("x", 11), ("x", 4)] ∧
      (start.after stimuli).valueOf "x" = .ok 11 ∧ (start.after stimuli).valueOf "y" = .ok 2 ∧
      (∀ more, ∃ later, (start.after (stimuli ++ more)).valueOf "y" = .ok later) ∧
      (start.after stimuli).step.1 = .error (.undefinedVariable "z") := by
  intro start stimuli
  have holds := valueOf_last_stored overwriting (some (⟨.standard⟩ : Services)) stimuli
  rw [show fresh overwriting _ = start from rfl] at holds
  have x_known : ((start.writes stimuli).lookup "x").or (overwriting.data.get? "x") = some 11 := by
    decide +kernel
  have y_known : ((start.writes stimuli).lookup "y").or (overwriting.data.get? "y") = some 2 := by
    decide +kernel
  have current : (start.after stimuli).current? = some (.arithmetic .add (.direct "z")) := by
    decide +kernel
  have awake : ¬ (start.after stimuli).isSuspended := by decide +kernel
  obtain ⟨x, -, -⟩ := holds "x"
  obtain ⟨y, lasting, -⟩ := holds "y"
  obtain ⟨-, -, misses⟩ := holds "z"
  rw [x_known] at x
  rw [y_known] at y
  refine ⟨by decide +kernel, x, y, lasting 2 y, ?_⟩
  exact (misses _ current rfl awake "z").2 ⟨rfl, by decide +kernel, by decide +kernel⟩

end Cpu

end Timeslice
