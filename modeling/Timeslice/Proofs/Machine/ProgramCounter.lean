import Timeslice.Proofs.Machine.Forward
import Timeslice.Proofs.Machine.Grammar

/-! # The program counter

A label is declared where the code read so far ends, and lines read later only add to the code. So
every label of a loaded program stands before one of its instructions or at its end, and a processor
that goes on by one from instructions and branches to labels never gets further than the end.
Whatever the program and the counter are, a step asks for the place after the current one only where
there is an instruction, so counting in words cannot overflow.
-/

namespace Timeslice

namespace Program

/-! ## Labels in the course of loading -/

def Anchored (p : Program) : Prop := ∀ name index, p.label? name = some index → index ≤ p.size

theorem anchored_empty : empty.Anchored := fun _ _ absent => by contradiction

/-- `p.Grows q`: `q` has at least as much code as `p`, and no label further on if `p` has none. -/
structure Grows (p q : Program) : Prop where
  size_le : p.size ≤ q.size
  anchored : p.Anchored → q.Anchored

namespace Grows

variable {p q r : Program}

theorem refl (p : Program) : p.Grows p := ⟨Nat.le_refl _, id⟩

theorem trans (h : p.Grows q) (h' : q.Grows r) : p.Grows r :=
  ⟨h.size_le.trans h'.size_le, h'.anchored ∘ h.anchored⟩

theorem addCode (p : Program) (line : List Char) : p.Grows (p.addCode line) := by
  have size_le : p.size ≤ (p.addCode line).size := by
    rw [size, size, p.instructions_addCode (line, 0), List.length_append]
    exact Nat.le_add_right _ _
  refine ⟨size_le, fun anchored name index found => Nat.le_trans ?_ size_le⟩
  rw [p.label?_addCode (line, 0)] at found
  split at found
  · -- The label of this line stands where the code ended before it.
    cases found
    exact Nat.le_refl _
  · exact anchored name index found

theorem addData {number : Nat} {line : List Char} (added : p.addData number line = .ok q) :
    p.Grows q := by
  unfold Program.addData at added
  split at added
  · split at added
    · cases added
      exact ⟨Nat.le_refl _, id⟩
    · contradiction
  · cases added
    exact refl p

theorem read {loading next : Loading} {number : Nat} {line : List Char}
    (read : loading.read number line = .ok next) : loading.program.Grows next.program := by
  unfold Loading.read at read
  split at read
  · cases read
    exact refl _
  · split at read
    · cases read
      exact refl _
    · split at read
      · cases read
        exact refl _
      · cases read
        exact addCode _ line
      · obtain ⟨program, added, last⟩ := Cpu.eq_ok_of_bind read
        cases last
        exact addData added

/-- Lines that load have loaded up to any of them, and the program grows from there. -/
theorem readAll {before more : List Line} {later : Loading}
    (read : readAll (before ++ more) = .ok later) :
    ∃ earlier, Program.readAll before = .ok earlier ∧ earlier.program.Grows later.program := by
  induction more using List.reverseRecOn generalizing later with
  | nil =>
      rw [List.append_nil] at read
      exact ⟨later, read, refl _⟩
  | append_singleton more line ih =>
      rw [← List.append_assoc, readAll_concat] at read
      obtain ⟨middle, first, last⟩ := Cpu.eq_ok_of_bind read
      obtain ⟨earlier, start, grows⟩ := ih first
      exact ⟨earlier, start, grows.trans (.read last)⟩

end Grows

variable {lines : List Line} {loading : Loading}

theorem anchored_of_readAll (read : readAll lines = .ok loading) : loading.program.Anchored := by
  obtain ⟨start, none_read, grows⟩ := @Grows.readAll [] lines loading read
  cases none_read
  exact grows.anchored anchored_empty

theorem exists_readAll_take (read : readAll lines = .ok loading) {m n : Nat} (before : m ≤ n) :
    ∃ earlier later, readAll (lines.take m) = .ok earlier ∧ readAll (lines.take n) = .ok later ∧
      earlier.program.Grows later.program ∧ later.program.Grows loading.program := by
  rw [← List.take_append_drop n lines] at read
  obtain ⟨later, upTo, rest⟩ := Grows.readAll read
  have split := List.take_append_drop m (lines.take n)
  rw [List.take_take, Nat.min_eq_left before] at split
  obtain ⟨earlier, first, grows⟩ := Grows.readAll (split.symm ▸ upTo)
  exact ⟨earlier, later, first, upTo, grows, rest⟩

theorem exists_readAll_of_parse {text : String} {program : Program}
    (parsed : parse text = .ok program) :
    ∃ loading, readAll (numberedLines text) = .ok loading ∧ program = loading.program := by
  obtain ⟨loading, read, last⟩ := Cpu.eq_ok_of_bind parsed
  cases last
  exact ⟨loading, read, rfl⟩

end Program

namespace Cpu

variable {H : Type} {cpu : Cpu H}

structure Bounded (cpu : Cpu H) : Prop where
  anchored : cpu.program.Anchored
  programCounter_le : cpu.programCounter ≤ cpu.program.size

theorem Bounded.isHalted_iff (h : cpu.Bounded) :
    cpu.isHalted ↔ cpu.programCounter = cpu.program.size := by
  rw [isHalted, decide_eq_true_iff, Nat.le_antisymm_iff]
  exact (and_iff_right h.programCounter_le).symm

def advance (successor? : Nat → Option Nat) (cpu : Cpu H) : ExceptT Fault Option (Cpu H) := do
  let programCounter ← successor? cpu.programCounter
  return { cpu with programCounter }

theorem run_advance {successor? : Nat → Option Nat} (cpu : Cpu H)
    (fits : successor? cpu.programCounter = some (cpu.programCounter + 1)) :
    (cpu.advance successor?).run = some (.ok cpu.next) := by
  rw [advance, fits]
  rfl

variable [SyscallHandler H]

/-! ## Stimuli -/

theorem programCounter_lt_of_step (executed : cpu.step.1 = .ok true) :
    cpu.programCounter < cpu.program.size := by
  have stepped : cpu.step = (.ok true, cpu.step.2) := Prod.ext executed rfl
  obtain ⟨-, instruction, current, -⟩ := step_eq_ok_true.1 stepped
  exact programCounter_lt_of_current? current

/-- A step leaves the program counter as it is, or there is an instruction and it goes on by one or
to where the instruction branches. -/
theorem programCounter_step (cpu : Cpu H) :
    cpu.step.2.programCounter = cpu.programCounter ∨
      cpu.programCounter < cpu.program.size ∧
        (cpu.step.2.programCounter = cpu.programCounter + 1 ∨
          ∃ condition label, cpu.current? = some (.branch condition (some label)) ∧
            cpu.program.label? label = some cpu.step.2.programCounter) := by
  rcases stepped : cpu.step with ⟨answer, after⟩
  cases steps_of_step stepped with
  | held suspended => exact .inl rfl
  | ended awake past => exact .inl rfl
  | failed awake current refused => exact .inl rfl
  | executed awake current done executes =>
      refine .inr ⟨programCounter_lt_of_current? current, ?_⟩
      rcases executes.programCounter with next | ⟨condition, label, rfl, found⟩
      · exact .inl next
      · exact .inr ⟨condition, label, current, found⟩

theorem program_react (cpu : Cpu H) (stimulus : Stimulus) :
    (cpu.react stimulus).2.program = cpu.program := by
  cases stimulus with
  | input text =>
      obtain ⟨_, _, _, _, supplied⟩ := cpu.exists_supply_eq text
      rw [react, supplied]
  | step =>
      rcases stepped : cpu.step with ⟨answer, after⟩
      simp only [react, stepped]
      cases steps_of_step stepped with
      | executed awake current done executes => exact executes.program
      | _ => rfl

theorem Bounded.react (h : cpu.Bounded) (stimulus : Stimulus) : (cpu.react stimulus).2.Bounded := by
  have program := cpu.program_react stimulus
  refine ⟨program ▸ h.anchored, ?_⟩
  rw [program]
  cases stimulus with
  | input text =>
      obtain ⟨_, _, _, _, supplied⟩ := cpu.exists_supply_eq text
      rw [Cpu.react, supplied]
      exact h.programCounter_le
  | step =>
      show cpu.step.2.programCounter ≤ _
      rcases cpu.programCounter_step with same | ⟨ahead, next | ⟨_, label, -, found⟩⟩
      · exact same ▸ h.programCounter_le
      · exact next ▸ ahead
      · exact h.anchored label _ found

theorem Bounded.after (h : cpu.Bounded) (stimuli : List Stimulus) :
    (cpu.after stimuli).Bounded ∧ (cpu.after stimuli).program = cpu.program := by
  induction stimuli generalizing cpu with
  | nil => exact ⟨h, rfl⟩
  | cons stimulus rest ih =>
      obtain ⟨bounded, program⟩ := ih (h.react stimulus)
      exact ⟨bounded, program.trans (cpu.program_react stimulus)⟩

/-! ## Counting that can fail -/

section Counting

variable (successor? : Nat → Option Nat)

/-- Executes one instruction, and comes to nothing where it goes on to a place that there is not. -/
def executeBy (cpu : Cpu H) : Instruction → ExceptT Fault Option (Cpu H)
  | .arithmetic operation operand => do
    let value ← operand.resolve cpu.data
    let accumulator ← operation.apply cpu.accumulator value
    { cpu with accumulator }.advance successor?
  | .load operand => do
    let accumulator ← operand.resolve cpu.data
    { cpu with accumulator }.advance successor?
  | .store operand => do
    let name ← operand.target
    { cpu with data := cpu.data.insert name cpu.accumulator }.advance successor?
  | .branch condition label =>
    if condition.holds cpu.accumulator then do
      let programCounter ← cpu.program.target condition label
      return { cpu with programCounter }
    else cpu.advance successor?
  | .syscall operand => do
    let code ← operand.code
    (cpu.call code).advance successor?
  | .unknown opcode => throw (.unknownInstruction opcode)

def stepBy (cpu : Cpu H) : Option (Except Fault Bool × Cpu H) :=
  if cpu.isSuspended then some (.ok false, cpu)
  else
    match cpu.current? with
    | none => some (.ok false, { cpu with running := false })
    | some instruction => do
      match ← (cpu.executeBy successor? instruction).run with
      | .ok after => return (.ok true, after)
      | .error fault => return (.error fault, cpu)

variable {successor?}

/-- What follows a check comes to something if it does for whatever passes. -/
theorem run_bind_check {α β : Type} {check : Except Fault α} {f : α → ExceptT Fault Option β}
    {g : α → Except Fault β} (rest : ∀ a, (f a).run = some (g a)) :
    (liftM check >>= f).run = some (check >>= g) := by
  cases check with
  | error fault => rfl
  | ok a => exact rest a

theorem run_executeBy (fits : successor? cpu.programCounter = some (cpu.programCounter + 1))
    (instruction : Instruction) :
    (cpu.executeBy successor? instruction).run = some (cpu.execute instruction) := by
  cases instruction with
  | arithmetic operation operand =>
      exact run_bind_check fun value => run_bind_check fun accumulator =>
        run_advance { cpu with accumulator } fits
  | load operand =>
      exact run_bind_check fun accumulator => run_advance { cpu with accumulator } fits
  | store operand =>
      exact run_bind_check fun name =>
        run_advance { cpu with data := cpu.data.insert name cpu.accumulator } fits
  | branch condition label =>
      simp only [executeBy, execute]
      split
      · exact run_bind_check fun programCounter => rfl
      · exact run_advance cpu fits
  | syscall operand =>
      refine run_bind_check fun code => run_advance _ ?_
      obtain ⟨_, _, _, _, called⟩ := cpu.exists_call_eq code
      rw [called]
      exact fits
  | unknown opcode => rfl

/-- A step is the same for any way of counting that is right within the program. -/
theorem stepBy_of_successor
    (fits : ∀ place < cpu.program.size, successor? place = some (place + 1)) :
    cpu.stepBy successor? = some cpu.step := by
  unfold stepBy step
  split
  · rfl
  · cases current : cpu.current? with
    | none => rfl
    | some instruction =>
        have ahead := programCounter_lt_of_current? current
        simp only [run_executeBy (fits _ ahead)]
        cases cpu.execute instruction <;> rfl

end Counting

/-- Every label of a text that loads is the index of an instruction or the end of the code, and the
code only grows from line to line. So the program counter of a processor that starts with the
program, whatever it reacts to and with whatever handler, is in the program or at its end; the
processor is halted just where it is at the end, and executes only before it. Of processors in any
state at all, with the program counter as large as it may be, a step leaves it or goes on from an
instruction that is there: it never asks what comes after a place that the program does not have, so
the successor of the program counter is a word if the size of the program is. -/
theorem programCounter_bounded (H : Type) [SyscallHandler H] :
    (∀ text program, Program.parse text = .ok program →
      (∀ name index, program.label? name = some index → index ≤ program.size) ∧
      (∀ m n, m ≤ n → ∃ earlier later,
        Program.readAll ((Program.numberedLines text).take m) = .ok earlier ∧
        Program.readAll ((Program.numberedLines text).take n) = .ok later ∧
        earlier.program.size ≤ later.program.size ∧ later.program.size ≤ program.size) ∧
      ∀ (handler : Option H) (stimuli : List Stimulus),
        let cpu := (fresh program handler).after stimuli
        cpu.programCounter ≤ program.size ∧
          (cpu.isHalted ↔ cpu.programCounter = program.size) ∧
          (cpu.step.1 = .ok true → cpu.programCounter < program.size)) ∧
    ∀ cpu : Cpu H,
      (cpu.step.2.programCounter = cpu.programCounter ∨
        cpu.programCounter < cpu.program.size ∧
          (cpu.step.2.programCounter = cpu.programCounter + 1 ∨
            ∃ condition label, cpu.current? = some (.branch condition (some label)) ∧
              cpu.program.label? label = some cpu.step.2.programCounter)) ∧
      (∀ successor? : Nat → Option Nat,
        (∀ place < cpu.program.size, successor? place = some (place + 1)) →
        cpu.stepBy successor? = some cpu.step) ∧
      (cpu.program.size ≤ Word.limit → cpu.stepBy (Word.sum? · 1) = some cpu.step) := by
  constructor
  · intro text program parsed
    obtain ⟨whole, read, rfl⟩ := Program.exists_readAll_of_parse parsed
    have anchored := Program.anchored_of_readAll read
    refine ⟨anchored, fun m n before => ?_, fun handler stimuli => ?_⟩
    · obtain ⟨earlier, later, first, upTo, grows, rest⟩ := Program.exists_readAll_take read before
      exact ⟨earlier, later, first, upTo, grows.size_le, rest.size_le⟩
    · intro cpu
      have start : (fresh whole.program handler).Bounded := ⟨anchored, Nat.zero_le _⟩
      obtain ⟨bounded, program⟩ := start.after stimuli
      have size : cpu.program.size = whole.program.size := congrArg Program.size program
      rw [← size]
      exact ⟨bounded.programCounter_le, bounded.isHalted_iff, programCounter_lt_of_step⟩
  · intro cpu
    have words (small : cpu.program.size ≤ Word.limit) (place : Nat)
        (inside : place < cpu.program.size) : Word.sum? place 1 = some (place + 1) :=
      Word.sum?_of_le (Nat.le_trans inside small)
    exact ⟨cpu.programCounter_step, fun _ fits => stepBy_of_successor fits,
      fun small => stepBy_of_successor (words small)⟩

def winding : String :=
  ".code\nagain: LOAD #1\nagain: SYSCALL 2\nBRZERO end\nBRANY again\nend:\n.endcode"

theorem programCounter_bounded_winding :
    ∃ program, Program.parse winding = .ok program ∧
      let start : Cpu Services := fresh program (some ⟨.standard⟩)
      let far := { start with programCounter := Word.limit }
      program.label? "again" = some 1 ∧ program.label? "end" = some program.size ∧
        (start.after [.step, .step, .input "5", .step]).programCounter < program.size ∧
        (start.after [.step, .step, .input "0", .step]).isHalted ∧
        far.step.1 = .ok false ∧ far.stepBy (Word.sum? · 1) = some far.step := by
  have parsed : Program.parse winding = .ok ⟨[.load (.immediate 1), .syscall (.immediate 2),
      .branch .zero (some "end"), .branch .always (some "again")],
      [("end", 4), ("again", 1), ("again", 0)], .empty⟩ := by decide +kernel
  obtain ⟨loaded, every⟩ := programCounter_bounded Services
  obtain ⟨-, -, driven⟩ := loaded winding _ parsed
  refine ⟨_, parsed, ?_⟩
  intro start far
  refine ⟨by decide, by decide, ?_, ?_, by decide +kernel, ?_⟩
  · exact (driven (some ⟨.standard⟩) [.step, .step, .input "5", .step]).2.2 (by decide +kernel)
  · exact (driven (some ⟨.standard⟩) [.step, .step, .input "0", .step]).2.1.2 (by decide +kernel)
  · exact (every far).2.2 (by decide +kernel)

end Cpu

end Timeslice
