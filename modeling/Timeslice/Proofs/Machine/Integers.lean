import Timeslice.Proofs.Machine.Forward

/-! # Programs over the integers

Addition, subtraction and multiplication of words are those of integers modulo 2^32. So a program
that calculates with them can be run on integers of any size as well. The processor holds the
residues of what that run holds, however often they are stored and read again, and it fails where
that run fails. A quotient does not follow from residues, and division has a rule of its own.
-/

namespace Timeslice

/-- The instructions that neither divide, branch nor call. -/
inductive Calculation where
  | load (operand : Operand)
  | store (operand : Operand)
  | add (operand : Operand)
  | sub (operand : Operand)
  | mult (operand : Operand)

def Calculation.instruction : Calculation → Instruction
  | load operand => .load operand
  | store operand => .store operand
  | add operand => .arithmetic .add operand
  | sub operand => .arithmetic .sub operand
  | mult operand => .arithmetic .mult operand

/-- What a calculation is carried out on where integers have no bounds. -/
structure Integers where
  accumulator : Int
  programCounter : Nat
  data : String → Option Int

namespace Integers

def start (program : Program) : Integers :=
  ⟨0, 0, fun name => (program.data.get? name).map (·.toInt)⟩

def resolve (s : Integers) : Operand → Except Fault Int
  | .immediate value => .ok value.toInt
  | .direct name =>
    match s.data name with
    | some value => .ok value
    | none => .error (.undefinedVariable name)
  | .malformed text => .error (.invalidLiteral text)
  | .missing => .error (.missingOperand "operand")

def next (s : Integers) : Integers := { s with programCounter := s.programCounter + 1 }

def execute (s : Integers) : Calculation → Except Fault Integers
  | .load operand => do
    let accumulator ← s.resolve operand
    return { s with accumulator }.next
  | .store operand => do
    let name ← operand.target
    return { s with data := fun key => if key = name then some s.accumulator else s.data key }.next
  | .add operand => do
    let value ← s.resolve operand
    return { s with accumulator := s.accumulator + value }.next
  | .sub operand => do
    let value ← s.resolve operand
    return { s with accumulator := s.accumulator - value }.next
  | .mult operand => do
    let value ← s.resolve operand
    return { s with accumulator := s.accumulator * value }.next

def step (code : List Calculation) (s : Integers) : Except Fault Bool × Integers :=
  match code[s.programCounter]? with
  | none => (.ok false, s)
  | some calculation =>
    match s.execute calculation with
    | .ok after => (.ok true, after)
    | .error fault => (.error fault, s)

def stepped (code : List Calculation) : Integers → Nat → Integers
  | s, 0 => s
  | s, count + 1 => stepped code (s.step code).2 count

end Integers

/-! ## Residues -/

/-- `cpu.Reduces s`: the processor is where the integers are, and each of its words is the residue
in the range of words of the integer in its place. -/
structure Cpu.Reduces {H : Type} (cpu : Cpu H) (s : Integers) : Prop where
  accumulator : cpu.accumulator.toInt = s.accumulator.bmod Int32.size
  programCounter : cpu.programCounter = s.programCounter
  data : ∀ name, (cpu.data.get? name).map (·.toInt) = (s.data name).map (·.bmod Int32.size)

theorem toInt_eq_bmod_iff {word : Int32} {i : Int} :
    word.toInt = i.bmod Int32.size ↔ word = .ofInt i := by
  rw [← Int32.toInt_inj, Int32.toInt_ofInt]

theorem map_toInt_eq_map_bmod_iff {word : Option Int32} {i : Option Int} :
    word.map (·.toInt) = i.map (·.bmod Int32.size) ↔ word = i.map .ofInt := by
  cases word with
  | none => cases i <;> simp
  | some word =>
      cases i with
      | none => simp
      | some i => simp only [Option.map_some, Option.some.injEq, toInt_eq_bmod_iff]

namespace Cpu

variable {H : Type}

/-- Where an operand has a value or fails among words, its integer has it or fails alike. -/
theorem Reduces.resolve {cpu : Cpu H} {s : Integers} (h : cpu.Reduces s) (operand : Operand) :
    Pairs (fun word i => word = Int32.ofInt i) (operand.resolve cpu.data) (s.resolve operand) := by
  cases operand with
  | immediate value => exact .ok (Int32.ofInt_toInt value).symm
  | direct name =>
      have value := map_toInt_eq_map_bmod_iff.1 (h.data name)
      simp only [Operand.resolve, Integers.resolve, value]
      cases s.data name with
      | none => exact .fault _
      | some i => exact .ok rfl
  | malformed text => exact .fault _
  | missing => exact .fault _

/-- The next instruction, with a new accumulator that is the residue of an integer. -/
theorem Reduces.next {cpu : Cpu H} {s : Integers} (h : cpu.Reduces s) {word : Int32} {i : Int}
    (same : word = .ofInt i) :
    Reduces { cpu with accumulator := word }.next { s with accumulator := i }.next where
  accumulator := toInt_eq_bmod_iff.2 same
  programCounter := congrArg (· + 1) h.programCounter
  data := h.data

theorem Reduces.insert {cpu : Cpu H} {s : Integers} (h : cpu.Reduces s) (name : String) :
    Reduces { cpu with data := cpu.data.insert name cpu.accumulator }.next
      { s with data := fun key => if key = name then some s.accumulator else s.data key }.next where
  accumulator := h.accumulator
  programCounter := congrArg (· + 1) h.programCounter
  data key := by
    show ((cpu.data.insert name cpu.accumulator).get? key).map _ =
      (if key = name then some s.accumulator else s.data key).map _
    rw [Store.get?_insert]
    split
    · exact congrArg some h.accumulator
    · exact h.data key

/-- A calculation on words comes to what it comes to on integers: one fault, or residues again. -/
theorem Reduces.execute [SyscallHandler H] {cpu : Cpu H} {s : Integers} (h : cpu.Reduces s)
    (calculation : Calculation) :
    Pairs Reduces (cpu.execute calculation.instruction) (s.execute calculation) := by
  have accumulator : cpu.accumulator = .ofInt s.accumulator := toInt_eq_bmod_iff.1 h.accumulator
  cases calculation with
  | load operand => exact (h.resolve operand).bind fun word i same => .ok (h.next same)
  | store operand =>
      refine (Pairs.of_eq rfl).bind fun name name' same => .ok ?_
      subst same
      exact h.insert name
  | add operand =>
      refine (h.resolve operand).bind fun word i same => .ok (h.next ?_)
      rw [Int32.ofInt_add, accumulator, same]
  | sub operand =>
      refine (h.resolve operand).bind fun word i same => .ok (h.next ?_)
      rw [Int32.ofInt_sub, accumulator, same]
  | mult operand =>
      refine (h.resolve operand).bind fun word i same => .ok (h.next ?_)
      rw [Int32.ofInt_mul, accumulator, same]

/-! ## Runs -/

structure Carries (code : List Calculation) (cpu : Cpu H) (s : Integers) : Prop where
  reduces : cpu.Reduces s
  instructions : cpu.program.instructions = code.map Calculation.instruction
  free : ¬ cpu.blocked
  unasked : ¬ cpu.waitingForInput
  running : cpu.running ∨ code.length ≤ s.programCounter

variable {code : List Calculation} {cpu : Cpu H} {s : Integers}

theorem carries_start {program : Program} (handler : Option H)
    (calculates : program.instructions = code.map Calculation.instruction) :
    Carries code (fresh program handler) (Integers.start program) where
  reduces := by
    refine ⟨rfl, rfl, fun name => map_toInt_eq_map_bmod_iff.2 ?_⟩
    show program.data.get? name = ((program.data.get? name).map (·.toInt)).map .ofInt
    cases program.data.get? name with
    | none => rfl
    | some value => exact congrArg some (Int32.ofInt_toInt value).symm
  instructions := calculates
  free := Bool.false_ne_true
  unasked := Bool.false_ne_true
  running := .inl rfl

theorem Carries.current? (h : Carries code cpu s) :
    cpu.current? = code[s.programCounter]?.map Calculation.instruction := by
  rw [Cpu.current?, Program.instruction?, h.instructions, h.reduces.programCounter,
    List.getElem?_map]

variable [SyscallHandler H]

/-- A calculation writes three registers at most. -/
theorem Carries.execute {calculation : Calculation} {after : Cpu H} {t : Integers}
    (h : Carries code cpu s) (done : cpu.execute calculation.instruction = .ok after)
    (running : cpu.running) (reduces : after.Reduces t) : Carries code after t := by
  rcases execute_cases done with ⟨operand, number, call, -, -⟩ | ⟨_, _, _, rfl⟩
  · cases calculation <;> contradiction
  · exact ⟨reduces, h.instructions, h.free, h.unasked, .inl running⟩

/-- A step on words answers as the one on integers does, and leaves its residues. -/
theorem Carries.step (h : Carries code cpu s) :
    cpu.step.1 = (s.step code).1 ∧ Carries code cpu.step.2 (s.step code).2 := by
  have suspended : cpu.isSuspended = !cpu.running := by
    simp [isSuspended, h.free, h.unasked]
  have current := h.current?
  cases there : code[s.programCounter]? with
  | none =>
      have past : code.length ≤ s.programCounter := List.getElem?_eq_none_iff.1 there
      rw [there] at current
      simp only [Cpu.step, suspended, current, Integers.step, there]
      cases running : cpu.running with
      | false => exact ⟨rfl, h.reduces, h.instructions, h.free, h.unasked, .inr past⟩
      | true =>
          refine ⟨rfl, ?_, h.instructions, h.free, h.unasked, .inr past⟩
          exact ⟨h.reduces.accumulator, h.reduces.programCounter, h.reduces.data⟩
  | some calculation =>
      have ahead : s.programCounter < code.length := (List.getElem?_eq_some_iff.1 there).1
      have running : cpu.running := h.running.resolve_right (Nat.not_le.2 ahead)
      rw [there] at current
      simp only [Cpu.step, suspended, running, current, Integers.step, there, Option.map_some]
      have carried := h.reduces.execute calculation
      generalize done : cpu.execute calculation.instruction = result at carried
      generalize s.execute calculation = ideal at carried
      cases carried with
      | fault fault => exact ⟨rfl, h⟩
      | ok reduces => exact ⟨rfl, h.execute done running reduces⟩

theorem Carries.stepped (h : Carries code cpu s) (count : Nat) :
    Carries code (cpu.stepped count) (s.stepped code count) := by
  induction count generalizing cpu s with
  | zero => exact h
  | succ count ih => exact ih h.step.2

end Cpu

/-- A calculation that is carried out leads to the next one. -/
theorem Integers.programCounter_execute {s t : Integers} {calculation : Calculation}
    (done : s.execute calculation = .ok t) : t.programCounter = s.programCounter + 1 := by
  cases calculation with
  | _ operand =>
      obtain ⟨value, -, last⟩ := Cpu.eq_ok_of_bind done
      cases last
      rfl

/-- Calculations are carried out in turn, up to one that fails or to the end of all. The induction
is on how many are left. -/
theorem Integers.exists_end {code : List Calculation} {s : Integers}
    (inside : s.programCounter ≤ code.length) :
    ∃ n, (s.stepped code n).programCounter = s.programCounter + n ∧
      (∀ m < n, ((s.stepped code m).step code).1 = .ok true) ∧
      (s.programCounter + n = code.length ∧ ((s.stepped code n).step code).1 = .ok false ∨
        s.programCounter + n < code.length ∧
          ∃ fault, ((s.stepped code n).step code).1 = .error fault) := by
  generalize left : code.length - s.programCounter = rest
  induction rest generalizing s with
  | zero =>
      have there : code[s.programCounter]? = none := List.getElem?_eq_none (by omega)
      refine ⟨0, rfl, fun m early => (Nat.not_lt_zero m early).elim, .inl ⟨by omega, ?_⟩⟩
      simp [stepped, step, there]
  | succ rest ih =>
      have ahead : s.programCounter < code.length := by omega
      have there := List.getElem?_eq_getElem ahead
      cases done : s.execute code[s.programCounter] with
      | error fault =>
          refine ⟨0, rfl, fun m early => (Nat.not_lt_zero m early).elim, .inr ⟨ahead, fault, ?_⟩⟩
          simp [stepped, step, there, done]
      | ok t =>
          have stepped : s.step code = (.ok true, t) := by simp [step, there, done]
          have shift (m : Nat) : s.stepped code (m + 1) = t.stepped code m := by
            rw [Integers.stepped, stepped]
          have moved := programCounter_execute done
          obtain ⟨n, place, early, last⟩ := @ih t (by omega) (by omega)
          refine ⟨n + 1, ?_, fun m soon => ?_, ?_⟩
          · rw [shift, place]
            omega
          · cases m with
            | zero => exact congrArg Prod.fst stepped
            | succ m =>
                rw [shift]
                exact early m (Nat.lt_of_succ_lt_succ soon)
          · rw [shift, Nat.add_comm n 1, ← Nat.add_assoc, ← moved]
            exact last

/-! ## Division and refusals -/

/-- The quotient of words is that of their integers cut toward zero, but for the one that is no
word. -/
theorem toInt_div_eq (a b : Int32) :
    (a / b).toInt =
      if a = Int32.minValue ∧ b = -1 then Int32.minValue.toInt else a.toInt.tdiv b.toInt := by
  split
  · rename_i overflow
    rw [overflow.1, overflow.2]
    decide
  · rename_i fits
    rcases Classical.not_and_iff_not_or_not.1 fits with left | right
    · exact Int32.toInt_div_of_ne_left a b left
    · exact Int32.toInt_div_of_ne_right a b right

namespace Cpu

variable {H : Type}

/-- `c.Refuses instruction fault`: what an instruction is refused for. Its operand has no value, its
divisor is zero, its target, label or code is none, or it is outside the set. How large a word is
has no bearing on it. -/
inductive Refuses (c : Cpu H) : Instruction → Fault → Prop where
  | uncomputed {operation : Arithmetic} {operand : Operand} {fault : Fault}
      (unresolved : operand.resolve c.data = .error fault) :
      Refuses c (.arithmetic operation operand) fault
  | undivided {operand : Operand} (zero : operand.resolve c.data = .ok 0) :
      Refuses c (.arithmetic .div operand) .divisionByZero
  | unloaded {operand : Operand} {fault : Fault}
      (unresolved : operand.resolve c.data = .error fault) : Refuses c (.load operand) fault
  | unstored {operand : Operand} {fault : Fault} (untargeted : operand.target = .error fault) :
      Refuses c (.store operand) fault
  | unbranched {condition : Condition} {label : Option String} {fault : Fault}
      (holds : condition.holds c.accumulator)
      (lost : c.program.target condition label = .error fault) :
      Refuses c (.branch condition label) fault
  | uncalled {operand : Operand} {fault : Fault} (uncoded : operand.code = .error fault) :
      Refuses c (.syscall operand) fault
  | unknown (opcode : String) : Refuses c (.unknown opcode) (.unknownInstruction opcode)

theorem eq_error_of_bind {ε α β : Type} {x : Except ε α} {f : α → Except ε β} {e : ε}
    (h : x >>= f = .error e) : x = .error e ∨ ∃ a, x = .ok a ∧ f a = .error e := by
  cases x with
  | error e => exact .inl (congrArg Except.error (Except.error.inj h))
  | ok a => exact .inr ⟨a, rfl, h⟩

theorem apply_eq_error {operation : Arithmetic} {a b : Int32} {fault : Fault}
    (refused : operation.apply a b = .error fault) :
    operation = .div ∧ b = 0 ∧ fault = .divisionByZero := by
  cases operation with
  | div =>
      simp only [Arithmetic.apply] at refused
      split at refused
      · cases refused
        exact ⟨rfl, ‹_›, rfl⟩
      · contradiction
  | _ => contradiction

variable [SyscallHandler H]

theorem execute_eq_error_iff (c : Cpu H) (instruction : Instruction) (fault : Fault) :
    c.execute instruction = .error fault ↔ c.Refuses instruction fault := by
  constructor
  · intro refused
    cases instruction with
    | arithmetic operation operand =>
        rcases eq_error_of_bind refused with unresolved | ⟨value, resolved, rest⟩
        · exact .uncomputed unresolved
        · rcases eq_error_of_bind rest with unapplied | ⟨_, -, last⟩
          · obtain ⟨rfl, rfl, rfl⟩ := apply_eq_error unapplied
            exact .undivided resolved
          · contradiction
    | load operand =>
        rcases eq_error_of_bind refused with unresolved | ⟨_, -, last⟩
        · exact .unloaded unresolved
        · contradiction
    | store operand =>
        rcases eq_error_of_bind refused with untargeted | ⟨_, -, last⟩
        · exact .unstored untargeted
        · contradiction
    | branch condition label =>
        simp only [execute] at refused
        split at refused
        · rcases eq_error_of_bind refused with lost | ⟨_, -, last⟩
          · exact .unbranched ‹_› lost
          · contradiction
        · contradiction
    | syscall operand =>
        rcases eq_error_of_bind refused with uncoded | ⟨_, -, last⟩
        · exact .uncalled uncoded
        · contradiction
    | unknown opcode =>
        cases refused
        exact .unknown opcode
  · intro refuses
    cases refuses with
    | uncomputed unresolved => simp [execute, unresolved, bind, Except.bind]
    | undivided zero => simp [execute, zero, Arithmetic.apply, bind, Except.bind]
    | unloaded unresolved => simp [execute, unresolved, bind, Except.bind]
    | unstored untargeted => simp [execute, untargeted, bind, Except.bind]
    | unbranched holds lost => simp [execute, holds, lost, bind, Except.bind]
    | uncalled uncoded => simp [execute, uncoded, bind, Except.bind]
    | unknown opcode => rfl

/-- A division fails for a zero divisor alone, and otherwise leaves the quotient. -/
theorem step_div {c : Cpu H} {operand : Operand} {divisor : Int32} (awake : ¬ c.isSuspended)
    (current : c.current? = some (.arithmetic .div operand))
    (resolved : operand.resolve c.data = .ok divisor) :
    c.step = if divisor = 0 then (.error .divisionByZero, c)
      else (.ok true, { c with accumulator := c.accumulator / divisor }.next) := by
  rw [step_of_current awake current]
  split
  · rename_i zero
    simp [execute, resolved, zero, Arithmetic.apply, bind, Except.bind, Except.map,
      Except.toOption]
  · rename_i nonzero
    simp [execute, resolved, nonzero, Arithmetic.apply, bind, Except.bind, Except.map, pure,
      Except.pure, Except.toOption]

/-- A program of loads, stores, additions, subtractions and multiplications, with any operands and
data, runs on words as it does on integers of any size. After every step the words are the residues
of the integers, and the two runs answer each step alike: they come to the end, or fail at the same
instruction with the same fault. A division leaves the quotient cut toward zero, but for the one
that is no word, and fails for a zero divisor alone. No instruction is refused for the size of a
word. -/
theorem words_follow_integers (program : Program) (code : List Calculation)
    (calculates : program.instructions = code.map Calculation.instruction) (handler : Option H) :
    let cpu := fresh program handler
    let integers := Integers.start program
    (∀ n, (cpu.stepped n).Reduces (integers.stepped code n) ∧
      (cpu.stepped n).step.1 = ((integers.stepped code n).step code).1) ∧
    (∃ n ≤ program.size, (cpu.stepped n).programCounter = n ∧
      (∀ m < n, (cpu.stepped m).step.1 = .ok true) ∧
      (n = program.size ∧ (cpu.stepped n).step.1 = .ok false ∨
        n < program.size ∧ ∃ fault, (cpu.stepped n).step.1 = .error fault)) ∧
    (∀ (c : Cpu H) (operand : Operand) (divisor : Int32), ¬ c.isSuspended →
      c.current? = some (.arithmetic .div operand) → operand.resolve c.data = .ok divisor →
      if divisor = 0 then c.step = (.error .divisionByZero, c)
      else ∃ quotient : Int32, c.step = (.ok true, { c with accumulator := quotient }.next) ∧
        quotient.toInt = if c.accumulator = Int32.minValue ∧ divisor = -1 then Int32.minValue.toInt
          else c.accumulator.toInt.tdiv divisor.toInt) ∧
    ∀ (c : Cpu H) (instruction : Instruction) (fault : Fault),
      c.execute instruction = .error fault ↔ c.Refuses instruction fault := by
  intro cpu integers
  have carries (n : Nat) : Carries code (cpu.stepped n) (integers.stepped code n) :=
    (carries_start handler calculates).stepped n
  have size : program.size = code.length := by rw [Program.size, calculates, List.length_map]
  refine ⟨fun n => ⟨(carries n).reduces, (carries n).step.1⟩, ?_, ?_, execute_eq_error_iff⟩
  · have inside : integers.programCounter ≤ code.length := Nat.zero_le _
    obtain ⟨n, place, early, last⟩ := Integers.exists_end inside
    rw [show integers.programCounter = 0 from rfl, Nat.zero_add] at place last
    rw [← (carries n).step.1, ← size] at last
    refine ⟨n, ?_, ?_, fun m soon => ?_, last⟩
    · rcases last with ⟨there, -⟩ | ⟨before, -⟩
      · exact Nat.le_of_eq there
      · exact Nat.le_of_lt before
    · rw [(carries n).reduces.programCounter, place]
    · rw [(carries m).step.1]
      exact early m soon
  · intro c operand divisor awake current resolved
    have stepped := step_div awake current resolved
    split
    · rwa [if_pos ‹_›] at stepped
    · rw [if_neg ‹_›] at stepped
      exact ⟨_, stepped, toInt_div_eq _ _⟩

def squaring : List Calculation :=
  [.load (.direct "n"), .mult (.direct "n"), .store (.direct "m"), .add (.direct "m"),
    .sub (.immediate 7), .add (.direct "k")]

def turning : Program where
  instructions := [.load (.immediate Int32.minValue), .arithmetic .div (.immediate (-1))]
  labels := []
  data := .empty

theorem words_follow_integers_squaring :
    let program : Program := ⟨squaring.map Calculation.instruction, [], .ofList [("n", 100000)]⟩
    let cpu : Cpu Services := fresh program none
    let integers := Integers.start program
    (integers.stepped squaring 5).accumulator = 19999999993 ∧
      (cpu.stepped 5).accumulator.toInt = 19999999993 - 5 * Int32.size ∧
      (cpu.stepped 5).step.1 = .error (.undefinedVariable "k") ∧
      (integers.stepped squaring 5).data "m" = some 10000000000 ∧
      ((cpu.stepped 5).data.get? "m").map (·.toInt) = some (10000000000 - 2 * Int32.size) ∧
      let c : Cpu Services := (fresh turning none).stepped 1
      ¬ c.isSuspended ∧ c.current? = some (.arithmetic .div (.immediate (-1))) ∧
        ∃ quotient : Int32, c.step = (.ok true, { c with accumulator := quotient }.next) ∧
          quotient.toInt = -2147483648 := by
  intro program cpu integers
  obtain ⟨follows, -, divides, -⟩ :=
    words_follow_integers program squaring rfl (none : Option Services)
  obtain ⟨reduces, answer⟩ := follows 5
  have large : (integers.stepped squaring 5).accumulator = 19999999993 := by decide +kernel
  have stored : (integers.stepped squaring 5).data "m" = some 10000000000 := by decide +kernel
  have fails : ((integers.stepped squaring 5).step squaring).1 = .error (.undefinedVariable "k") :=
    rfl
  refine ⟨large, ?_, ?_, stored, ?_, ?_⟩
  · rw [reduces.accumulator, large]
    decide
  · rw [answer, fails]
  · rw [reduces.data, stored]
    decide
  · intro c
    have awake : ¬ c.isSuspended := by decide +kernel
    have current : c.current? = some (.arithmetic .div (.immediate (-1))) := by decide +kernel
    obtain ⟨quotient, stepped, value⟩ := divides c _ (-1) awake current rfl
    refine ⟨awake, current, quotient, stepped, value.trans ?_⟩
    decide +kernel

end Cpu

end Timeslice
