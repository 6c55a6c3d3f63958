import Timeslice.Proofs.Machine.Stimuli
import Timeslice.Services

/-! # Programs without backward branches

Where every branch goes forward, each instruction that is executed moves the program counter on, and
only an instruction that is there can be executed. So the rest of the program bounds how much more
is executed, under any stimuli, and steps alone reach the end unless something stops them before.
-/

namespace Timeslice

namespace Program

def destination? (p : Program) (index : Nat) : Option Nat :=
  match p.instruction? index with
  | some (.branch _ (some label)) => p.label? label
  | _ => none

def Forward (p : Program) : Prop :=
  ∀ index < p.size, ∀ target ∈ p.destination? index, index < target

instance (p : Program) : Decidable p.Forward :=
  inferInstanceAs (Decidable (∀ index < p.size, ∀ target ∈ p.destination? index, index < target))

end Program

namespace Cpu

variable {H : Type} [SyscallHandler H]

def executions : Cpu H → List Stimulus → Nat
  | _, [] => 0
  | cpu, .input text :: rest => executions (cpu.supply text).2 rest
  | cpu, .step :: rest =>
    match cpu.step with
    | (.ok true, after) => executions after rest + 1
    | (_, after) => executions after rest

def stepped (cpu : Cpu H) (count : Nat) : Cpu H := cpu.after (List.replicate count .step)

theorem stepped_succ (cpu : Cpu H) (count : Nat) :
    cpu.stepped (count + 1) = cpu.step.2.stepped count := rfl

theorem stepped_add (cpu : Cpu H) (count more : Nat) :
    cpu.stepped (count + more) = (cpu.stepped count).stepped more := by
  rw [stepped, ← List.replicate_append_replicate, after_append]
  rfl

theorem step_of_stopped {cpu : Cpu H} (stopped : ¬ cpu.running) : cpu.step = (.ok false, cpu) := by
  rw [step, if_pos (by simp [isSuspended, stopped])]

theorem stepped_of_stopped {cpu : Cpu H} (stopped : ¬ cpu.running) (count : Nat) :
    cpu.stepped count = cpu := by
  induction count with
  | zero => rfl
  | succ count ih => rw [stepped_succ, step_of_stopped stopped, ih]

/-! ## The program counter -/

theorem Executes.program {c d : Cpu H} {instruction : Instruction}
    (h : c.Executes instruction d) : d.program = c.program := by
  cases h with
  | called code =>
      obtain ⟨_, _, _, _, called⟩ := c.exists_call_eq code
      rw [called]
      rfl
  | _ => rfl

/-- An instruction that is executed leads to the next one, or where its branch goes. -/
theorem Executes.programCounter {c d : Cpu H} {instruction : Instruction}
    (h : c.Executes instruction d) :
    d.programCounter = c.programCounter + 1 ∨
      ∃ condition label, instruction = .branch condition (some label) ∧
        c.program.label? label = some d.programCounter := by
  cases h with
  | computed resolved applied => exact .inl rfl
  | loaded resolved => exact .inl rfl
  | stored name => exact .inl rfl
  | branched holds found => exact .inr ⟨_, _, rfl, found⟩
  | passed fails => exact .inl rfl
  | called code =>
      obtain ⟨_, _, _, _, called⟩ := c.exists_call_eq code
      rw [called]
      exact .inl rfl

/-- In a program whose branches go forward, executing moves the program counter on. -/
theorem Executes.programCounter_lt {c d : Cpu H} {instruction : Instruction}
    (h : c.Executes instruction d) (forward : c.program.Forward)
    (current : c.current? = some instruction) :
    c.programCounter < c.program.size ∧ c.programCounter < d.programCounter := by
  have ahead := programCounter_lt_of_current? current
  refine ⟨ahead, ?_⟩
  rcases h.programCounter with next | ⟨condition, label, rfl, target⟩
  · rw [next]
    exact Nat.lt_succ_self _
  · refine forward _ ahead _ ?_
    rw [Program.destination?, show c.program.instruction? _ = _ from current]
    exact target

/-! ## Bounds -/

/-- No stimuli make a processor execute more than the rest of its program. -/
theorem executions_le {cpu : Cpu H} (forward : cpu.program.Forward) (stimuli : List Stimulus) :
    cpu.executions stimuli ≤ cpu.program.size - cpu.programCounter := by
  induction stimuli generalizing cpu with
  | nil => exact Nat.zero_le _
  | cons stimulus rest ih =>
      cases stimulus with
      | input text =>
          obtain ⟨_, _, _, _, supplied⟩ := cpu.exists_supply_eq text
          have bound := @ih (cpu.supply text).2 (by rw [supplied]; exact forward)
          rw [supplied] at bound
          rw [executions, supplied]
          exact bound
      | step =>
          rcases stepped : cpu.step with ⟨answer, after⟩
          simp only [executions, stepped]
          cases steps_of_step stepped with
          | held suspended => exact ih forward
          | ended awake past => exact @ih { cpu with running := false } forward
          | failed awake current refused => exact ih forward
          | executed awake current done executes =>
              have program := executes.program
              have bound := @ih after (program ▸ forward)
              obtain ⟨ahead, moved⟩ := executes.programCounter_lt forward current
              rw [program] at bound
              show after.executions rest + 1 ≤ _
              omega

/-! ## The end -/

/-- `c.Ends n`: of steps and nothing else the first `n` execute an instruction each, and the next
one finds the processor past its program and stops it. -/
structure Ends (c : Cpu H) (n : Nat) : Prop where
  executes : ∀ m < n, (c.stepped m).step.1 = .ok true
  answer : (c.stepped n).step.1 = .ok false
  stopped : ¬ (c.stepped (n + 1)).running
  halted : c.program.size ≤ (c.stepped (n + 1)).programCounter

theorem ends_zero {c : Cpu H} (awake : ¬ c.isSuspended) (past : c.current? = none) : c.Ends 0 := by
  have stepped : c.step = (.ok false, { c with running := false }) := by
    rw [step, if_neg awake, past]
  have first : c.stepped 1 = { c with running := false } := congrArg Prod.snd stepped
  constructor
  · exact fun m early => (Nat.not_lt_zero m early).elim
  · exact congrArg Prod.fst stepped
  · rw [first]
    exact Bool.false_ne_true
  · rw [first]
    exact of_decide_eq_true (isHalted_of_current? past)

theorem Ends.of_step {c d : Cpu H} {n : Nat} (ends : d.Ends n) (stepped : c.step = (.ok true, d))
    (program : d.program = c.program) : c.Ends (n + 1) := by
  have shift (m : Nat) : c.stepped (m + 1) = d.stepped m := by rw [stepped_succ, stepped]
  constructor
  · intro m early
    cases m with
    | zero => exact congrArg Prod.fst stepped
    | succ m =>
        rw [shift]
        exact ends.executes m (Nat.lt_of_succ_lt_succ early)
  · rw [shift]
    exact ends.answer
  · rw [shift]
    exact ends.stopped
  · rw [shift, ← program]
    exact ends.halted

/-- After the end a step changes nothing. -/
theorem Ends.lasts {c : Cpu H} {n m : Nat} (ends : c.Ends n) (later : n < m) :
    c.stepped m = c.stepped (n + 1) ∧ (c.stepped m).step = (.ok false, c.stepped m) := by
  obtain ⟨more, rfl⟩ := Nat.exists_eq_add_of_lt later
  rw [Nat.add_right_comm, stepped_add, stepped_of_stopped ends.stopped]
  exact ⟨rfl, step_of_stopped ends.stopped⟩

/-- Steps reach the end of a program whose branches go forward, if nothing stops the processor
before. The induction is on how much of the program is left. -/
theorem exists_ends {cpu : Cpu H} (forward : cpu.program.Forward) (running : cpu.running)
    (free : ¬ cpu.blocked) (faultless : ∀ n fault, (cpu.stepped n).step.1 ≠ .error fault)
    (unwaiting : ∀ n, ¬ (cpu.stepped n).waitingForInput) :
    ∃ n ≤ cpu.program.size - cpu.programCounter, cpu.Ends n := by
  generalize left : cpu.program.size - cpu.programCounter = rest
  induction rest using Nat.strongRecOn generalizing cpu with
  | ind rest ih =>
      have unwaiting_now : ¬ cpu.waitingForInput := unwaiting 0
      have faultless_now : ∀ fault, cpu.step.1 ≠ .error fault := faultless 0
      rcases stepped : cpu.step with ⟨answer, after⟩
      rw [stepped] at faultless_now
      cases steps_of_step stepped with
      | held suspended => simp [isSuspended, running, free, unwaiting_now] at suspended
      | failed awake current refused => exact (faultless_now _ rfl).elim
      | ended awake past => exact ⟨0, Nat.zero_le _, ends_zero awake past⟩
      | executed awake current done executes =>
          have program := executes.program
          have shift (m : Nat) : cpu.stepped (m + 1) = after.stepped m := by
            rw [stepped_succ, stepped]
          obtain ⟨running', blocked'⟩ := frame_execute done
          obtain ⟨ahead, moved⟩ := executes.programCounter_lt forward current
          have less : after.program.size - after.programCounter < rest := by
            rw [program]
            omega
          obtain ⟨n, bound, ends⟩ := ih _ less (program ▸ forward) (running' ▸ running)
            (blocked' ▸ free) (fun n => shift n ▸ faultless (n + 1))
            (fun n => shift n ▸ unwaiting (n + 1)) rfl
          exact ⟨n + 1, by omega, ends.of_step stepped program⟩

/-- In a program whose branches go forward, no stimuli with any handler make more steps execute an
instruction than the program has. If no step fails and none leaves the processor waiting, steps
alone reach the end within that bound, and after it they change nothing. -/
theorem forward_program_ends (program : Program) (forward : program.Forward)
    (handler : Option H) :
    let start := fresh program handler
    (∀ stimuli, start.executions stimuli ≤ program.size) ∧
    ((∀ n fault, (start.stepped n).step.1 ≠ .error fault) →
      (∀ n, ¬ (start.stepped n).waitingForInput) →
      ∃ n ≤ program.size, start.Ends n ∧ ∀ m, n < m →
        start.stepped m = start.stepped (n + 1) ∧
          (start.stepped m).step = (.ok false, start.stepped m)) := by
  intro start
  have forward' : start.program.Forward := forward
  refine ⟨fun stimuli => executions_le forward' stimuli, fun faultless unwaiting => ?_⟩
  obtain ⟨n, bound, ends⟩ := exists_ends forward' rfl Bool.false_ne_true faultless unwaiting
  exact ⟨n, bound, ends, fun m later => ends.lasts later⟩

def skipping : Program where
  instructions := [.load (.direct "n"), .branch .positive (some "print"), .load (.immediate 0),
    .syscall (.immediate Services.printCode), .branch .always (some "end")]
  labels := [("end", 5), ("print", 3)]
  data := .ofList [("n", 7)]

theorem forward_program_ends_skipping :
    let start : Cpu Services := fresh skipping (some ⟨.standard⟩)
    skipping.Forward ∧ (∀ n fault, (start.stepped n).step.1 ≠ .error fault) ∧
      (∀ n, ¬ (start.stepped n).waitingForInput) ∧
      (∀ stimuli, start.executions stimuli ≤ 5) ∧
      ∃ n ≤ 5, start.Ends n ∧ ∀ m, n < m → start.stepped m = start.stepped (n + 1) ∧
        (start.stepped m).step = (.ok false, start.stepped m) := by
  intro start
  have forward : skipping.Forward := by decide +kernel
  have early : ∀ n < 5, (start.stepped n).step.1.isOk ∧ ¬ (start.stepped n).waitingForInput := by
    decide +kernel
  have stopped : ¬ (start.stepped 5).running := by decide +kernel
  have last : ¬ (start.stepped 5).waitingForInput := by decide +kernel
  have late (n : Nat) (past : 5 ≤ n) : start.stepped n = start.stepped 5 := by
    obtain ⟨more, rfl⟩ := Nat.exists_eq_add_of_le past
    rw [stepped_add, stepped_of_stopped stopped]
  have faultless (n : Nat) (fault : Fault) : (start.stepped n).step.1 ≠ .error fault := by
    intro failed
    rcases Nat.lt_or_ge n 5 with soon | past
    · have ok := (early n soon).1
      rw [failed] at ok
      exact Bool.false_ne_true ok
    · rw [late n past, step_of_stopped stopped] at failed
      cases failed
  have unwaiting (n : Nat) : ¬ (start.stepped n).waitingForInput := by
    rcases Nat.lt_or_ge n 5 with soon | past
    · exact (early n soon).2
    · rwa [late n past]
  obtain ⟨bounded, ends⟩ := forward_program_ends skipping forward (some (⟨.standard⟩ : Services))
  exact ⟨forward, faultless, unwaiting, bounded, ends faultless unwaiting⟩

end Cpu

end Timeslice
