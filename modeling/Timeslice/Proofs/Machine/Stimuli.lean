import Timeslice.Proofs.Machine.Cpu

/-! # Processors under stimuli

From outside, a processor is made to step and given texts, in any order and with any handler.
`Executes` lists what an instruction does, `Steps` what a step can come to and `Takes` what a text
can. A handler changes nothing but what it is handed, so whatever holds under all stimuli is proved
from these lists, and no instruction is opened again for it.
-/

namespace Timeslice

inductive Stimulus where
  | step
  | input (text : String)

namespace Cpu

variable {H : Type}

def fresh (program : Program) (handler : Option H) : Cpu H :=
  { (load program : Cpu H) with handler }

variable [SyscallHandler H]

def react (cpu : Cpu H) : Stimulus → Except Fault Bool × Cpu H
  | .step => cpu.step
  | .input text => cpu.supply text

def after (cpu : Cpu H) (stimuli : List Stimulus) : Cpu H :=
  stimuli.foldl (fun cpu stimulus => (cpu.react stimulus).2) cpu

theorem after_append (cpu : Cpu H) (stimuli more : List Stimulus) :
    cpu.after (stimuli ++ more) = (cpu.after stimuli).after more := List.foldl_append

/-! ## Instructions -/

/-- `c.Executes instruction d`: executing the instruction can turn `c` into `d`. -/
inductive Executes (c : Cpu H) : Instruction → Cpu H → Prop where
  | computed {operation : Arithmetic} {operand : Operand} {value accumulator : Int32}
      (resolved : operand.resolve c.data = .ok value)
      (applied : operation.apply c.accumulator value = .ok accumulator) :
      Executes c (.arithmetic operation operand) { c with accumulator }.next
  | loaded {operand : Operand} {accumulator : Int32}
      (resolved : operand.resolve c.data = .ok accumulator) :
      Executes c (.load operand) { c with accumulator }.next
  | stored (name : String) : Executes c (.store (.direct name))
      { c with data := c.data.insert name c.accumulator }.next
  | branched {condition : Condition} {label : String} {programCounter : Nat}
      (holds : condition.holds c.accumulator)
      (found : c.program.label? label = some programCounter) :
      Executes c (.branch condition (some label)) { c with programCounter }
  | passed {condition : Condition} {label : Option String}
      (fails : ¬ condition.holds c.accumulator) : Executes c (.branch condition label) c.next
  | called (code : Int32) : Executes c (.syscall (.immediate code)) (c.call code).next

theorem executes_of_execute {c d : Cpu H} {instruction : Instruction}
    (done : c.execute instruction = .ok d) : c.Executes instruction d := by
  cases instruction with
  | arithmetic operation operand =>
      obtain ⟨value, resolved, rest⟩ := eq_ok_of_bind done
      obtain ⟨accumulator, applied, last⟩ := eq_ok_of_bind rest
      cases last
      exact .computed resolved applied
  | load operand =>
      obtain ⟨accumulator, resolved, last⟩ := eq_ok_of_bind done
      cases last
      exact .loaded resolved
  | store operand =>
      obtain ⟨name, target, last⟩ := eq_ok_of_bind done
      cases last
      cases operand with
      | direct name =>
          cases target
          exact .stored name
      | _ => contradiction
  | branch condition label =>
      simp only [execute] at done
      split at done
      · rename_i holds
        obtain ⟨programCounter, target, last⟩ := eq_ok_of_bind done
        cases last
        cases label with
        | none => contradiction
        | some label =>
            simp only [Program.target] at target
            split at target
            · cases target
              exact .branched holds ‹_›
            · contradiction
      · cases done
        exact .passed ‹_›
  | syscall operand =>
      obtain ⟨code, known, last⟩ := eq_ok_of_bind done
      cases last
      cases operand with
      | immediate value =>
          cases known
          exact .called code
      | _ => contradiction
  | unknown opcode => contradiction

/-! ## Steps -/

/-- A processor that is not suspended executes its current instruction. -/
theorem step_of_current {cpu : Cpu H} {instruction : Instruction} (awake : ¬ cpu.isSuspended)
    (current : cpu.current? = some instruction) :
    cpu.step = ((cpu.execute instruction).map fun _ => true,
      (cpu.execute instruction).toOption.getD cpu) := by
  simp only [step, if_neg awake, current]
  cases cpu.execute instruction <;> rfl

/-- `c.Steps answer d`: a step of `c` can give the answer and leave `d`. -/
inductive Steps (c : Cpu H) : Except Fault Bool → Cpu H → Prop where
  | held (suspended : c.isSuspended) : Steps c (.ok false) c
  | ended (awake : ¬ c.isSuspended) (past : c.current? = none) :
      Steps c (.ok false) { c with running := false }
  | executed (awake : ¬ c.isSuspended) {instruction : Instruction} {d : Cpu H}
      (current : c.current? = some instruction) (done : c.execute instruction = .ok d)
      (executes : c.Executes instruction d) : Steps c (.ok true) d
  | failed (awake : ¬ c.isSuspended) {instruction : Instruction} {fault : Fault}
      (current : c.current? = some instruction)
      (refused : c.execute instruction = .error fault) : Steps c (.error fault) c

theorem steps_step (cpu : Cpu H) : cpu.Steps cpu.step.1 cpu.step.2 := by
  unfold step
  split
  · exact .held ‹_›
  · rename_i awake
    split
    · exact .ended awake ‹_›
    · rename_i instruction current
      split
      · rename_i d done
        exact .executed awake current done (executes_of_execute done)
      · exact .failed awake current ‹_›

theorem steps_of_step {cpu after : Cpu H} {answer : Except Fault Bool}
    (stepped : cpu.step = (answer, after)) : cpu.Steps answer after := by
  have steps := cpu.steps_step
  rwa [stepped] at steps

/-- `c.Takes text answer d`: giving `c` a text can get the answer and leave `d`. -/
inductive Takes (c : Cpu H) (text : String) : Except Fault Bool → Cpu H → Prop where
  | unasked (busy : ¬ c.waitingForInput) : Takes c text (.ok false) c
  | unread (waits : c.waitingForInput) (parsed : Text.int32? (Text.trim text.toList) = none) :
      Takes c text (.error (.invalidInput (String.ofList (Text.trim text.toList)))) c
  | taken (waits : c.waitingForInput) {number : Int32}
      (parsed : Text.int32? (Text.trim text.toList) = some number) :
      Takes c text (.ok true) (c.read text number)

theorem takes_supply (cpu : Cpu H) (text : String) :
    cpu.Takes text (cpu.supply text).1 (cpu.supply text).2 := by
  unfold supply
  split
  · rename_i waits
    cases parsed : Text.int32? (Text.trim text.toList) with
    | none =>
        simp only [parsed]
        exact .unread waits parsed
    | some number =>
        simp only [parsed]
        exact .taken waits parsed
  · exact .unasked ‹_›

/-! ## Two runs side by side -/

/-- `Pairs R x y`: two results are one fault, or values that `R` relates. -/
inductive Pairs {α β : Type} (R : α → β → Prop) : Except Fault α → Except Fault β → Prop where
  | fault (fault : Fault) : Pairs R (.error fault) (.error fault)
  | ok {a : α} {b : β} (related : R a b) : Pairs R (.ok a) (.ok b)

theorem Pairs.of_eq {α : Type} {x y : Except Fault α} (same : x = y) : Pairs Eq x y := by
  subst same
  cases x with
  | error fault => exact .fault fault
  | ok a => exact .ok rfl

theorem Pairs.bind {α β γ δ : Type} {R : α → β → Prop} {S : γ → δ → Prop} {x : Except Fault α}
    {y : Except Fault β} {f : α → Except Fault γ} {g : β → Except Fault δ} (h : Pairs R x y)
    (step : ∀ a b, R a b → Pairs S (f a) (g b)) : Pairs S (x >>= f) (y >>= g) := by
  cases h with
  | fault fault => exact .fault fault
  | ok related => exact step _ _ related

/-! ## What a handler cannot change -/

theorem exists_call_eq (cpu : Cpu H) (code : Int32) :
    ∃ accumulator waitingForInput handler effects,
      cpu.call code = { cpu with accumulator, waitingForInput, handler, effects } := by
  unfold call
  split
  · exact ⟨_, _, _, _, rfl⟩
  · exact ⟨_, _, _, _, rfl⟩

theorem exists_read_eq (cpu : Cpu H) (text : String) (number : Int32) :
    ∃ accumulator waitingForInput handler effects,
      cpu.read text number = { cpu with accumulator, waitingForInput, handler, effects } := by
  unfold read
  split
  · obtain ⟨accumulator, waitingForInput, handler, effects, called⟩ := exists_call_eq
      { cpu with accumulator := number, waitingForInput := false } sentinelCode
    exact ⟨accumulator, waitingForInput, handler, effects, called⟩
  · exact ⟨_, _, _, _, rfl⟩

/-- Giving a text changes neither the place in the program nor the data. -/
theorem exists_supply_eq (cpu : Cpu H) (text : String) :
    ∃ accumulator waitingForInput handler effects,
      (cpu.supply text).2 = { cpu with accumulator, waitingForInput, handler, effects } := by
  have takes := cpu.takes_supply text
  generalize (cpu.supply text).1 = answer, (cpu.supply text).2 = after at takes
  cases takes with
  | unasked busy => exact ⟨_, _, _, _, rfl⟩
  | unread waits parsed => exact ⟨_, _, _, _, rfl⟩
  | taken waits parsed => exact cpu.exists_read_eq text _

/-! ## What a handler asks for -/

def asks (cpu : Cpu H) (code : Int32) : List Effect :=
  match cpu.handler with
  | none => []
  | some handler =>
    (serve handler
      ⟨code, cpu.accumulator, cpu.programCounter, cpu.data, cpu.waitingForInput⟩).1.effects

def asksFor (cpu : Cpu H) : Instruction → List Effect
  | .syscall (.immediate code) => cpu.asks code
  | _ => []

/-- The effects that the handler asks for while the processor reacts to a stimulus. Besides calls,
only the sentinel reaches the handler. -/
def requests (cpu : Cpu H) : Stimulus → List Effect
  | .step => if cpu.isSuspended then [] else cpu.current?.elim [] cpu.asksFor
  | .input text =>
    let input := Text.trim text.toList
    match Text.int32? input with
    | some accumulator =>
      if cpu.waitingForInput ∧ input = sentinel.toList then
        { cpu with accumulator, waitingForInput := false }.asks sentinelCode
      else []
    | none => []

def requestsAll (cpu : Cpu H) : List Stimulus → List Effect
  | [] => []
  | stimulus :: rest => cpu.requests stimulus ++ (cpu.react stimulus).2.requestsAll rest

theorem effects_call (cpu : Cpu H) (code : Int32) :
    (cpu.call code).effects = cpu.effects ++ cpu.asks code := by
  cases handled : cpu.handler <;> simp [call, asks, handled]

theorem Executes.effects {c d : Cpu H} {instruction : Instruction}
    (h : c.Executes instruction d) : d.effects = c.effects ++ c.asksFor instruction := by
  cases h with
  | called code => exact c.effects_call code
  | computed _ _ => exact (List.append_nil c.effects).symm
  | loaded _ => exact (List.append_nil c.effects).symm
  | stored _ => exact (List.append_nil c.effects).symm
  | branched _ _ => exact (List.append_nil c.effects).symm
  | passed _ => exact (List.append_nil c.effects).symm

/-- An instruction that fails has not come to a call. -/
theorem asksFor_of_error {cpu : Cpu H} {instruction : Instruction} {fault : Fault}
    (refused : cpu.execute instruction = .error fault) : cpu.asksFor instruction = [] := by
  cases instruction with
  | syscall operand =>
      cases operand with
      | immediate code => contradiction
      | _ => rfl
  | _ => rfl

theorem effects_step (cpu : Cpu H) :
    cpu.step.2.effects = cpu.effects ++ cpu.requests .step := by
  have steps := cpu.steps_step
  generalize cpu.step.1 = answer, cpu.step.2 = after at steps
  unfold requests
  cases steps with
  | held suspended => rw [if_pos suspended, List.append_nil]
  | ended awake past => rw [if_neg awake, past, Option.elim_none, List.append_nil]
  | failed awake current refused =>
      rw [if_neg awake, current, Option.elim_some, asksFor_of_error refused, List.append_nil]
  | executed awake current done executes =>
      rw [if_neg awake, current, Option.elim_some]
      exact executes.effects

theorem effects_supply (cpu : Cpu H) (text : String) :
    (cpu.supply text).2.effects = cpu.effects ++ cpu.requests (.input text) := by
  have takes := cpu.takes_supply text
  generalize (cpu.supply text).1 = answer, (cpu.supply text).2 = after at takes
  simp only [requests]
  cases takes with
  | unasked busy =>
      split
      · rw [if_neg fun due => busy due.1, List.append_nil]
      · exact (List.append_nil cpu.effects).symm
  | unread waits parsed => simp only [parsed, List.append_nil]
  | taken waits parsed =>
      simp only [parsed, waits, true_and, read]
      split
      · exact effects_call _ sentinelCode
      · exact (List.append_nil cpu.effects).symm

/-- Whatever is done to a processor, the effects that its handler asks for come after those already
there. -/
theorem effects_react (cpu : Cpu H) (stimulus : Stimulus) :
    (cpu.react stimulus).2.effects = cpu.effects ++ cpu.requests stimulus := by
  cases stimulus with
  | step => exact cpu.effects_step
  | input text => exact cpu.effects_supply text

theorem effects_after (cpu : Cpu H) (stimuli : List Stimulus) :
    (cpu.after stimuli).effects = cpu.effects ++ cpu.requestsAll stimuli := by
  induction stimuli generalizing cpu with
  | nil => exact (List.append_nil cpu.effects).symm
  | cons stimulus rest ih =>
      show ((cpu.react stimulus).2.after rest).effects = _
      rw [ih, effects_react, requestsAll, List.append_assoc]

end Cpu

end Timeslice
