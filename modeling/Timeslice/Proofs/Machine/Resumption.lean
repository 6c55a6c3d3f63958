import Timeslice.Process.Basic
import Timeslice.Proofs.Machine.Stimuli
import Timeslice.Script

/-! # Suspending and resuming

Registers that were saved can be put back after anything was done to the processor. What a program
does from then on depends on the registers and on the program, which nothing changes, and on the
handler where it remembers the calls that it answered. With a handler that does not, the processor
goes on as if nothing had been done to it. Effects that were left in between stay where they are and
have no bearing on it.
-/

namespace Timeslice

variable {H : Type} [SyscallHandler H]

def SyscallHandler.answered (handler : H) (calls : List Call) : H :=
  calls.foldl (fun handler call => (serve handler call).2) handler

export SyscallHandler (answered)

/-- However many calls it has answered, the handler answers each by the call alone. -/
def SyscallHandler.Memoryless (handler : H) : Prop :=
  ∀ calls call, (serve (answered handler calls) call).1 = (serve handler call).1

export SyscallHandler (Memoryless)

/-- What can be seen of a processor that reacts to a stimulus: its answer, its registers after it,
and the effects that it has left. -/
structure Reaction where
  answer : Except Fault Bool
  registers : Registers
  effects : List Effect

/-- What can be done to a processor while its registers are saved. -/
inductive Intervention where
  | stimulus (stimulus : Stimulus)
  /-- Its effects are taken. -/
  | drain
  /-- Any of its registers are set. -/
  | assign (change : Registers → Registers)

namespace Cpu

def reaction (cpu : Cpu H) (stimulus : Stimulus) : Reaction :=
  let (answer, after) := cpu.react stimulus
  ⟨answer, after.toRegisters, after.effects.drop cpu.effects.length⟩

def reactions : Cpu H → List Stimulus → List Reaction
  | _, [] => []
  | cpu, stimulus :: rest => cpu.reaction stimulus :: reactions (cpu.react stimulus).2 rest

def undergo (cpu : Cpu H) : Intervention → Cpu H
  | .stimulus stimulus => (cpu.react stimulus).2
  | .drain => cpu.withoutEffects
  | .assign change => cpu.restore (change cpu.toRegisters)

/-! ## What interventions leave alone -/

/-- Two handlers that one memoryless handler has become, or none at all. -/
inductive Interchangeable : Option H → Option H → Prop where
  | absent : Interchangeable none none
  | present {handler : H} (memoryless : Memoryless handler) (calls calls' : List Call) :
      Interchangeable (some (answered handler calls)) (some (answered handler calls'))

theorem interchangeable_self {handler : Option H} (memoryless : ∀ h ∈ handler, Memoryless h) :
    Interchangeable handler handler := by
  cases handler with
  | none => exact .absent
  | some handler => exact .present (memoryless handler rfl) [] []

theorem Interchangeable.symm {a b : Option H} (h : Interchangeable a b) : Interchangeable b a := by
  cases h with
  | absent => exact .absent
  | present memoryless calls calls' => exact .present memoryless calls' calls

theorem answered_concat (handler : H) (calls : List Call) (call : Call) :
    answered handler (calls ++ [call]) = (serve (answered handler calls) call).2 :=
  List.foldl_append

/-- The handler that is left after one that may be there served a call. -/
theorem Interchangeable.serve_right {a : Option H} {handler : H} (h : Interchangeable a handler)
    (call : Call) : Interchangeable a (some (serve handler call).2) := by
  cases h with
  | present memoryless calls calls' =>
      rw [← answered_concat]
      exact .present memoryless calls (calls' ++ [call])

structure Kindred (c d : Cpu H) : Prop where
  program : c.program = d.program
  handlers : Interchangeable c.handler d.handler

namespace Kindred

variable {c d : Cpu H}

theorem call (h : c.Kindred d) (code : Int32) : c.Kindred (d.call code) := by
  unfold Cpu.call
  split
  · exact h
  · rename_i handler installed
    have handlers := h.handlers
    rw [installed] at handlers
    exact ⟨h.program, handlers.serve_right _⟩

theorem executes {instruction : Instruction} {e : Cpu H} (h : c.Kindred d)
    (executes : d.Executes instruction e) : c.Kindred e := by
  cases executes with
  | called code => exact ⟨(h.call code).program, (h.call code).handlers⟩
  | _ => exact ⟨h.program, h.handlers⟩

theorem react (h : c.Kindred d) (stimulus : Stimulus) : c.Kindred (d.react stimulus).2 := by
  cases stimulus with
  | step =>
      rcases stepped : d.step with ⟨answer, after⟩
      simp only [Cpu.react, stepped]
      cases steps_of_step stepped with
      | held suspended => exact h
      | ended awake past => exact ⟨h.program, h.handlers⟩
      | executed awake current done executes => exact h.executes executes
      | failed awake current refused => exact h
  | input text =>
      have takes := d.takes_supply text
      simp only [Cpu.react]
      generalize (d.supply text).1 = answer, (d.supply text).2 = after at takes
      cases takes with
      | unasked busy => exact h
      | unread waits parsed => exact h
      | @taken waits number parsed =>
          have given : c.Kindred { d with accumulator := number, waitingForInput := false } :=
            ⟨h.program, h.handlers⟩
          unfold Cpu.read
          split
          · exact given.call sentinelCode
          · exact given

theorem undergo (h : c.Kindred d) (intervention : Intervention) :
    c.Kindred (d.undergo intervention) := by
  cases intervention with
  | stimulus stimulus => exact h.react stimulus
  | drain => exact ⟨h.program, h.handlers⟩
  | assign change => exact ⟨h.program, h.handlers⟩

theorem foldl_undergo (h : c.Kindred d) (interventions : List Intervention) :
    c.Kindred (interventions.foldl Cpu.undergo d) := by
  induction interventions generalizing d with
  | nil => exact h
  | cons intervention rest ih => exact ih (h.undergo intervention)

end Kindred

/-! ## Two processors with the same registers -/

/-- Kindred processors with the same registers. Their effects may differ. -/
structure Resembles (c d : Cpu H) : Prop extends c.Kindred d where
  registers : c.toRegisters = d.toRegisters

/-- `Follows c d c' d'`: while `c` and `d` became `c'` and `d'` they left the same effects, and they
resemble each other still. -/
structure Follows (c d c' d' : Cpu H) : Prop where
  resembles : c'.Resembles d'
  left : ∃ effects, c'.effects = c.effects ++ effects ∧ d'.effects = d.effects ++ effects

theorem Follows.next {c d c' d' : Cpu H} (h : Follows c d c' d') : Follows c d c'.next d'.next where
  resembles := by
    refine ⟨⟨h.resembles.program, h.resembles.handlers⟩, ?_⟩
    exact congrArg (fun r => { r with programCounter := r.programCounter + 1 })
      h.resembles.registers
  left := h.left

namespace Resembles

variable {c d : Cpu H}

theorem follows (h : c.Resembles d) : Follows c d c d :=
  ⟨h, [], (List.append_nil _).symm, (List.append_nil _).symm⟩

/-- The registers of both may be changed in the same way. -/
theorem write (h : c.Resembles d) (change : Registers → Registers) :
    Follows c d (c.restore (change c.toRegisters)) (d.restore (change d.toRegisters)) :=
  ⟨⟨⟨h.program, h.handlers⟩, congrArg change h.registers⟩, [], (List.append_nil _).symm,
    (List.append_nil _).symm⟩

theorem call (h : c.Resembles d) (code : Int32) : Follows c d (c.call code) (d.call code) := by
  obtain ⟨registers, program, handler, effects⟩ := c
  obtain ⟨registers', program', handler', effects'⟩ := d
  obtain ⟨⟨rfl, handlers⟩, rfl⟩ := h
  cases handlers with
  | absent => exact follows ⟨⟨rfl, .absent⟩, rfl⟩
  | @present handler memoryless calls calls' =>
      -- Both give the reply that the first of the handlers gives.
      simp only [Cpu.call, memoryless calls, memoryless calls']
      refine ⟨⟨⟨rfl, ?_⟩, rfl⟩, _, rfl, rfl⟩
      rw [← answered_concat, ← answered_concat]
      exact .present memoryless _ _

theorem execute (h : c.Resembles d) (instruction : Instruction) :
    Pairs (Follows c d) (c.execute instruction) (d.execute instruction) := by
  have data : c.data = d.data := congrArg Registers.data h.registers
  have accumulator : c.accumulator = d.accumulator := congrArg Registers.accumulator h.registers
  cases instruction with
  | arithmetic operation operand =>
      refine (Pairs.of_eq (congrArg operand.resolve data)).bind fun value _ same => ?_
      subst same
      refine (Pairs.of_eq (by rw [accumulator])).bind fun result _ same => ?_
      subst same
      exact .ok (h.write fun r => { r with accumulator := result }).next
  | load operand =>
      refine (Pairs.of_eq (congrArg operand.resolve data)).bind fun value _ same => ?_
      subst same
      exact .ok (h.write fun r => { r with accumulator := value }).next
  | store operand =>
      refine (Pairs.of_eq rfl).bind fun name _ same => ?_
      subst same
      exact .ok (h.write fun r => { r with data := r.data.insert name r.accumulator }).next
  | branch condition label =>
      by_cases holds : condition.holds c.accumulator
      · have holds' : condition.holds d.accumulator := accumulator ▸ holds
        simp only [Cpu.execute, if_pos holds, if_pos holds']
        refine (Pairs.of_eq (by rw [h.program])).bind fun programCounter _ same => ?_
        subst same
        exact .ok (h.write fun r => { r with programCounter })
      · have fails' : ¬ condition.holds d.accumulator := accumulator ▸ holds
        simp only [Cpu.execute, if_neg holds, if_neg fails']
        exact .ok h.follows.next
  | syscall operand =>
      refine (Pairs.of_eq rfl).bind fun code _ same => ?_
      subst same
      exact .ok (h.call code).next
  | unknown opcode => exact .fault _

theorem read (h : c.Resembles d) (text : String) (number : Int32) :
    Follows c d (c.read text number) (d.read text number) := by
  have written := h.write fun r => { r with accumulator := number, waitingForInput := false }
  unfold Cpu.read
  split
  · have called := written.resembles.call sentinelCode
    exact ⟨called.resembles, called.left⟩
  · exact written

theorem step (h : c.Resembles d) : c.step.1 = d.step.1 ∧ Follows c d c.step.2 d.step.2 := by
  have same : d.current? = c.current? := by
    rw [Cpu.current?, Cpu.current?, h.program, h.registers]
  have rests : d.isSuspended = c.isSuspended := by
    rw [Cpu.isSuspended, Cpu.isSuspended, h.registers]
  rcases stepped : c.step with ⟨answer, after⟩
  cases steps_of_step stepped with
  | held suspended =>
      rw [Cpu.step, if_pos (rests ▸ suspended)]
      exact ⟨rfl, h.follows⟩
  | ended awake past =>
      rw [Cpu.step, if_neg (rests ▸ awake), same, past]
      exact ⟨rfl, h.write fun r => { r with running := false }⟩
  | @executed awake instruction _ current done executes =>
      have outcomes := h.execute instruction
      rw [done] at outcomes
      generalize done' : d.execute instruction = result at outcomes
      cases outcomes with
      | ok follows =>
          rw [step_of_current (rests ▸ awake) (same.trans current), done']
          exact ⟨rfl, follows⟩
  | @failed awake instruction fault current refused =>
      have outcomes := h.execute instruction
      rw [refused] at outcomes
      generalize refused' : d.execute instruction = result at outcomes
      cases outcomes with
      | fault fault =>
          rw [step_of_current (rests ▸ awake) (same.trans current), refused']
          exact ⟨rfl, h.follows⟩

theorem supply (h : c.Resembles d) (text : String) :
    (c.supply text).1 = (d.supply text).1 ∧ Follows c d (c.supply text).2 (d.supply text).2 := by
  have same : d.waitingForInput = c.waitingForInput :=
    (congrArg Registers.waitingForInput h.registers).symm
  have takes := c.takes_supply text
  generalize (c.supply text).1 = answer, (c.supply text).2 = after at takes
  cases takes with
  | unasked busy =>
      rw [Cpu.supply, if_neg (same ▸ busy)]
      exact ⟨rfl, h.follows⟩
  | unread waits parsed =>
      rw [Cpu.supply, if_pos (same ▸ waits)]
      simp only [parsed]
      exact ⟨trivial, h.follows⟩
  | @taken waits number parsed =>
      rw [supply_eq_ok_true.2 ⟨same ▸ waits, number, parsed, rfl⟩]
      exact ⟨rfl, h.read text number⟩

/-- Processors that resemble each other show the same, leave what they show that they leave, and go
on to resemble each other. -/
theorem react (h : c.Resembles d) (stimulus : Stimulus) :
    c.reaction stimulus = d.reaction stimulus ∧
      (c.react stimulus).2.effects = c.effects ++ (c.reaction stimulus).effects ∧
      (c.react stimulus).2.Resembles (d.react stimulus).2 := by
  have same : (c.react stimulus).1 = (d.react stimulus).1 ∧
      Follows c d (c.react stimulus).2 (d.react stimulus).2 := by
    cases stimulus with
    | step => exact h.step
    | input text => exact h.supply text
  obtain ⟨answer, resembles, effects, left, right⟩ := same
  refine ⟨?_, ?_, resembles⟩
  · simp only [reaction, answer, resembles.registers, left, right, List.drop_left]
  · simp only [reaction, left, List.drop_left]

theorem reactions (h : c.Resembles d) (stimuli : List Stimulus) :
    c.reactions stimuli = d.reactions stimuli ∧
      (c.after stimuli).effects = c.effects ++ (c.reactions stimuli).flatMap (·.effects) := by
  induction stimuli generalizing c d with
  | nil => exact ⟨rfl, (List.append_nil _).symm⟩
  | cons stimulus rest ih =>
      obtain ⟨shown, left, resembles⟩ := h.react stimulus
      obtain ⟨later, leaves⟩ := ih resembles
      refine ⟨by rw [Cpu.reactions, Cpu.reactions, shown, later], ?_⟩
      show ((c.react stimulus).2.after rest).effects = _
      rw [leaves, left, Cpu.reactions, List.flatMap_cons, List.append_assoc]

end Resembles

/-- Saved registers make whatever was done to a processor since undone. With no handler, or with one
that answers each call by the call alone, the processor that is given back its registers reacts to
any steps and texts as it would have done when they were saved: with the same answers, the same
registers after each, and the same effects, which come after those that were there. A process that
is given back the registers of its processor is otherwise as it was. -/
theorem resumption_transparent (cpu : Cpu H)
    (memoryless : ∀ handler ∈ cpu.handler, Memoryless handler)
    (interventions : List Intervention) :
    let resumed := (interventions.foldl undergo cpu).restore cpu.toRegisters
    resumed.toRegisters = cpu.toRegisters ∧
    (∀ stimuli, resumed.reactions stimuli = cpu.reactions stimuli ∧
      (resumed.after stimuli).effects =
        resumed.effects ++ (cpu.reactions stimuli).flatMap (·.effects)) ∧
    ∀ (p : Process H) (registers : Registers),
      (p.restore registers).cpu = p.cpu.restore registers ∧
        (p.restore registers).withCpu p.cpu = p := by
  intro resumed
  have kindred : cpu.Kindred cpu := ⟨rfl, interchangeable_self memoryless⟩
  obtain ⟨program, handlers⟩ := kindred.foldl_undergo interventions
  have resembles : resumed.Resembles cpu := ⟨⟨program.symm, handlers.symm⟩, rfl⟩
  refine ⟨rfl, fun stimuli => ?_, fun p registers => ⟨rfl, rfl⟩⟩
  obtain ⟨same, left⟩ := resembles.reactions stimuli
  rw [same] at left
  exact ⟨same, left⟩

end Cpu

/-- A script remembers nothing. -/
theorem Script.memoryless (script : Script) : Memoryless script := by
  have same (calls : List Call) : answered script calls = script := by
    induction calls with
    | nil => rfl
    | cons call rest ih => exact ih
  intro calls call
  rw [same]

namespace Cpu

def summing : Program where
  instructions := [.syscall (.immediate 2), .arithmetic .add (.direct "sum"),
    .store (.direct "sum"), .syscall (.immediate 1), .branch .always (some "start")]
  labels := [("start", 0)]
  data := .ofList [("sum", 10)]

theorem resumption_transparent_summing :
    let script : Script := ⟨[(1, [.emitAccumulator]), (2, [.setWaiting true])]⟩
    let cpu := (fresh summing (some script)).after [.step]
    let interventions := [.stimulus (.input "5"), .stimulus .step, .stimulus .step,
      .stimulus .step, .assign fun r => { r with programCounter := 4, blocked := true }]
    let resumed := (interventions.foldl undergo cpu).restore cpu.toRegisters
    let stimuli := [.input "7", .step, .step, .step]
    (∀ handler ∈ cpu.handler, Memoryless handler) ∧
      (interventions.foldl undergo cpu).data.get? "sum" = some 15 ∧
      resumed.toRegisters = cpu.toRegisters ∧
      resumed.reactions stimuli = cpu.reactions stimuli ∧
      resumed.effects = [.output "15"] ∧
      (resumed.after stimuli).effects = [.output "15", .output "17"] := by
  intro script cpu interventions resumed stimuli
  have memoryless : ∀ handler ∈ cpu.handler, Memoryless handler :=
    fun handler _ => handler.memoryless
  obtain ⟨restored, reacts, -⟩ := resumption_transparent cpu memoryless interventions
  obtain ⟨same, left⟩ := reacts stimuli
  have before : resumed.effects = [.output "15"] := by decide +kernel
  have tells : (cpu.reactions stimuli).flatMap (·.effects) = [.output "17"] := by decide +kernel
  refine ⟨memoryless, by decide +kernel, restored, same, before, ?_⟩
  rw [left, tells]
  exact congrArg (· ++ [Effect.output "17"]) before

end Cpu

end Timeslice
