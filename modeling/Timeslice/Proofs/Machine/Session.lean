import Timeslice.Proofs.Machine.Cpu

/-! # Sessions

A session is a program on a processor of its own, with the standard services and nothing else: no
clock, no other process, no blocks. Processors that agree in progress go on to agree, whatever their
durations of blocks are, so a session stands for every run of its program.
-/

namespace Timeslice

/-! ## Processors that agree -/

structure Progress where
  accumulator : Int32
  programCounter : Nat
  data : Store
  waitingForInput : Bool
  program : Program

def Cpu.progress {H : Type} (cpu : Cpu H) : Progress :=
  ⟨cpu.accumulator, cpu.programCounter, cpu.data, cpu.waitingForInput, cpu.program⟩

def Effect.kind : Effect → Effect
  | .block _ => .block 0
  | effect => effect

theorem Effect.texts_map_kind (effects : List Effect) :
    Effect.texts (effects.map Effect.kind) = Effect.texts effects := by
  rw [texts, texts, List.filterMap_map]
  refine congrArg (fun f => effects.filterMap f) (funext fun effect => ?_)
  cases effect <;> rfl

theorem Effect.exit_mem_map_kind (effects : List Effect) :
    .exit ∈ effects.map Effect.kind ↔ .exit ∈ effects := by
  rw [List.mem_map]
  constructor
  · rintro ⟨effect, member, same⟩
    cases effect with
    | exit => exact member
    | block ticks => contradiction
    | output text => contradiction
  · intro member
    exact ⟨.exit, member, rfl⟩

def Services.kinds (code accumulator : Int32) : List Effect :=
  if code = Cpu.sentinelCode then [.output greeting]
  else if code = exitCode then [.exit]
  else if code = printCode then [.output (Text.decimal accumulator.toInt), .block 0]
  else []

namespace Cpu

section Calls

variable (cpu : Cpu Services) (code : Int32)

theorem progress_call (handled : cpu.handler.isSome) :
    (cpu.call code).progress =
      { cpu.progress with
        waitingForInput := cpu.waitingForInput || decide (code = Services.readCode) } := by
  obtain ⟨services, hc⟩ := Option.isSome_iff_exists.1 handled
  simp only [call, hc, serve, Services.answer, Call.ignored, progress]
  split
  · rename_i sentinel
    simp [sentinel, sentinelCode, Services.readCode]
  · split
    · rename_i exit
      simp [exit, Services.exitCode, Services.readCode]
    · split
      · rename_i print
        simp [print, Services.printCode, Services.readCode]
      · split
        · rename_i read
          simp [read]
        · rename_i other
          simp [other]

theorem kinds_call (handled : cpu.handler.isSome) :
    (cpu.call code).effects.map Effect.kind =
      cpu.effects.map Effect.kind ++ Services.kinds code cpu.accumulator := by
  obtain ⟨services, hc⟩ := Option.isSome_iff_exists.1 handled
  simp only [call, hc, serve, Services.answer, Call.ignored, Services.kinds, List.map_append]
  split
  · rfl
  · split
    · rfl
    · split
      · rfl
      · split <;> rfl

theorem isSome_handler_call : (cpu.call code).handler.isSome = cpu.handler.isSome := by
  unfold call
  split
  · rfl
  · rename_i handled
    rw [handled]
    rfl

end Calls

/-- Processors with the same progress that answer calls, and have left effects of the same kinds. -/
structure Agrees (c d : Cpu Services) : Prop where
  progress : c.progress = d.progress
  effects : c.effects.map Effect.kind = d.effects.map Effect.kind
  handled : c.handler.isSome
  handled' : d.handler.isSome

namespace Agrees

variable {c d : Cpu Services}

theorem accumulator (a : c.Agrees d) : c.accumulator = d.accumulator :=
  congrArg Progress.accumulator a.progress

theorem programCounter (a : c.Agrees d) : c.programCounter = d.programCounter :=
  congrArg Progress.programCounter a.progress

theorem data (a : c.Agrees d) : c.data = d.data := congrArg Progress.data a.progress

theorem waitingForInput (a : c.Agrees d) : c.waitingForInput = d.waitingForInput :=
  congrArg Progress.waitingForInput a.progress

theorem program (a : c.Agrees d) : c.program = d.program := congrArg Progress.program a.progress

theorem texts (a : c.Agrees d) : c.texts = d.texts := by
  rw [Cpu.texts, Cpu.texts, ← Effect.texts_map_kind, a.effects, Effect.texts_map_kind]

theorem exit_mem (a : c.Agrees d) : .exit ∈ c.effects ↔ .exit ∈ d.effects := by
  rw [← Effect.exit_mem_map_kind, a.effects, Effect.exit_mem_map_kind]

theorem call (a : c.Agrees d) (code : Int32) : (c.call code).Agrees (d.call code) where
  progress := by
    rw [progress_call c code a.handled, progress_call d code a.handled', a.progress,
      a.waitingForInput]
  effects := by
    rw [kinds_call c code a.handled, kinds_call d code a.handled', a.effects, a.accumulator]
  handled := isSome_handler_call c code ▸ a.handled
  handled' := isSome_handler_call d code ▸ a.handled'

end Agrees

/-- What an instruction comes to on two processors: one fault, or agreement. -/
inductive Outcomes : Except Fault (Cpu Services) → Except Fault (Cpu Services) → Prop where
  | fault (fault : Fault) : Outcomes (.error fault) (.error fault)
  | ok {c d : Cpu Services} (agrees : c.Agrees d) : Outcomes (.ok c) (.ok d)

theorem Outcomes.bind {α : Type} (x : Except Fault α) {f g : α → Except Fault (Cpu Services)}
    (h : ∀ a, Outcomes (f a) (g a)) : Outcomes (x >>= f) (x >>= g) := by
  cases x with
  | error e => exact .fault e
  | ok a => exact h a

namespace Agrees

variable {c d : Cpu Services}

theorem next (a : c.Agrees d) : c.next.Agrees d.next where
  progress := by
    simp only [Cpu.progress, Cpu.next, a.accumulator, a.programCounter, a.data, a.waitingForInput,
      a.program]
  effects := a.effects
  handled := a.handled
  handled' := a.handled'

theorem execute (a : c.Agrees d) (instruction : Instruction) :
    Outcomes (c.execute instruction) (d.execute instruction) := by
  have written (accumulator : Int32) (programCounter : Nat) (data : Store) :
      Agrees { c with accumulator, programCounter, data }
        { d with accumulator, programCounter, data } := by
    refine ⟨?_, a.effects, a.handled, a.handled'⟩
    simp only [Cpu.progress, a.waitingForInput, a.program]
  have pc := a.programCounter
  cases instruction with
  | arithmetic operation operand =>
      simp only [Cpu.execute, a.accumulator, a.data]
      refine .bind _ fun value => .bind _ fun accumulator => .ok ?_
      simpa only [Cpu.next, a.data, pc] using written accumulator (d.programCounter + 1) d.data
  | load operand =>
      simp only [Cpu.execute, a.data]
      refine .bind _ fun accumulator => .ok ?_
      simpa only [Cpu.next, a.data, pc] using written accumulator (d.programCounter + 1) d.data
  | store operand =>
      simp only [Cpu.execute]
      refine .bind _ fun name => .ok ?_
      simpa only [Cpu.next, a.data, pc, a.accumulator] using
        written d.accumulator (d.programCounter + 1) (d.data.insert name d.accumulator)
  | branch condition label =>
      simp only [Cpu.execute, a.accumulator, a.program]
      split
      · refine .bind _ fun programCounter => .ok ?_
        simpa only [a.data, a.accumulator, a.program] using
          written d.accumulator programCounter d.data
      · exact .ok a.next
  | syscall operand =>
      simp only [Cpu.execute]
      exact .bind _ fun code => .ok (a.call code).next
  | unknown opcode => exact .fault _

theorem withoutEffects (a : c.Agrees d) : c.withoutEffects.Agrees d.withoutEffects :=
  ⟨a.progress, rfl, a.handled, a.handled'⟩

/-- Stopping or blocking a processor does not count. -/
theorem of_freed {d' : Cpu Services} (a : c.Agrees d) (h : d'.freed = d.freed) : c.Agrees d' where
  progress := a.progress.trans (congrArg (fun cpu : Cpu Services => cpu.progress) h).symm
  effects := a.effects.trans (congrArg (fun cpu => cpu.effects.map Effect.kind) h).symm
  handled := a.handled
  handled' := congrArg (fun cpu => cpu.handler) h ▸ a.handled'

theorem read (a : c.Agrees d) (text : String) (number : Int32) :
    (c.read text number).Agrees (d.read text number) := by
  have written : Agrees { c with accumulator := number, waitingForInput := false }
      { d with accumulator := number, waitingForInput := false } := by
    refine ⟨?_, a.effects, a.handled, a.handled'⟩
    simp only [Cpu.progress, a.programCounter, a.data, a.program]
  unfold Cpu.read
  split
  · exact written.call sentinelCode
  · exact written

end Agrees

end Cpu

/-! ## Sessions -/

/-- A program on a processor of its own, with the texts it has made so far. -/
structure Session where
  cpu : Cpu Services
  texts : List String
  /-- Whether the program has asked to end. -/
  exited : Bool

namespace Session

def start (program : Program) (services : Services) : Session :=
  ⟨{ (Cpu.load program : Cpu Services) with handler := some services }, [], false⟩

/-- The session after a call of the processor, with the effects taken from it. Blocks have no
meaning here. -/
def drain (c : Session) (cpu : Cpu Services) : Session :=
  ⟨cpu.withoutEffects, c.texts ++ cpu.texts, cpu.effects.contains .exit⟩

/-- The session after one more instruction. There is none after an exit, after a fault, or when a
step executes nothing. -/
def step? (c : Session) : Option Session :=
  if c.exited then none
  else
    match c.cpu.step with
    | (.ok true, cpu) => some (c.drain cpu)
    | _ => none

def take? (c : Session) (text : String) : Option Session :=
  match c.cpu.supply text with
  | (.ok true, cpu) => some (c.drain cpu)
  | _ => none

def run : Nat → Session → Session
  | 0, c => c
  | limit + 1, c =>
    match c.step? with
    | some d => run limit d
    | none => c

/-- `c.Reaches count inputs d`: the session goes from `c` to `d` by `count` instructions and by
taking `inputs`. -/
inductive Reaches : Session → Nat → List String → Session → Prop where
  | refl (c : Session) : Reaches c 0 [] c
  | step {c d e : Session} {count : Nat} {inputs : List String} (stepped : c.step? = some d)
      (rest : Reaches d count inputs e) : Reaches c (count + 1) inputs e
  | take {c d e : Session} {count : Nat} {text : String} {inputs : List String}
      (taken : c.take? text = some d) (rest : Reaches d count inputs e) :
      Reaches c count (text :: inputs) e

variable {c d e : Session} {count : Nat} {text : String} {inputs : List String}

theorem Reaches.trans {count' : Nat} {inputs' : List String} (h : c.Reaches count inputs d)
    (h' : d.Reaches count' inputs' e) : c.Reaches (count + count') (inputs ++ inputs') e := by
  induction h with
  | refl c => rwa [Nat.zero_add]
  | step stepped _ ih =>
      rw [Nat.add_right_comm]
      exact .step stepped (ih h')
  | take taken _ ih => exact .take taken (ih h')

theorem step?_eq_some :
    c.step? = some d ↔ ¬ c.exited ∧ ∃ cpu, c.cpu.step = (.ok true, cpu) ∧ d = c.drain cpu := by
  unfold step?
  cases c.exited with
  | true => simp
  | false =>
      rcases stepped : c.cpu.step with ⟨fault | executed, cpu⟩
      · simp
      · cases executed <;> simp [eq_comm]

theorem take?_eq_some :
    c.take? text = some d ↔ ∃ cpu, c.cpu.supply text = (.ok true, cpu) ∧ d = c.drain cpu := by
  unfold take?
  rcases supplied : c.cpu.supply text with ⟨fault | taken, cpu⟩
  · simp
  · cases taken <;> simp [eq_comm]

theorem not_waiting_of_step? (h : c.step? = some d) : ¬ c.cpu.waitingForInput := by
  obtain ⟨-, cpu, stepped, -⟩ := step?_eq_some.1 h
  have awake := (Cpu.step_eq_ok_true.1 stepped).1
  intro waits
  simp [Cpu.isSuspended, waits] at awake

theorem waiting_of_take? (h : c.take? text = some d) : c.cpu.waitingForInput := by
  obtain ⟨cpu, supplied, -⟩ := take?_eq_some.1 h
  exact (Cpu.supply_eq_ok_true.1 supplied).1

/-- A session steps or takes input, and never has the choice: what it comes to is determined by how
many instructions it has executed and by its inputs. -/
theorem Reaches.unique (h : c.Reaches count inputs d) (h' : c.Reaches count inputs e) : d = e := by
  induction h with
  | refl c =>
      cases h'
      rfl
  | step stepped _ ih =>
      cases h' with
      | step stepped' rest' =>
          cases stepped.symm.trans stepped'
          exact ih rest'
      -- A session that can step does not wait, and one that can take input does.
      | take taken _ => exact (not_waiting_of_step? stepped (waiting_of_take? taken)).elim
  | take taken _ ih =>
      cases h' with
      | step stepped _ => exact (not_waiting_of_step? stepped (waiting_of_take? taken)).elim
      | take taken' rest' =>
          cases taken.symm.trans taken'
          exact ih rest'

/-- Without input a session is where running takes it. -/
theorem Reaches.run_add (h : c.Reaches count [] d) (limit : Nat) :
    run (count + limit) c = run limit d := by
  generalize none_taken : [] = inputs at h
  induction h with
  | refl c => rw [Nat.zero_add]
  | @step c d e count inputs stepped _ ih =>
      have steps : count + 1 + limit = count + limit + 1 := Nat.add_right_comm count 1 limit
      rw [steps, run, stepped]
      exact ih none_taken
  | take _ _ _ => contradiction

theorem texts_prefix_run (c : Session) (limit : Nat) : c.texts <+: (run limit c).texts := by
  induction limit generalizing c with
  | zero => exact List.prefix_refl _
  | succ limit ih =>
      unfold run
      split
      · rename_i d stepped
        obtain ⟨-, cpu, -, rfl⟩ := step?_eq_some.1 stepped
        exact (List.prefix_append c.texts cpu.texts).trans (ih (c.drain cpu))
      · exact List.prefix_refl _

theorem run_of_stopped (stopped : c.step? = none) (limit : Nat) : run limit c = c := by
  cases limit with
  | zero => rfl
  | succ limit => simp only [run, stopped]

end Session

end Timeslice
