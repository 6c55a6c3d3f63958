import Timeslice.Proofs.Kernel.Programs
import Timeslice.Proofs.Kernel.Scheduling
import Timeslice.Simulation.Basic

/-! # Runs of a simulation

A tick has four phases: input is delivered, time passes and a process is chosen, the chosen process
executes an instruction, and a process past its last instruction is closed. Each phase is one
function on the processes, and each keeps the kernel coherent.
-/

namespace Timeslice

/-! ## The phases of a tick -/

namespace Simulation

/-- The process that takes the next input in the next tick, with the text that it takes. -/
def acceptance? (s : Simulation) : Option (Process Services × String) :=
  match s.waiting?, s.inputs with
  | some p, text :: _ =>
    match p.cpu.supply text with
    | (.ok true, _) => some (p, text)
    | _ => none
  | _, _ => none

/-- The kernel in the next tick when the process is chosen and has not yet executed anything. -/
def poised (s : Simulation) : Kernel Services := s.deliver.2.kernel.advance.schedule.2

def execution? (s : Simulation) : Option (Process Services × Instruction) := s.poised.execution?

/-- The kernel at the end of the next tick, with the records of the tick. -/
def closed (s : Simulation) : Kernel Services := s.poised.execute.2.close

variable {s : Simulation} {p : Process Services} {text : String}

theorem waiting?_eq_some (h : s.waiting? = some p) :
    p ∈ s.kernel.table.processes ∧ ¬ p.isExited ∧ p.cpu.waitingForInput := by
  have waits := List.find?_some h
  simp only [Bool.and_eq_true, Bool.not_eq_true'] at waits
  exact ⟨List.mem_of_find?_eq_some h, by simp [waits.1], waits.2⟩

theorem acceptance?_eq_some (h : s.acceptance? = some (p, text)) :
    s.waiting? = some p ∧ (∃ rest, s.inputs = text :: rest) ∧
      ∃ cpu, p.cpu.supply text = (.ok true, cpu) := by
  unfold acceptance? at h
  split at h
  · rename_i q input rest waiting inputs
    split at h
    · rename_i cpu supplied
      cases h
      exact ⟨waiting, ⟨rest, inputs⟩, cpu, supplied⟩
    · contradiction
  · contradiction

theorem deliver_of_acceptance (h : s.kernel.Coherent) (accepted : s.acceptance? = some (p, text)) :
    s.deliver = ((p.receive text).cpu.texts.map fun output => (p.id, output),
      { s with
        inputs := s.inputs.tail
        kernel := { s.kernel with
          table := (((s.kernel.table.supply p.id text).2.applyEffects p.id).2.block p.id
            s.inputRotation.next.1).2 }
        inputRotation := s.inputRotation.next.2 }) := by
  obtain ⟨waiting, ⟨rest, inputs⟩, cpu, supplied⟩ := acceptance?_eq_some accepted
  have found := h.distinct.find?_of_mem (waiting?_eq_some waiting).1
  have received : p.receive text = p.withCpu cpu := by simp only [Process.receive, supplied]
  have answer : (s.kernel.table.supply p.id text).1 = .ok true := by
    simp only [ProcessTable.supply, found, supplied]
  have becomes := h.distinct.becomes_supply p.id text
  have found' : (s.kernel.table.supply p.id text).2.find? p.id = some (p.receive text) := by
    rw [becomes.find?, found, Option.map_some, Process.only_of_eq _ rfl]
  have texts := ProcessTable.texts_applyEffects found'
  rcases supply : s.kernel.table.supply p.id text with ⟨given, table⟩
  rw [supply] at answer texts
  subst answer
  simp only [deliver, waiting, inputs, offer, supply, List.tail_cons, ← texts]

/-- Delivering that gives no input to any process spends one if a process waits. -/
theorem deliver_of_no_acceptance (h : s.kernel.Coherent) (refused : s.acceptance? = none) :
    ∃ log, s.deliver = ([], { s with
      inputs := if s.waiting?.isSome then s.inputs.tail else s.inputs
      log }) := by
  unfold acceptance? at refused
  split at refused
  · rename_i q input rest waiting inputs
    have found := h.distinct.find?_of_mem (waiting?_eq_some waiting).1
    split at refused
    · contradiction
    · rename_i no
      have answer :
          s.kernel.table.supply q.id input = ((q.cpu.supply input).1, s.kernel.table) := by
        simp only [ProcessTable.supply, found]
        split
        · rename_i cpu supplied
          exact (no cpu supplied).elim
        · rename_i given cpu _ supplied
          rw [supplied]
      simp only [deliver, waiting, inputs, offer, answer, Option.isSome_some, if_true,
        List.tail_cons]
      split
      · rename_i supplied
        have taken : (q.cpu.supply input).1 = .ok true := congrArg Prod.fst supplied
        exact (no (q.cpu.supply input).2 (by rw [← taken])).elim
      · exact ⟨s.log, rfl⟩
      · exact ⟨_, rfl⟩
  · rename_i nothing
    cases waiting : s.waiting? with
    | none =>
        simp only [deliver, waiting]
        exact ⟨s.log, rfl⟩
    | some q =>
        cases inputs : s.inputs with
        | nil =>
            have same : s.deliver = ([], s) := by simp only [deliver, waiting, inputs]
            refine ⟨s.log, ?_⟩
            rw [same, ← inputs, ite_eq_right_iff.2 fun _ => by rw [inputs, List.tail_nil]]
        | cons input rest => exact (nothing q input rest waiting inputs).elim

theorem becomes_deliver (h : s.kernel.Coherent) (accepted : s.acceptance? = some (p, text)) :
    s.kernel.table.Becomes
      (Process.only p.id (Process.intake s.now s.inputRotation.next.1 text))
      s.deliver.2.kernel.table := by
  rw [deliver_of_acceptance h accepted]
  have supplied := h.distinct.becomes_supply p.id text
  have distinct := supplied.distinct h.distinct
  have applied := distinct.becomes_applyEffects p.id
  have blocked := (applied.distinct distinct).becomes_block p.id s.inputRotation.next.1
  have origin (q : Process Services) :
      ((q.receive text).absorb s.now).origin = q.origin := by simp
  rw [supplied.now] at applied
  rw [applied.now, supplied.now] at blocked
  refine (supplied.trans_only applied (Process.origin_receive text)
    (Process.origin_absorb _)).trans_only blocked origin fun q => ?_
  exact Process.origin_feel _ q _

/-- Delivering leaves each process as it was, but for the one that takes the input. -/
theorem exists_of_mem_deliver (h : s.kernel.Coherent) {q : Process Services}
    (hq : q ∈ s.deliver.2.kernel.table.processes) :
    ∃ p ∈ s.kernel.table.processes, q.id = p.id ∧ (q = p ∨ ∃ text cpu,
      s.acceptance? = some (p, text) ∧ p.cpu.supply text = (.ok true, cpu) ∧
        q = p.intake s.now s.inputRotation.next.1 text) := by
  cases accepted : s.acceptance? with
  | none =>
      obtain ⟨log, delivered⟩ := deliver_of_no_acceptance h accepted
      rw [delivered] at hq
      exact ⟨q, hq, rfl, .inl rfl⟩
  | some given =>
      obtain ⟨r, text⟩ := given
      obtain ⟨waiting, -, cpu, supplied⟩ := acceptance?_eq_some accepted
      obtain ⟨p, hp, same, rfl⟩ := (becomes_deliver h accepted).exists_of_mem hq
      refine ⟨p, hp, same, ?_⟩
      by_cases taker : p.id = r.id
      · rw [Process.only_of_eq _ taker]
        obtain rfl := h.distinct.eq_of_id hp (waiting?_eq_some waiting).1 taker
        exact .inr ⟨text, cpu, rfl, supplied, rfl⟩
      · exact .inl (Process.only_of_ne _ taker)

theorem scheduler_deliver (h : s.kernel.Coherent) :
    s.deliver.2.kernel.scheduler = s.kernel.scheduler := by
  cases accepted : s.acceptance? with
  | none =>
      obtain ⟨log, delivered⟩ := deliver_of_no_acceptance h accepted
      rw [delivered]
  | some given => rw [deliver_of_acceptance h accepted]

theorem inputs_deliver (h : s.kernel.Coherent) :
    s.deliver.2.inputs = if s.waiting?.isSome then s.inputs.tail else s.inputs := by
  cases accepted : s.acceptance? with
  | none =>
      obtain ⟨log, delivered⟩ := deliver_of_no_acceptance h accepted
      rw [delivered]
  | some given =>
      rw [deliver_of_acceptance h accepted, (acceptance?_eq_some accepted).1]
      rfl

theorem output_deliver (h : s.kernel.Coherent) : s.deliver.2.output = s.output := by
  cases accepted : s.acceptance? with
  | none =>
      obtain ⟨log, delivered⟩ := deliver_of_no_acceptance h accepted
      rw [delivered]
  | some given => rw [deliver_of_acceptance h accepted]

theorem coherent_deliver (h : s.kernel.Coherent) : s.deliver.2.kernel.Coherent := by
  cases accepted : s.acceptance? with
  | none =>
      obtain ⟨log, delivered⟩ := deliver_of_no_acceptance h accepted
      rw [delivered]
      exact h
  | some given =>
      refine h.becomes (becomes_deliver h accepted) fun q hq running => ?_
      rw [scheduler_deliver h]
      refine h.selected q hq ?_
      exact Kernel.isRunning_of_only (fun _ => Process.isRunning_of_intake) running

theorem coherent_poised (h : s.kernel.Coherent) : s.poised.Coherent :=
  (coherent_deliver h).advance.schedule

theorem coherent_closed (h : s.kernel.Coherent) : s.closed.Coherent :=
  (coherent_poised h).execute.close

/-! ## Whole ticks -/

theorem finishHalted_eq (s : Simulation) :
    ∃ log, s.finishHalted = { s with kernel := s.kernel.close, log } := by
  unfold finishHalted Kernel.close Kernel.finished?
  cases s.kernel.table.running? with
  | none => exact ⟨s.log, rfl⟩
  | some p =>
      by_cases due : (p.cpu.isHalted && !p.cpu.waitingForInput) = true
      · simp only [Option.filter, due, if_true]
        exact ⟨_, rfl⟩
      · simp only [Option.filter, due, if_false, Bool.false_eq_true]
        exact ⟨s.log, rfl⟩

def line? (tick : Nat) : Event → Option Output
  | .output process text _ => some ⟨tick, process, text⟩
  | _ => none

structure Ticks (s l : Simulation) (record : TickRecord) : Prop where
  processes : l.kernel.table.processes = s.closed.table.processes
  clock : l.kernel.table.clock = s.closed.table.clock
  nextId : l.kernel.table.nextId = s.closed.table.nextId
  settings : l.kernel.scheduler.settings = s.closed.scheduler.settings
  current : l.kernel.scheduler.current = s.closed.scheduler.current
  audit : l.kernel.scheduler.audit = []
  inputs : l.inputs = s.deliver.2.inputs
  inputRotation : l.inputRotation = s.deliver.2.inputRotation
  output : l.output = s.output ++ record.output
  events : record.events = s.closed.scheduler.audit
  lines : record.output = (s.deliver.1.map fun given => ⟨s.closed.now, given.1, given.2⟩)
    ++ s.closed.scheduler.audit.filterMap (line? s.closed.now)

theorem step_eq (s : Simulation) :
    ∃ log selected, s.step = conclude { s.deliver.2 with kernel := s.closed, log } selected
      s.deliver.1 := by
  obtain ⟨log, finished⟩ := finishHalted_eq { s.deliver.2 with kernel := s.poised.execute.2 }
  refine ⟨log, s.deliver.2.kernel.advance.schedule.1, ?_⟩
  rw [closed, ← finished]
  rfl

theorem ticks_step (h : s.kernel.Coherent) : s.Ticks s.step.2 s.step.1 := by
  obtain ⟨log, selected, stepped⟩ := s.step_eq
  have output := output_deliver h
  have line : (fun event : Event => match event with
      | .output process text _ => some (Output.mk s.closed.now process text)
      | _ => none) = line? s.closed.now := by
    funext event
    cases event <;> rfl
  rw [stepped]
  constructor
  case output => simp only [conclude, output]
  case lines => simp only [conclude, ← line]; rfl
  all_goals simp only [conclude, ProcessTable.withoutLog, Scheduler.withoutLog,
    Scheduler.withoutAudit]

theorem coherent_step (h : s.kernel.Coherent) : s.step.2.kernel.Coherent := by
  have ticks := ticks_step h
  have closed := coherent_closed h
  constructor
  · constructor
    · rw [ticks.processes]
      exact closed.distinct.nodup
    · rw [ticks.processes, ticks.nextId]
      exact closed.distinct.below
  · rw [ticks.processes, ticks.current]
    exact closed.selected

/-! ## Runs -/

def after (s : Simulation) : Nat → Simulation
  | 0 => s
  | ticks + 1 => (s.after ticks).step.2

def records (s : Simulation) : Nat → List TickRecord
  | 0 => []
  | ticks + 1 => s.records ticks ++ [(s.after ticks).step.1]

theorem coherent_after (h : s.kernel.Coherent) (ticks : Nat) : (s.after ticks).kernel.Coherent := by
  induction ticks with
  | zero => exact h
  | succ ticks ih => exact coherent_step ih

end Simulation

end Timeslice
