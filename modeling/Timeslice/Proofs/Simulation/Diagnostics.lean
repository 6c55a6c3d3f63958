import Timeslice.Proofs.Kernel.Records
import Timeslice.Proofs.Simulation.Run
import Timeslice.Proofs.Simulation.Start

/-! # Diagnostics

The level of the logs has no influence on a simulation. What a run logs at one level is what it
logs at any lower level without the entries below it, tick for tick; all else is the same.
-/

namespace Timeslice

open Journal Recorder

def TickRecord.atLeast (minimum : Log.Level) (record : TickRecord) : TickRecord :=
  { record with logs := record.logs.filter fun entry => minimum.rank ≤ entry.level.rank }

namespace Simulation

structure Records where
  log : Log
  kernel : Kernel.Records

structure Writing where
  log : List Log.Entry
  kernel : Kernel.Writing

instance : Journal Records Writing where
  write r w := ⟨r.log.addAll w.log, write r.kernel w.kernel⟩
  nothing := ⟨[], nothing Kernel.Records⟩
  both v w := ⟨v.log ++ w.log, both Kernel.Records v.kernel w.kernel⟩
  write_nothing r := congrArg (Records.mk r.log) (write_nothing r.kernel)
  write_both r v w := by simp only [Log.addAll_append, write_both]

instance : Recorder Simulation Records where
  recording s r := { s with log := r.log, kernel := recording s.kernel r.kernel }

/-! ## The phases of a tick -/

section Phases

variable (s : Simulation)

/-- The simulation is as blind as its kernel. -/
theorem blind_kernel {α : Type} {f : Kernel Services → α × Kernel Services}
    (h : Blind f s.kernel) :
    Blind (fun s : Simulation => ((f s.kernel).1, { s with kernel := (f s.kernel).2 })) s := by
  obtain ⟨w, written⟩ := h
  refine ⟨⟨[], w⟩, fun r => ?_⟩
  have written : f (recording s r).kernel = _ := written r.kernel
  simp only [written]
  rfl

theorem blind_note (entry : Log.Entry) :
    Blind (fun s : Simulation => { s with log := s.log.add entry }) s := by
  refine ⟨⟨[entry], nothing Kernel.Records⟩, fun r => ?_⟩
  calc { recording s r with log := r.log.add entry }
      = recording { s with log := s.log.add entry } ⟨r.log.add entry, r.kernel⟩ := rfl
    _ = recording { s with log := s.log.add entry }
          (write r ⟨[entry], nothing Kernel.Records⟩) :=
      congrArg (recording _) (congrArg (Records.mk _) (write_nothing r.kernel).symm)

/-- What the table makes of input that is taken. -/
theorem blind_take (table : ProcessTable Services) (id : Pid) (input : String) (ticks : Nat) :
    Blind (fun table : ProcessTable Services =>
      (((table.supply id input).2.applyEffects id).1,
        (((table.supply id input).2.applyEffects id).2.block id ticks).2)) table := by
  have supplied := (table.blind_supply id input).snd
  have applied := (ProcessTable.blind_applyEffects _ id).comp supplied
  exact (ProcessTable.blind_block _ id ticks).snd.beside.comp applied

theorem offer_eq (id : Pid) (input : String) :
    s.offer id input = match (s.kernel.table.supply id input).1 with
      | .ok true =>
        ((((s.kernel.table.supply id input).2.applyEffects id).1,
          { s with
            kernel := { s.kernel with
              table := (((s.kernel.table.supply id input).2.applyEffects id).2.block id
                s.inputRotation.next.1).2 }
            inputRotation := s.inputRotation.next.2 }))
      | .ok false => ([], s)
      | .error fault =>
        ([], { s with
          log := s.log.add (.of .warn id s.now "input rejected" [("error", fault.message)]) }) := by
  unfold offer
  rcases s.kernel.table.supply id input with ⟨fault | _ | _, table⟩ <;> rfl

theorem blind_offer (id : Pid) (input : String) : Blind (·.offer id input) s := by
  have answer (r : Records) : ((recording s r).kernel.table.supply id input).1 =
      (s.kernel.table.supply id input).1 :=
    (s.kernel.table.blind_supply id input).fst r.kernel.table
  unfold Blind
  simp only [offer_eq, answer]
  rcases (s.kernel.table.supply id input).1 with fault | _ | _
  · exact (s.blind_note (.of .warn id s.now "input rejected" [("error", fault.message)])).pair []
  · exact (Blind.refl s).pair []
  · have taken := blind_take s.kernel.table id input s.inputRotation.next.1
    have turned (t : Simulation) :
        Blind (fun t : Simulation => { t with inputRotation := s.inputRotation.next.2 }) t :=
      .of_same fun _ => rfl
    exact (turned _).beside.comp (s.blind_kernel (s.kernel.blind_table taken))

theorem blind_deliver : Blind deliver s := by
  have waiting (r : Records) : (recording s r).waiting? = s.waiting? := rfl
  have inputs (r : Records) : (recording s r).inputs = s.inputs := rfl
  unfold Blind deliver
  simp only [waiting, inputs]
  cases s.waiting? with
  | none => exact (Blind.refl s).pair []
  | some p =>
      cases s.inputs with
      | nil => exact (Blind.refl s).pair []
      | cons input rest =>
          have spent : Blind (fun s : Simulation => { s with inputs := rest }) s :=
            .of_same fun _ => rfl
          exact ((blind_offer _ p.id input).comp spent).answer (·.map fun text => (p.id, text))

theorem blind_finishHalted : Blind finishHalted s := by
  have running (r : Records) :
      (recording s r).kernel.table.running? = s.kernel.table.running? := rfl
  unfold Blind finishHalted
  simp only [running]
  cases s.kernel.table.running? with
  | none => exact Blind.refl s
  | some p =>
      dsimp only
      split
      · have noted := s.blind_note (.of .info p.id s.now "program finished" [])
        exact (blind_kernel _ (Kernel.blind_terminate _ p.id .normal)).snd.comp noted
      · exact Blind.refl s

/-- A tick up to its end, when the records are reported. -/
def unfinished : (Option Pid × List (Pid × String)) × Simulation :=
  let (fromInput, s) := s.deliver
  let ((selected, _), kernel) := s.kernel.tick
  ((selected, fromInput), { s with kernel }.finishHalted)

theorem blind_unfinished : Blind unfinished s := by
  have ticked (given : List (Pid × String) × Simulation) :
      Blind (fun given : List (Pid × String) × Simulation =>
        ((given.2.kernel.tick.1.1, given.1), { given.2 with kernel := given.2.kernel.tick.2 }))
        given :=
    (given.2.blind_kernel given.2.kernel.blind_tick).answer
      fun answer : Option Pid × Bool => (answer.1, given.1)
  exact (blind_finishHalted _).beside.comp ((ticked _).comp s.blind_deliver)

theorem step_eq_conclude :
    s.step = s.unfinished.2.conclude s.unfinished.1.1 s.unfinished.1.2 := rfl

end Phases

/-! ## Ticks at any level -/

def Records.fresh (minimum : Log.Level) : Records :=
  ⟨.keeping minimum, .keeping minimum, .keeping minimum, []⟩

/-- The simulation at a level, with what is written to its records. -/
def logging (s : Simulation) (w : Writing) (minimum : Log.Level) : Simulation :=
  recording s (write (.fresh minimum) w)

/-- At the end of a tick, the records at a level are those without the entries below it. -/
theorem conclude_logging (s : Simulation) (w : Writing) (selected : Option Pid)
    (given : List (Pid × String)) :
    ∃ record t, ∀ minimum, (s.logging w minimum).conclude selected given =
      (TickRecord.atLeast minimum record, logging t (nothing Records) minimum) := by
  let all : Records := ⟨⟨.debug, w.log⟩, ⟨.debug, w.kernel.table⟩, ⟨.debug, w.kernel.scheduler⟩,
    w.kernel.audit⟩
  let concluded := (recording s all).conclude selected given
  refine ⟨concluded.1, concluded.2, fun minimum => ?_⟩
  let kept (entries : List Log.Entry) : Log :=
    ⟨minimum, entries.filter fun entry => minimum.rank ≤ entry.level.rank⟩
  have written : write (Records.fresh minimum) w =
      ⟨kept w.log, kept w.kernel.table, kept w.kernel.scheduler, w.kernel.audit⟩ := by
    simp only [write, Records.fresh, Log.addAll_eq]
    rfl
  have logs : (kept w.log).entries ++ (kept w.kernel.table).entries
      ++ (kept w.kernel.scheduler).entries = (TickRecord.atLeast minimum concluded.1).logs := by
    have all_logs : concluded.1.logs = w.log ++ w.kernel.table ++ w.kernel.scheduler := rfl
    rw [TickRecord.atLeast, all_logs, List.filter_append, List.filter_append]
  rw [logging, written]
  refine Prod.ext ?_ rfl
  exact congrArg (TickRecord.mk concluded.1.tick concluded.1.selected concluded.1.output
    concluded.1.events) logs

/-- A tick does the same at every level, and reports what the level keeps. -/
theorem step_logging (s : Simulation) (w : Writing) :
    ∃ record t, ∀ minimum, (s.logging w minimum).step =
      (TickRecord.atLeast minimum record, logging t (nothing Records) minimum) := by
  obtain ⟨v, written⟩ := s.blind_unfinished
  obtain ⟨record, t, concluded⟩ :=
    conclude_logging s.unfinished.2 (both Records w v) s.unfinished.1.1 s.unfinished.1.2
  refine ⟨record, t, fun minimum => ?_⟩
  have unfinished : (s.logging w minimum).unfinished =
      (s.unfinished.1, s.unfinished.2.logging (both Records w v) minimum) := by
    rw [logging, written, ← write_both]
    rfl
  rw [step_eq_conclude, unfinished, concluded]

theorem after_logging (s : Simulation) (w : Writing) (ticks : Nat) :
    ∃ t v, ∀ minimum, (s.logging w minimum).after ticks = logging t v minimum := by
  induction ticks with
  | zero => exact ⟨s, w, fun _ => rfl⟩
  | succ ticks ih =>
      obtain ⟨t, v, before⟩ := ih
      obtain ⟨record, u, stepped⟩ := t.step_logging v
      refine ⟨u, nothing Records, fun minimum => ?_⟩
      rw [after, before, stepped]

/-! ## The start at any level -/

theorem blind_addProcess (range : BlockRange) (spec : ProcessSpec) (index : Nat)
    (k : Kernel Services) : Blind (addProcess range · spec index) k := by
  cases given : spec.source with
  | error e =>
      apply Blind.of_same
      intro r
      simp only [addProcess, given]
      rfl
  | ok source =>
      obtain ⟨entries, created⟩ := k.table.blind_create spec.name source spec.arrivalTime
        spec.schedulingClass spec.priority
      apply k.blind_of_logs entries []
      intro r
      have created : (recording k r).table.create spec.name source spec.arrivalTime
        spec.schedulingClass spec.priority = _ := created r.table
      simp only [addProcess, given, bind, Except.bind, created]
      rcases k.table.create spec.name source spec.arrivalTime spec.schedulingClass
        spec.priority with ⟨reason | id, table⟩
      · rfl
      · rfl

theorem blind_addAll (range : BlockRange) (entries : List (ProcessSpec × Nat))
    (k : Kernel Services) :
    Blind (fun k => entries.foldlM (fun kernel entry => addProcess range kernel entry.1 entry.2) k)
      k := by
  induction entries generalizing k with
  | nil => exact .of_same fun _ => rfl
  | cons entry rest ih =>
    simp only [List.foldlM_cons]
    exact Blind.bind ih (blind_addProcess range entry.1 entry.2 k)

def ofKernel (scenario : Scenario) (kernel : Kernel Services) : Simulation where
  maxTicks := scenario.maxTicks
  kernel
  inputs := scenario.inputs
  inputRotation := .of scenario.blockTicks 0
  log := .keeping scenario.logLevel
  output := []

/-- The start is the same at every level. -/
theorem create_logging (scenario : Scenario) :
    (∃ e, ∀ minimum, create { scenario with logLevel := minimum } = .error e) ∨
      ∃ s w, ∀ minimum,
        create { scenario with logLevel := minimum } = .ok (logging s w minimum) := by
  let start : Kernel Services := (Kernel.empty .debug).setQuantum scenario.quantum
  obtain ⟨w, populated⟩ := blind_addAll scenario.blockTicks scenario.processes.zipIdx start
  have created (minimum : Log.Level) : create { scenario with logLevel := minimum } =
      Except.map (ofKernel { scenario with logLevel := minimum }) (recording
        (scenario.processes.zipIdx.foldlM
          (fun kernel entry => addProcess scenario.blockTicks kernel entry.1 entry.2) start)
        (write (Records.fresh minimum).kernel w)) :=
    congrArg (Except.map _) (populated (Records.fresh minimum).kernel)
  simp only [created]
  cases scenario.processes.zipIdx.foldlM
      (fun kernel entry => addProcess scenario.blockTicks kernel entry.1 entry.2) start with
  | error e => exact .inl ⟨e, fun _ => rfl⟩
  | ok k => exact .inr ⟨ofKernel scenario k, ⟨[], w⟩, fun _ => rfl⟩

/-! ## The influence of the records -/

theorem atLeast_atLeast {low high : Log.Level} (le : low.rank ≤ high.rank)
    (record : TickRecord) : (record.atLeast low).atLeast high = record.atLeast high := by
  unfold TickRecord.atLeast
  simp only [List.filter_filter]
  congr 1
  apply List.filter_congr
  intro entry _
  rw [← Bool.decide_and]
  have same : high.rank ≤ entry.level.rank ∧ low.rank ≤ entry.level.rank ↔
      high.rank ≤ entry.level.rank := by omega
  simp only [same]

/-- Diagnostics have no influence. Two runs of a scenario at two levels fail alike at the start, or
else are the same after any number of ticks, but for what is in the logs, and the tick after that is
reported alike. What it logs at the higher level is what it logs at the lower one without the
entries below the higher, in order; nothing is below the level for debugging.

Operations of a kernel respond the same, answer and events recorded, and leave the same kernel, but
for its records, whatever is done to the records between them. -/
theorem diagnostics_inert :
    (∀ (scenario : Scenario) (low high : Log.Level),
      match create { scenario with logLevel := low },
        create { scenario with logLevel := high } with
      | .ok s, .ok t => ∀ ticks,
        let u := s.after ticks
        let v := t.after ticks
        (∃ r : Records, v = recording u r) ∧
          v.kernel.table.reports = u.kernel.table.reports ∧ v.inputs = u.inputs ∧
          v.output = u.output ∧ v.ending? = u.ending? ∧
          { v.step.1 with logs := [] } = { u.step.1 with logs := [] } ∧
          (low.rank ≤ high.rank → v.step.1.logs =
            u.step.1.logs.filter fun entry => high.rank ≤ entry.level.rank)
      | .error e, .error f => e = f
      | _, _ => False) ∧
    ∀ {H : Type} [SyscallHandler H] (k : Kernel H) (calls : List (Operation H ⊕ Kernel.Upkeep)),
      let operations := calls.filterMap Sum.getLeft?
      (∃ r : Kernel.Records, k.actAll calls = recording (k.performAll operations) r) ∧
        (k.actAll calls).table.processes = (k.performAll operations).table.processes ∧
        k.responses calls = k.responses (operations.map .inl) := by
  constructor
  · intro scenario low high
    rcases create_logging scenario with ⟨e, failed⟩ | ⟨s, w, created⟩
    · simp only [failed]
    · simp only [created]
      intro ticks
      obtain ⟨t, v, reached⟩ := s.after_logging w ticks
      obtain ⟨record, u, stepped⟩ := t.step_logging v
      simp only [reached, stepped]
      refine ⟨⟨write (Records.fresh high) v, rfl⟩, rfl, rfl, rfl, rfl, rfl, ?_⟩
      intro le
      exact (congrArg TickRecord.logs (atLeast_atLeast le record)).symm
  · intro H _ k calls
    have own : recording k ⟨k.table.log, k.scheduler.log, k.scheduler.audit⟩ = k := rfl
    obtain ⟨⟨r, left⟩, responses⟩ :=
      k.actAll_recording calls ⟨k.table.log, k.scheduler.log, k.scheduler.audit⟩
    rw [own] at left responses
    refine ⟨⟨r, left⟩, ?_, responses⟩
    rw [left]
    rfl

def unbound : Scenario where
  quantum := 2
  maxTicks := 100
  logLevel := .info
  blockTicks := .standard
  inputs := []
  processes := [⟨"unbound", 0, .realtime, .high, some ".code\nLOAD nowhere", none⟩]

theorem diagnostics_inert_unbound :
    ∃ s t, create { unbound with logLevel := .debug } = .ok s ∧
      create { unbound with logLevel := .warn } = .ok t ∧
      t.step.1.events = s.step.1.events ∧
      s.step.1.logs.map (·.level) = [.info, .info, .info, .debug, .error] ∧
      t.step.1.logs.map (·.level) = [.error] ∧
      t.step.1.logs = s.step.1.logs.filter fun entry => Log.Level.warn.rank ≤ entry.level.rank := by
  obtain ⟨s, hs⟩ : ∃ s, create { unbound with logLevel := .debug } = .ok s :=
    exists_ok (by decide +kernel)
  obtain ⟨t, ht⟩ : ∃ t, create { unbound with logLevel := .warn } = .ok t :=
    exists_ok (by decide +kernel)
  have low : ∀ s ∈ (create { unbound with logLevel := .debug }).toOption,
      s.step.1.logs.map (·.level) = [.info, .info, .info, .debug, .error] := by decide +kernel
  have high : ∀ t ∈ (create { unbound with logLevel := .warn }).toOption,
      t.step.1.logs.map (·.level) = [.error] := by decide +kernel
  rw [hs] at low
  rw [ht] at high
  have inert := diagnostics_inert.1 unbound .debug .warn
  simp only [hs, ht] at inert
  have first := inert 0
  simp only [after] at first
  obtain ⟨-, -, -, -, -, record, kept⟩ := first
  have events := congrArg TickRecord.events record
  exact ⟨s, t, hs, ht, events, low s rfl, high t rfl, kept (by decide)⟩

end Simulation

end Timeslice
