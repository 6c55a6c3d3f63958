import Timeslice.Proofs.Kernel.Faults
import Timeslice.Proofs.Kernel.InPlace
import Timeslice.Proofs.Kernel.Operation
import Timeslice.Proofs.Kernel.Programs
import Timeslice.Services

/-! # Faults contained

Executing reaches the selected process and no other, whatever that process does and whatever it has
left for others to do. A fault ends the process with its registers as they were, and all that the
rest of the system sees of it is an event and an error in the log.
-/

namespace Timeslice

variable {H : Type}

namespace ProcessTable

/-- `table.Spares selected after`: no process but the selected one is changed, nor is the clock or
the id given out next. -/
structure Spares (table : ProcessTable H) (selected : Option Pid) (after : ProcessTable H) :
    Prop where
  clock : after.clock = table.clock
  nextId : after.nextId = table.nextId
  ids : after.processes.map (·.id) = table.processes.map (·.id)
  others : ∀ (place : Nat) (p : Process H), table.processes[place]? = some p →
    selected ≠ some p.id → after.processes[place]? = some p

theorem Becomes.spares {table after : ProcessTable H} {f : Process H → Process H}
    {selected : Option Pid} (h : table.Becomes f after)
    (fixed : ∀ p ∈ table.processes, selected ≠ some p.id → f p = p) :
    table.Spares selected after where
  clock := h.clock
  nextId := h.nextId
  ids := h.ids
  others place p stands other := by
    rw [h.processes, List.getElem?_map, stands, Option.map_some,
      fixed p (List.mem_of_getElem? stands) other]

end ProcessTable

/-- A turn that executes no instruction leaves what a program can tell as it was. -/
theorem Process.freed_turn_of_idle [SyscallHandler H] (p : Process H) (now : Nat)
    (idle : ¬ p.executes) :
    (p.turn now).cpu.withoutEffects.freed = p.cpu.withoutEffects.freed := by
  unfold executes at idle
  unfold turn
  rcases stepped : p.cpu.step with ⟨fault | executed, cpu⟩
  · rfl
  · cases executed with
    | true =>
        rw [stepped] at idle
        exact absurd rfl idle
    | false =>
        have shed := (p.withCpu cpu).freed_absorb now
        have kept := Cpu.freed_of_idle_step stepped
        exact congrArg Cpu.withoutEffects (shed.trans (congrArg Cpu.withoutEffects kept))

namespace Kernel

/-- `k.Faces p instruction`: process `p` is selected, runs, and is about to execute the
instruction. -/
structure Faces (k : Kernel H) (p : Process H) (instruction : Instruction) : Prop where
  there : p ∈ k.table.processes
  selected : k.scheduler.current = some p.id
  running : p.isRunning
  awake : ¬ p.cpu.isSuspended
  current : p.cpu.current? = some instruction

/-- `k.Loses p instruction fault l`: `l` is what a fault of an instruction of `p` leaves of `k`. The
process keeps everything but its state and its right to run. -/
structure Loses (k : Kernel H) (p : Process H) (instruction : Instruction) (fault : Fault)
    (l : Kernel H) : Prop where
  process : l.table.find? p.id =
    some { p with state := .exit, cpu := { p.cpu with running := false } }
  selection : l.scheduler.current = none
  audit : l.scheduler.audit = k.scheduler.audit ++ [.exited p.id .failed k.now]
  log : l.scheduler.log.entries = k.scheduler.log.entries ++ [.of .error p.id k.now fault.message [
    ("pc", Text.decimal p.cpu.programCounter), ("instruction", instruction.text)]]
  tableErrors : l.table.log.errors = k.table.log.errors

variable {k : Kernel H} {p : Process H} {instruction : Instruction}

/-- A fault is logged whatever the minimum level is. -/
theorem entries_fail (found : k.table.find? p.id = some p) (fault : Fault) :
    (k.fail p fault).scheduler.log.entries =
      k.scheduler.log.entries ++ [.of .error p.id k.now fault.message [
        ("pc", Text.decimal p.cpu.programCounter),
        ("instruction", (p.cpu.current?.map (·.text)).getD "")]] := by
  have ended (s : Scheduler) := terminate_of_find? (k := ⟨k.table, s⟩) found .failed
  simp only [fail, ended, Scheduler.record, log_deselect, Scheduler.note, Log.entries_add]
  rw [List.filter_cons_of_pos (Log.keeps_of_isError _ rfl), List.filter_nil]

namespace Faces

theorem running? (faces : k.Faces p instruction) (h : k.Coherent) : k.table.running? = some p :=
  h.running?_eq_some.2 ⟨faces.there, faces.running⟩

variable [SyscallHandler H]

theorem step_of_ok (faces : k.Faces p instruction) {cpu : Cpu H}
    (done : p.cpu.execute instruction = .ok cpu) : p.cpu.step = (.ok true, cpu) := by
  rw [Cpu.step_of_current faces.awake faces.current, done]
  rfl

theorem step_of_error (faces : k.Faces p instruction) {fault : Fault}
    (refused : p.cpu.execute instruction = .error fault) : p.cpu.step = (.error fault, p.cpu) := by
  rw [Cpu.step_of_current faces.awake faces.current, refused]
  rfl

end Faces

variable [SyscallHandler H]

namespace Coherent

theorem spares_execute (h : k.Coherent) : k.table.Spares k.scheduler.current k.execute.2.table :=
  h.becomes_execute.spares fun p hp other => if_neg fun running => other (h.selected p hp running)

/-- Executing answers whether the selected process executed its instruction. -/
theorem execute_iff (h : k.Coherent) : k.execute.1 = true ↔
    ∃ p instruction cpu, k.Faces p instruction ∧ p.cpu.execute instruction = .ok cpu := by
  rw [← h.isSome_execution?, Option.isSome_iff_exists]
  constructor
  · rintro ⟨⟨p, instruction⟩, executes⟩
    obtain ⟨hr, cpu, stepped⟩ := execution?_eq_some executes
    obtain ⟨hp, running⟩ := h.running?_eq_some.1 hr
    obtain ⟨awake, instruction, current, done⟩ := Cpu.step_eq_ok_true.1 stepped
    exact ⟨p, instruction, cpu, ⟨hp, h.selected p hp running, running, awake, current⟩, done⟩
  · rintro ⟨p, instruction, cpu, faces, done⟩
    obtain ⟨instruction, executes, -⟩ :=
      execution?_of_step (faces.running? h) (faces.step_of_ok done)
    exact ⟨_, executes⟩

/-- The process that executed its instruction has only its effects left to bear. -/
theorem find?_execute (h : k.Coherent) (faces : k.Faces p instruction) {cpu : Cpu H}
    (done : p.cpu.execute instruction = .ok cpu) :
    k.execute.2.table.find? p.id = some ((p.withCpu cpu).absorb k.now) := by
  rw [h.becomes_execute.find?, h.distinct.find?_of_mem faces.there, Option.map_some,
    if_pos faces.running]
  simp only [Process.turn, faces.step_of_ok done]

/-- Where no instruction was executed, every process could execute the same as before. -/
theorem freed_of_not_executed (h : k.Coherent) (idle : k.execute.1 = false)
    {place : Nat} (stands : k.table.processes[place]? = some p) :
    ∃ q, k.execute.2.table.processes[place]? = some q ∧
      q.cpu.withoutEffects.freed = p.cpu.withoutEffects.freed := by
  refine ⟨if p.isRunning then p.turn k.now else p, ?_, ?_⟩
  · rw [h.becomes_execute.processes, List.getElem?_map, stands, Option.map_some]
  · split
    · rename_i running
      refine p.freed_turn_of_idle k.now fun executes => ?_
      have none_executed : k.execution? = none := by
        rw [← Option.not_isSome_iff_eq_none, h.isSome_execution?, idle]
        exact Bool.false_ne_true
      have executed := h.any_execution? (List.mem_of_getElem? stands)
      rw [none_executed, running, executes] at executed
      exact Bool.false_ne_true executed
    · rfl

theorem execute_of_error (h : k.Coherent) (faces : k.Faces p instruction) {fault : Fault}
    (refused : p.cpu.execute instruction = .error fault) : k.execute = (false, k.fail p fault) := by
  simp only [Kernel.execute, faces.selected, h.distinct.find?_of_mem faces.there, faces.running,
    faces.step_of_error refused, if_true]

theorem loses_fail (h : k.Coherent) (faces : k.Faces p instruction) {fault : Fault}
    (refused : p.cpu.execute instruction = .error fault) :
    k.Loses p instruction fault (k.fail p fault) := by
  have failed := faces.step_of_error refused
  have turns := h.turns_of_error (faces.running? h) failed
  have ended : p.turn k.now = p.terminate := by simp only [Process.turn, failed]
  constructor
  · rw [turns.table.find?, h.distinct.find?_of_mem faces.there, Option.map_some,
      if_pos faces.running, ended]
    rfl
  · rw [turns.current, ended]
    rfl
  · rw [turns.audit]
    simp only [Process.turnEvents, failed]
  · rw [entries_fail (h.distinct.find?_of_mem faces.there), faces.current]
    rfl
  · exact (k.errors_fail failed).1

end Coherent

/-- In every kernel that operations can make, executing touches the selected process alone. It
answers whether that process executed its instruction, and if it did not, nothing that a program can
tell has changed anywhere. An instruction that fails ends the process and is told of in the audit
and in the log, not in the answer. -/
theorem execute_contained (minimum : Log.Level) (operations : List (Operation H)) :
    let k := (empty minimum).performAll operations
    k.executeInPlace = k.execute ∧
    k.table.Spares k.scheduler.current k.execute.2.table ∧
    (k.execute.1 = true ↔
      ∃ p instruction cpu, k.Faces p instruction ∧ p.cpu.execute instruction = .ok cpu) ∧
    (∀ p instruction cpu, k.Faces p instruction → p.cpu.execute instruction = .ok cpu →
      k.execute.2.table.find? p.id = some ((p.withCpu cpu).absorb k.now)) ∧
    (k.execute.1 = false → ∀ (place : Nat) p, k.table.processes[place]? = some p →
      ∃ q, k.execute.2.table.processes[place]? = some q ∧
        q.cpu.withoutEffects.freed = p.cpu.withoutEffects.freed) ∧
    ∀ p instruction fault, k.Faces p instruction → p.cpu.execute instruction = .error fault →
      k.execute.1 = false ∧ k.Loses p instruction fault k.execute.2 := by
  intro k
  have h : k.Coherent := coherent_performAll minimum operations
  exact ⟨h.executeInPlace_eq, h.spares_execute, h.execute_iff,
    fun _ _ _ faces done => h.find?_execute faces done,
    fun idle _ _ stands => h.freed_of_not_executed idle stands,
    fun _ _ _ faces refused => by
      rw [h.execute_of_error faces refused]
      exact ⟨rfl, h.loses_fail faces refused⟩⟩

def dividing : List (Operation Services) :=
  [.create "faulty" ".code\nLOAD #3\nDIV #0" 0 .realtime .high,
    .create "sound" ".code\nLOAD #1" 0 .bestEffort .low, .advance, .schedule, .execute]

theorem execute_contained_dividing :
    let k : Kernel Services := (empty .error).performAll dividing
    ∃ p sound, k.Faces p (.arithmetic .div (.immediate 0)) ∧ p.cpu.accumulator = 3 ∧
      k.execute.1 = false ∧
      k.Loses p (.arithmetic .div (.immediate 0)) .divisionByZero k.execute.2 ∧
      k.table.processes[1]? = some sound ∧ k.execute.2.table.processes[1]? = some sound := by
  intro k
  have selected : k.scheduler.current = some 1 := by decide +kernel
  have first : (k.table.find? 1).any fun p =>
      p.isRunning && !p.cpu.isSuspended && decide (p.cpu.accumulator = 3) &&
        decide (p.cpu.current? = some (.arithmetic .div (.immediate 0))) := by decide +kernel
  have second : (k.table.processes[1]?).any fun p => decide (p.id ≠ 1) := by decide +kernel
  obtain ⟨p, found, facts⟩ := (Option.any_eq_true _ _).1 first
  obtain ⟨sound, stands, apart⟩ := (Option.any_eq_true _ _).1 second
  simp only [Bool.and_eq_true, Bool.not_eq_true', decide_eq_true_eq] at facts
  obtain ⟨⟨⟨running, awake⟩, accumulator⟩, current⟩ := facts
  have id := ProcessTable.find?_id found
  have faces : k.Faces p (.arithmetic .div (.immediate 0)) :=
    ⟨ProcessTable.mem_of_find? found, selected.trans (congrArg some id.symm), running,
      by rw [awake]; exact Bool.false_ne_true, current⟩
  obtain ⟨-, spares, -, -, -, faults⟩ := execute_contained .error dividing
  obtain ⟨answer, loses⟩ := faults p _ .divisionByZero faces rfl
  refine ⟨p, sound, faces, accumulator, answer, loses, stands, spares.others 1 sound stands ?_⟩
  rw [show ((empty .error).performAll dividing).scheduler.current = some 1 from selected]
  exact fun same => of_decide_eq_true apart (Option.some.inj same).symm

end Kernel

end Timeslice
