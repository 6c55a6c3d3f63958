import Timeslice.Proofs.Kernel.Coherence

/-! # The programs of a kernel

Which process waits for input, which one is about to execute an instruction, and what becomes of a
process that has run past its last one.
-/

namespace Timeslice

variable {H : Type}

def Process.executes [SyscallHandler H] (p : Process H) : Bool :=
  match p.cpu.step with
  | (.ok true, _) => true
  | _ => false

namespace Kernel

/-! ## Waiting for input -/

def WaitsOnly (k : Kernel H) (who : Origin → Prop) : Prop :=
  ∀ p ∈ k.table.processes, p.cpu.waitingForInput → who p.origin

theorem WaitsOnly.becomes {k l : Kernel H} {who : Origin → Prop} (h : k.WaitsOnly who)
    {f : Process H → Process H} (hk : k.table.Becomes f l.table)
    (keeps : ∀ p ∈ k.table.processes, (f p).cpu.waitingForInput →
      p.cpu.waitingForInput ∨ who p.origin) : l.WaitsOnly who := by
  intro q hq waits
  obtain ⟨p, hp, rfl⟩ := hk.mem hq
  rw [hk.origin p]
  rcases keeps p hp waits with waits | known
  · exact h p hp waits
  · exact known

/-! ## Closing -/

def finished? (k : Kernel H) : Option (Process H) :=
  k.table.running?.filter fun p => p.cpu.isHalted && !p.cpu.waitingForInput

def close (k : Kernel H) : Kernel H :=
  match k.finished? with
  | some p => (k.terminate p.id .normal).2
  | none => k

variable {k : Kernel H}

theorem finished?_eq_some {p : Process H} :
    k.finished? = some p ↔
      k.table.running? = some p ∧ p.cpu.isHalted ∧ ¬ p.cpu.waitingForInput := by
  simp [finished?, Option.filter_eq_some_iff]

theorem Coherent.becomes_close (h : k.Coherent) :
    k.table.Becomes Process.close k.close.table := by
  unfold Kernel.close
  split
  · rename_i p finished
    obtain ⟨hr, halted, unwaiting⟩ := finished?_eq_some.1 finished
    rw [table_terminate]
    refine (k.table.becomes_terminate p.id).congr Process.origin_close fun q hq => ?_
    rw [h.only_running hr _ hq]
    by_cases running : q.isRunning
    · have hqp := h.eq_of_running hq (h.running?_eq_some.1 hr).1 running (h.running?_eq_some.1 hr).2
      simp [Process.close, hqp ▸ running, hqp, halted, unwaiting]
    · simp [Process.close, running]
  · rename_i unfinished
    refine (ProcessTable.Becomes.refl k.table).congr Process.origin_close fun q hq => ?_
    unfold Process.close
    split
    · rename_i due
      simp only [Bool.and_eq_true, Bool.not_eq_true'] at due
      have finished : k.finished? = some q :=
        finished?_eq_some.2 ⟨h.running?_eq_some.2 ⟨hq, due.1.1⟩, due.1.2, by simp [due.2]⟩
      rw [unfinished] at finished
      contradiction
    · rfl

theorem Coherent.close (h : k.Coherent) : k.close.Coherent := by
  unfold Kernel.close
  split
  · exact h.terminate _ _
  · exact h

theorem Coherent.scheduler_close (h : k.Coherent) {p : Process H}
    (finished : k.finished? = some p) :
    k.close.scheduler = (k.scheduler.select none).record (.exited p.id .normal k.now) := by
  obtain ⟨hr, -⟩ := finished?_eq_some.1 finished
  obtain ⟨hp, running⟩ := h.running?_eq_some.1 hr
  have ended := terminate_of_find? (h.distinct.find?_of_mem hp) .normal
  simp only [Kernel.close, finished]
  rw [ended, Scheduler.deselect, if_pos (h.selected p hp running)]
  rfl

def closings (k : Kernel H) : List Event :=
  match k.finished? with
  | some p => [.exited p.id .normal k.now]
  | none => []

theorem mem_closings {event : Event} (member : event ∈ k.closings) :
    ∃ id cause, event = .exited id cause k.now := by
  unfold closings at member
  split at member
  · exact ⟨_, _, List.mem_singleton.1 member⟩
  · contradiction

theorem Coherent.audit_close (h : k.Coherent) :
    k.close.scheduler.audit = k.scheduler.audit ++ k.closings := by
  unfold closings
  cases hf : k.finished? with
  | none => simp only [Kernel.close, hf, List.append_nil]
  | some p => rw [h.scheduler_close hf, Scheduler.record, Scheduler.select]

/-! ## Executing -/

def execution? [SyscallHandler H] (k : Kernel H) : Option (Process H × Instruction) :=
  match k.table.running? with
  | none => none
  | some p =>
    match p.cpu.step with
    | (.ok true, _) => p.cpu.current?.map fun instruction => (p, instruction)
    | _ => none

variable [SyscallHandler H]

theorem execution?_of_step {p : Process H} (hr : k.table.running? = some p) {cpu : Cpu H}
    (stepped : p.cpu.step = (.ok true, cpu)) :
    ∃ instruction, k.execution? = some (p, instruction) ∧ p.cpu.execute instruction = .ok cpu := by
  obtain ⟨-, instruction, current, executed⟩ := Cpu.step_eq_ok_true.1 stepped
  refine ⟨instruction, ?_, executed⟩
  simp only [execution?, hr, stepped, current, Option.map_some]

theorem execution?_eq_some {p : Process H} {instruction : Instruction}
    (executes : k.execution? = some (p, instruction)) :
    k.table.running? = some p ∧ ∃ cpu, p.cpu.step = (.ok true, cpu) := by
  unfold execution? at executes
  split at executes
  · contradiction
  · rename_i hr
    split at executes
    · rename_i cpu stepped
      obtain ⟨current, -, same⟩ := Option.map_eq_some_iff.1 executes
      cases same
      exact ⟨hr, cpu, stepped⟩
    · contradiction

theorem Coherent.any_execution? (h : k.Coherent) {p : Process H}
    (hp : p ∈ k.table.processes) :
    k.execution?.any (·.1.id = p.id) = (p.isRunning && p.executes) := by
  rw [Bool.eq_iff_iff, Option.any_eq_true, Bool.and_eq_true]
  constructor
  · rintro ⟨⟨r, instruction⟩, executes, same⟩
    obtain ⟨hr, cpu, stepped⟩ := execution?_eq_some executes
    obtain ⟨hr', running⟩ := h.running?_eq_some.1 hr
    have equal := h.distinct.eq_of_id hr' hp (of_decide_eq_true same)
    subst equal
    exact ⟨running, by simp only [Process.executes, stepped]⟩
  · rintro ⟨running, executes⟩
    unfold Process.executes at executes
    split at executes
    · rename_i cpu stepped
      obtain ⟨instruction, executes, -⟩ :=
        execution?_of_step (h.running?_eq_some.2 ⟨hp, running⟩) stepped
      exact ⟨_, executes, decide_eq_true rfl⟩
    · contradiction

/-- A process that does not run does not execute. -/
theorem Coherent.not_executed (h : k.Coherent) {p : Process H} (hp : p ∈ k.table.processes)
    (idle : ¬ p.isRunning) : ∀ given ∈ k.execution?, given.1.id ≠ p.id := by
  intro given executes same
  have executed := h.any_execution? hp
  rw [Option.mem_def.1 executes] at executed
  simp [same, idle] at executed

/-- Executing answers whether there was an instruction to execute. -/
theorem Coherent.isSome_execution? (h : k.Coherent) : k.execution?.isSome = k.execute.1 := by
  cases hr : k.table.running? with
  | none =>
      rw [(h.execute_of_idle hr).1]
      simp only [execution?, hr, Option.isSome_none]
  | some p =>
      obtain ⟨hp, running⟩ := h.running?_eq_some.1 hr
      have found := h.distinct.find?_of_mem hp
      rcases stepped : p.cpu.step with ⟨fault | executed, cpu⟩
      · simp only [Kernel.execute, h.selected p hp running, found, running, if_true, execution?, hr,
          stepped, Option.isSome_none]
      · cases executed with
        | false =>
            simp only [Kernel.execute, h.selected p hp running, found, running, if_true,
              execution?, hr, stepped, Option.isSome_none]
        | true =>
            obtain ⟨-, instruction, current, -⟩ := Cpu.step_eq_ok_true.1 stepped
            simp only [Kernel.execute, h.selected p hp running, found, running, if_true,
              execution?, hr, stepped, current, Option.map_some, Option.isSome_some]

end Kernel

end Timeslice
