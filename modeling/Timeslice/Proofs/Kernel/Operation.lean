import Timeslice.Proofs.Kernel.Scheduling

/-! # Kernels under any operations

An operation is anything that the kernel does or that can be done to it from outside, the processors
of its processes and its logs included. No sequence of operations makes an incoherent kernel, so at
most one process ever runs and it is the selected one.
-/

namespace Timeslice

variable {H : Type}

inductive Operation (H : Type) where
  | create (name source : String) (arrivalTime : Nat) (schedulingClass : SchedulingClass)
      (priority : Priority)
  | setHandler (id : Pid) (handler : H)
  | advance
  | schedule
  | execute
  | block (id : Pid) (duration : Nat)
  /-- Ends a process behind the scheduler's back. -/
  | terminateUnrecorded (id : Pid)
  | terminate (id : Pid) (reason : ExitCause)
  | supply (id : Pid) (text : String)
  | applyEffects (id : Pid)
  | setQuantum (quantum : Int)
  /-- Puts another processor in the place of that of a process. -/
  | replaceCpu (id : Pid) (cpu : Cpu H)
  | replaceTableLog (log : Log)
  | replaceSchedulerLog (log : Log)
  | clearAudit
  /-- Empties the table. The selection stays. -/
  | reset

namespace Kernel

variable [SyscallHandler H]

def perform (k : Kernel H) : Operation H → Kernel H
  | .create name source arrivalTime schedulingClass priority =>
      { k with table := (k.table.create name source arrivalTime schedulingClass priority).2 }
  | .setHandler id handler => { k with table := (k.table.setHandler id handler).2 }
  | .advance => k.advance
  | .schedule => k.schedule.2
  | .execute => k.execute.2
  | .block id duration => { k with table := (k.table.block id duration).2 }
  | .terminateUnrecorded id => { k with table := (k.table.terminate id).2 }
  | .terminate id reason => (k.terminate id reason).2
  | .supply id text => { k with table := (k.table.supply id text).2 }
  | .applyEffects id => { k with table := (k.table.applyEffects id).2 }
  | .setQuantum quantum => k.setQuantum quantum
  | .replaceCpu id cpu => { k with table := k.table.update id (·.withCpu cpu) }
  | .replaceTableLog log => { k with table := { k.table with log } }
  | .replaceSchedulerLog log => { k with scheduler := { k.scheduler with log } }
  | .clearAudit => { k with scheduler := k.scheduler.withoutAudit }
  | .reset => { k with table := k.table.reset }

def performAll (k : Kernel H) (operations : List (Operation H)) : Kernel H :=
  operations.foldl perform k

/-- Every operation keeps a kernel coherent, whichever processes it is about. -/
theorem Coherent.perform {k : Kernel H} (h : k.Coherent) (operation : Operation H) :
    (k.perform operation).Coherent := by
  cases operation with
  | create name source arrivalTime schedulingClass priority =>
      exact h.create name source arrivalTime schedulingClass priority
  | setHandler id handler => exact h.setHandler id handler
  | advance => exact h.advance
  | schedule => exact h.schedule
  | execute => exact h.execute
  | block id duration => exact h.block id duration
  | terminateUnrecorded id => exact h.terminateTable id
  | terminate id reason => exact h.terminate id reason
  | supply id text => exact h.supply id text
  | applyEffects id => exact h.applyEffects id
  | setQuantum quantum => exact ⟨h.distinct, h.selected⟩
  | replaceCpu id cpu =>
      refine h.table_becomes (k.table.becomes_update id fun _ => rfl) fun p running => ?_
      unfold Process.only at running
      split at running <;> exact running
  | replaceTableLog log => exact ⟨⟨h.distinct.nodup, h.distinct.below⟩, h.selected⟩
  | replaceSchedulerLog log => exact ⟨h.distinct, h.selected⟩
  | clearAudit => exact ⟨h.distinct, h.selected⟩
  | reset => exact coherent_reset k

/-- Every operation but creation and reset leaves the ids alone. -/
theorem Coherent.numbered_perform {k : Kernel H} (h : k.Coherent) (n : k.table.Numbered)
    (operation : Operation H) : (k.perform operation).table.Numbered := by
  cases operation with
  | create name source arrivalTime schedulingClass priority =>
      exact n.create name source arrivalTime schedulingClass priority
  | setHandler id handler => exact (k.table.becomes_setHandler id handler).numbered n
  | advance => exact (k.table.becomes_advance).numbered ⟨n.ids, n.nextId⟩
  | schedule =>
      obtain ⟨f, becomes, -⟩ := h.becomes_schedule
      exact becomes.numbered n
  | execute => exact h.becomes_execute.numbered n
  | block id duration => exact (h.distinct.becomes_block id duration).numbered n
  | terminateUnrecorded id => exact (k.table.becomes_terminate id).numbered n
  | terminate id reason =>
      have ended := (k.table.becomes_terminate id).numbered n
      rwa [← table_terminate k id reason] at ended
  | supply id text => exact (h.distinct.becomes_supply id text).numbered n
  | applyEffects id => exact (h.distinct.becomes_applyEffects id).numbered n
  | setQuantum quantum => exact n
  | replaceCpu id cpu =>
      exact (k.table.becomes_update id (f := (·.withCpu cpu)) fun _ => rfl).numbered n
  | replaceTableLog log => exact ⟨n.ids, n.nextId⟩
  | replaceSchedulerLog log => exact n
  | clearAudit => exact n
  | reset => exact ⟨rfl, rfl⟩

theorem Coherent.performAll {k : Kernel H} (h : k.Coherent) (n : k.table.Numbered)
    (operations : List (Operation H)) :
    (k.performAll operations).Coherent ∧ (k.performAll operations).table.Numbered := by
  induction operations generalizing k with
  | nil => exact ⟨h, n⟩
  | cons operation rest ih => exact ih (h.perform operation) (h.numbered_perform n operation)

theorem coherent_performAll (minimum : Log.Level) (operations : List (Operation H)) :
    ((empty minimum).performAll operations).Coherent :=
  ((coherent_empty minimum).performAll ⟨rfl, rfl⟩ operations).1

/-- Whatever is done to a kernel, at most one process runs, and it is the selected one; a selected
process need not run. Ids count the processes in the order of their creation. -/
theorem running_exclusive (minimum : Log.Level) (operations : List (Operation H)) :
    let k := (empty minimum).performAll operations
    (k.table.inState .running).length ≤ 1 ∧
      (∀ p ∈ k.table.processes, p.state = .running → k.scheduler.current = some p.id) ∧
      (∃ stale : List (Operation H),
        let l := (empty minimum).performAll stale
        ∃ p ∈ l.table.processes, l.scheduler.current = some p.id ∧ p.state ≠ .running) ∧
      k.table.processes.map (·.id) = List.range' 1 k.table.processes.length ∧
      k.table.nextId = k.table.processes.length + 1 ∧
      ∀ p ∈ k.table.processes, ∀ q ∈ k.table.processes, p.id = q.id → p = q := by
  intro k
  obtain ⟨h, n⟩ : k.Coherent ∧ k.table.Numbered :=
    (coherent_empty minimum).performAll ⟨rfl, rfl⟩ operations
  refine ⟨h.length_running, ?_, ?_, n.ids, n.nextId, ?_⟩
  · intro p hp running
    exact h.selected p hp (decide_eq_true running)
  · refine ⟨[.create "" "" 0 .realtime .high, .advance, .schedule, .terminateUnrecorded 1],
      _, List.mem_singleton_self _, rfl, ?_⟩
    exact fun running => nomatch (running : ProcessState.exit = .running)
  · intro p hp q hq hid
    exact h.distinct.eq_of_id hp hq hid

end Kernel

end Timeslice
