import Timeslice.Proofs.Simulation.Run

/-! # Who waits for input

A process waits for input only after it has executed a read. If only some processes of a simulation
execute reads, no others ever wait.
-/

namespace Timeslice

/-- A turn of a process makes it wait only by a read. -/
theorem Process.waitingForInput_of_turn {p : Process Services} {now : Nat}
    (waits : (p.turn now).cpu.waitingForInput) :
    p.cpu.waitingForInput ∨ ∃ instruction cpu, p.cpu.current? = some instruction ∧
      p.cpu.step = (.ok true, cpu) ∧ instruction.isRead := by
  unfold turn at waits
  split at waits
  · rename_i executed cpu stepped
    rw [Cpu.waitingForInput_eq_of_freed (freed_absorb now _)] at waits
    cases executed with
    | true =>
        obtain ⟨-, instruction, current, run⟩ := Cpu.step_eq_ok_true.1 stepped
        by_cases read : instruction.isRead
        · exact .inr ⟨instruction, cpu, current, stepped, read⟩
        · exact .inl (Cpu.waitingForInput_execute run read ▸ waits)
    | false =>
        exact .inl (Cpu.waitingForInput_eq_of_freed (Cpu.freed_of_idle_step stepped) ▸ waits)
  · exact .inl waits

namespace Simulation

def ReadsOnly (s : Simulation) (who : Origin → Prop) : Prop :=
  ∀ given ∈ s.execution?, given.2.isRead → who given.1.origin

variable {s : Simulation} {who : Origin → Prop}

theorem waitsOnly_deliver (h : s.kernel.Coherent) (waits : s.kernel.WaitsOnly who) :
    s.deliver.2.kernel.WaitsOnly who := by
  cases accepted : s.acceptance? with
  | none =>
      obtain ⟨log, delivered⟩ := deliver_of_no_acceptance h accepted
      rw [delivered]
      exact waits
  | some given =>
      obtain ⟨hp, -, waiting⟩ := waiting?_eq_some (acceptance?_eq_some accepted).1
      refine waits.becomes (becomes_deliver h accepted) fun q hq waits => .inl ?_
      by_cases hid : q.id = given.1.id
      · rwa [h.distinct.eq_of_id hq hp hid]
      · rwa [Process.only_of_ne _ hid] at waits

theorem waitsOnly_advance (h : s.kernel.Coherent) (waits : s.kernel.WaitsOnly who) :
    s.deliver.2.kernel.advance.WaitsOnly who := by
  have delivered := waitsOnly_deliver h waits
  refine delivered.becomes (k := { s.deliver.2.kernel with
    table := { s.deliver.2.kernel.table with clock := s.deliver.2.kernel.table.clock.tick } })
    s.deliver.2.kernel.table.becomes_advance fun q _ waits => .inl ?_
  rwa [Cpu.waitingForInput_eq_of_freed (q.freed_elapse _)] at waits

theorem waitsOnly_poised (h : s.kernel.Coherent) (waits : s.kernel.WaitsOnly who) :
    s.poised.WaitsOnly who := by
  obtain ⟨f, becomes, cpu, -⟩ := (coherent_deliver h).advance.becomes_schedule
  exact (waitsOnly_advance h waits).becomes becomes fun q _ waits => .inl (cpu q ▸ waits)

theorem waitsOnly_execute (h : s.kernel.Coherent) (waits : s.kernel.WaitsOnly who)
    (reads : s.ReadsOnly who) : s.poised.execute.2.WaitsOnly who := by
  have poised := coherent_poised h
  refine (waitsOnly_poised h waits).becomes poised.becomes_execute fun q hq waits => ?_
  split at waits
  · rename_i running
    rcases Process.waitingForInput_of_turn waits with waits | ⟨instruction, cpu, turn⟩
    · exact .inl waits
    · obtain ⟨current, stepped, read⟩ := turn
      have executes : s.execution? = some (q, instruction) := by
        simp only [execution?, Kernel.execution?, poised.running?_eq_some.2 ⟨hq, running⟩,
          stepped, current, Option.map_some]
      exact .inr (reads _ executes read)
  · exact .inl waits

theorem waitsOnly_step (h : s.kernel.Coherent) (waits : s.kernel.WaitsOnly who)
    (reads : s.ReadsOnly who) : s.step.2.kernel.WaitsOnly who := by
  have closed : s.closed.WaitsOnly who :=
    (waitsOnly_execute h waits reads).becomes (coherent_poised h).execute.becomes_close
      fun q _ waits => .inl (by rwa [Cpu.waitingForInput_eq_of_freed q.freed_close] at waits)
  unfold Kernel.WaitsOnly at closed ⊢
  rwa [(ticks_step h).processes]

/-- As long as only some processes have executed reads, no others wait. -/
theorem waitsOnly_after (h : s.kernel.Coherent) (waits : s.kernel.WaitsOnly who) (ticks : Nat)
    (reads : ∀ m < ticks, (s.after m).ReadsOnly who) : (s.after ticks).kernel.WaitsOnly who := by
  induction ticks with
  | zero => exact waits
  | succ ticks ih =>
      have before := ih fun m hm => reads m (Nat.lt_succ_of_lt hm)
      exact waitsOnly_step (coherent_after h ticks) before (reads ticks (Nat.lt_succ_self ticks))

end Simulation

end Timeslice
