import Timeslice.Proofs.Kernel.Drive

/-! # Scheduling again

The outcome of scheduling is one that scheduling leaves alone: a process that was chosen is
retained, and where none was found the processor is vacant and there is still none. So a second
call answers as the first one did and records nothing.
-/

namespace Timeslice

variable {H : Type}

namespace Kernel

variable {k l : Kernel H} {p : Process H}

/-- The process that was just put on the processor is retained. No realtime process is left ready
beside a best-effort one, since it would have gone before it. -/
theorem Chooses.retains (chooses : k.Chooses p l) (quantum : 0 < k.scheduler.quantum) :
    l.Retains (p.dispatch (k.granted p)) := by
  cases hc : p.isRealtime with
  | true =>
      refine .inl ⟨hc, ?_⟩
      show 0 < k.granted p
      rw [granted_eq, if_pos hc]
      exact Int.natCast_pos.2 quantum
  | false =>
      have effort : ¬ (p.dispatch (k.granted p)).isRealtime := by
        show ¬ p.isRealtime
        rw [hc]
        exact Bool.false_ne_true
      refine .inr (.inr ⟨effort, fun r hr ready realtime => effort ?_⟩)
      rw [chooses.table] at hr
      obtain ⟨q, hq, rfl⟩ := List.mem_map.1 hr
      have candidate : q ∈ k.candidates := by
        refine mem_candidates.2 ⟨hq, ?_⟩
        unfold handOver at ready
        split at ready
        · contradiction
        · split at ready
          · exact .inr ‹_›
          · exact .inl ready
      have origin := Process.isRealtime_eq_of_origin (k.origin_handOver p q)
      exact chooses.first.realtime q candidate (origin.symm.trans realtime)

theorem Rests.vacant (rests : k.Rests l) : l.Vacant where
  idle p hp running := by
    rw [rests.table] at hp
    have candidate : p ∈ k.candidates := mem_candidates.2 ⟨hp, .inr running⟩
    rw [rests.candidates] at candidate
    exact List.not_mem_nil candidate
  unselected := rests.current

/-- A processor that stayed vacant is not filled later, as long as no process becomes ready. -/
theorem Rests.fill (rests : k.Rests l) : l.fill = l := by
  have unfilled : l.choice? = none := by
    cases chosen : l.choice? with
    | none => rfl
    | some p =>
        obtain ⟨hp, ready⟩ := List.mem_filter.1 (isFirst_of_choice? chosen).mem
        rw [rests.table] at hp
        have candidate : p ∈ k.candidates := mem_candidates.2 ⟨hp, .inl ready⟩
        rw [rests.candidates] at candidate
        contradiction
  simp only [Kernel.fill, rests.current, unfilled]

namespace Coherent

theorem schedule_of_vacant (h : k.Coherent) (vacant : k.Vacant) :
    k.schedule = (k.fill.scheduler.current, k.fill) := by
  have vacated : k.vacated = k := by
    simp only [Kernel.vacated, vacant.running?, vacant.dropStale]
  have given : ∀ r, k.table.running? = some r → ¬ k.Retains r := by
    intro r hr
    rw [vacant.running?] at hr
    contradiction
  rw [h.schedule_of_given given, vacated]

/-- What scheduling does once it does not do again. -/
theorem schedule_schedule (h : k.Coherent) (quantum : 0 < k.scheduler.quantum) :
    k.schedule.2.schedule = k.schedule := by
  rcases h.schedule_cases with ⟨r, -, -, kept⟩ | ⟨-, ⟨p, answer, chooses⟩ | ⟨answer, rests⟩⟩
  · rw [kept, kept]
  · have running := h.schedule.running?_eq_some.2 ⟨chooses.mem_dispatch, rfl⟩
    rw [h.schedule.schedule_of_retains running (chooses.retains quantum)]
    exact Prod.ext answer.symm rfl
  · rw [h.schedule.schedule_of_vacant rests.vacant, rests.fill, rests.current]
    exact Prod.ext answer.symm rfl

end Coherent

variable [SyscallHandler H]

theorem Coherent.quantum_pos_performAll (h : k.Coherent) (quantum : 0 < k.scheduler.quantum)
    (operations : List (Operation H)) : 0 < (k.performAll operations).scheduler.quantum := by
  induction operations generalizing k with
  | nil => exact quantum
  | cons operation rest ih =>
      exact ih (h.perform operation) (h.quantum_pos_perform operation quantum)

/-- In every kernel that operations can make, scheduling twice is scheduling once: the answer, the
table, the selection, the audit and both logs are those of the first time. -/
theorem schedule_idempotent (minimum : Log.Level) (operations : List (Operation H)) :
    let k := (empty minimum).performAll operations
    k.schedule.2.schedule = k.schedule :=
  (coherent_performAll minimum operations).schedule_schedule
    ((coherent_empty minimum).quantum_pos_performAll (driven_empty minimum).quantum operations)

end Kernel

end Timeslice
