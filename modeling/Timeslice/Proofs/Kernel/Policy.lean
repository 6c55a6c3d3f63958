import Timeslice.Proofs.Kernel.Operation

/-! # The scheduling policy

What scheduling does in any kernel that operations can make, said without the loop: who keeps the
processor, who is chosen otherwise, and what changes with the choice.
-/

namespace Timeslice

variable {H : Type}

def Event.isSwitch : Event → Bool
  | .selected .. | .preempted .. => true
  | _ => false

namespace Kernel

/-- `k.Keeps r`: scheduling gives process `r`, changes no process and switches none. -/
structure Keeps (k : Kernel H) (r : Process H) : Prop where
  answer : k.schedule.1 = some r.id
  table : k.schedule.2.table = k.table
  quiet : ∃ events, k.schedule.2.scheduler.audit = k.scheduler.audit ++ events ∧
    ∀ event ∈ events, ¬ event.isSwitch

variable {k : Kernel H}

theorem candidates_eq_nil :
    k.candidates = [] ↔ ∀ p ∈ k.table.processes, p.state ≠ .ready ∧ p.state ≠ .running := by
  rw [List.eq_nil_iff_forall_not_mem]
  constructor
  · intro empty p hp
    have out := empty p
    rw [mem_candidates] at out
    exact ⟨fun ready => out ⟨hp, .inl (decide_eq_true ready)⟩,
      fun running => out ⟨hp, .inr (decide_eq_true running)⟩⟩
  · intro idle p member
    obtain ⟨hp, ready | running⟩ := mem_candidates.1 member
    · exact (idle p hp).1 (of_decide_eq_true ready)
    · exact (idle p hp).2 (of_decide_eq_true running)

theorem exists_isSwitch_partings {r : Process H} (hr : k.table.running? = some r) :
    ∃ event ∈ k.partings, event.isSwitch := by
  simp only [partings, hr]
  exact ⟨_, List.mem_singleton_self _, rfl⟩

namespace Coherent

/-- Exactly the processes keep the processor that the policy lets keep it. -/
theorem keeps_iff (h : k.Coherent) {r : Process H} (hr : k.table.running? = some r) :
    k.Keeps r ↔ k.Retains r := by
  obtain ⟨hp, running⟩ := h.running?_eq_some.1 hr
  rcases h.schedule_cases with ⟨q, hq, kept, same⟩ | ⟨given, gone⟩
  · rw [hr, Option.some.injEq] at hq
    subst hq
    refine iff_of_true ⟨congrArg Prod.fst same, ?_, [], ?_, ?_⟩ kept
    · rw [same]
    · rw [same, List.append_nil]
    · intro event member
      contradiction
  · refine iff_of_false (fun ⟨_, _, events, audit, quiet⟩ => ?_) (given r hr)
    obtain ⟨event, member, switch⟩ := exists_isSwitch_partings hr
    rcases gone with ⟨p, -, chooses⟩ | ⟨-, rests⟩
    · rw [chooses.audit, List.append_assoc, List.append_cancel_left_eq] at audit
      exact quiet event (audit ▸ List.mem_append_left _ member) switch
    · have candidate : r ∈ k.candidates := mem_candidates.2 ⟨hp, .inr running⟩
      rw [rests.candidates] at candidate
      contradiction

theorem chooses_of_isFirst (h : k.Coherent)
    (given : ∀ r, k.table.running? = some r → ¬ k.Retains r) {p : Process H}
    (first : p.IsFirst k.candidates) :
    k.schedule.1 = some p.id ∧ k.Chooses p k.schedule.2 := by
  rcases h.schedule_cases with ⟨r, hr, kept, -⟩ | ⟨-, ⟨q, answer, chooses⟩ | ⟨-, rests⟩⟩
  · exact (given r hr kept).elim
  · have hp := (mem_candidates.1 first.mem).1
    have hq := (mem_candidates.1 chooses.first.mem).1
    rw [h.distinct.eq_of_id hp hq (first.id_unique chooses.first)]
    exact ⟨answer, chooses⟩
  · have candidate := first.mem
    rw [rests.candidates] at candidate
    contradiction

theorem exists_isFirst (h : k.Coherent)
    (given : ∀ r, k.table.running? = some r → ¬ k.Retains r) (nonempty : k.candidates ≠ []) :
    ∃ p : Process H, p.IsFirst k.candidates := by
  rcases h.schedule_cases with ⟨r, hr, kept, -⟩ | ⟨-, ⟨p, -, chooses⟩ | ⟨-, rests⟩⟩
  · exact (given r hr kept).elim
  · exact ⟨p, chooses.first⟩
  · exact (nonempty rests.candidates).elim

theorem schedule_eq_none (h : k.Coherent) : k.schedule.1 = none ↔ k.candidates = [] := by
  rcases h.schedule_cases with ⟨r, hr, -, same⟩ | ⟨-, ⟨p, answer, chooses⟩ | ⟨answer, rests⟩⟩
  · obtain ⟨hp, running⟩ := h.running?_eq_some.1 hr
    have candidate : r ∈ k.candidates := mem_candidates.2 ⟨hp, .inr running⟩
    exact iff_of_false (by rw [same]; nofun) (List.ne_nil_of_mem candidate)
  · exact iff_of_false (by rw [answer]; nofun) (List.ne_nil_of_mem chooses.first.mem)
  · exact iff_of_true answer rests.candidates

theorem rests_of_candidates (h : k.Coherent) (empty : k.candidates = []) :
    k.Rests k.schedule.2 := by
  have answer := h.schedule_eq_none.2 empty
  rcases h.schedule_cases with ⟨r, -, -, same⟩ | ⟨-, ⟨p, answer', -⟩ | ⟨-, rests⟩⟩
  · rw [same] at answer
    contradiction
  · rw [answer'] at answer
    contradiction
  · exact rests

theorem inState_running_schedule (h : k.Coherent) {id : Pid} (answer : k.schedule.1 = some id) :
    ∃ p, k.schedule.2.table.inState .running = [p] ∧ p.id = id := by
  rcases h.schedule_cases with ⟨r, hr, -, same⟩ | ⟨-, ⟨p, answer', chooses⟩ | ⟨answer', -⟩⟩
  · obtain ⟨hp, running⟩ := h.running?_eq_some.1 hr
    rw [same] at answer ⊢
    exact ⟨r, h.inState_running hp running, Option.some.inj answer⟩
  · rw [answer'] at answer
    exact ⟨_, h.schedule.inState_running chooses.mem_dispatch rfl, Option.some.inj answer⟩
  · rw [answer'] at answer
    contradiction

/-- A process runs after a scheduling if and only if it is selected. -/
theorem isRunning_schedule (h : k.Coherent) {q : Process H}
    (hq : q ∈ k.schedule.2.table.processes) : q.isRunning = decide (k.schedule.1 = some q.id) := by
  rw [Bool.eq_iff_iff, decide_eq_true_iff]
  constructor
  · exact h.schedule.selected q hq
  · intro answer
    obtain ⟨r, runs, same⟩ := h.inState_running_schedule answer
    have member : r ∈ k.schedule.2.table.inState .running := by
      rw [runs]
      exact List.mem_singleton_self r
    obtain ⟨hr, running⟩ := List.mem_filter.1 member
    rw [← h.schedule.distinct.eq_of_id hr hq same]
    exact running

end Coherent

variable [SyscallHandler H]

/-- In every kernel that operations can make, scheduling ends within two passes. The running
process keeps the processor exactly if it is retained. Otherwise the first of the candidates gets
the processor with a fresh quantum, the process that ran is ready again unless it is that one, and
no other process changes. -/
theorem schedule_policy (minimum : Log.Level) (operations : List (Operation H)) :
    let k := (empty minimum).performAll operations
    let l := k.schedule.2
    (∃ n, n ≤ 2 ∧ k.Settles n l) ∧
      (∀ r, k.table.running? = some r → (k.Keeps r ↔ k.Retains r)) ∧
      ((∀ r, k.table.running? = some r → ¬ k.Retains r) →
        (k.candidates ≠ [] → ∃ p : Process H, p.IsFirst k.candidates) ∧
        (∀ p : Process H, p.IsFirst k.candidates → k.schedule.1 = some p.id ∧ k.Chooses p l) ∧
        (k.candidates = [] → k.schedule.1 = none ∧ k.Rests l)) ∧
      l.scheduler.settings = k.scheduler.settings ∧
      k.schedule.1 = l.scheduler.current ∧
      (∀ id, k.schedule.1 = some id → ∃ p, l.table.inState .running = [p] ∧ p.id = id) ∧
      (k.schedule.1 = none ↔
        ∀ p ∈ k.table.processes, p.state ≠ .ready ∧ p.state ≠ .running) := by
  intro k l
  have h : k.Coherent := coherent_performAll minimum operations
  refine ⟨h.settles_schedule, fun r hr => h.keeps_iff hr, fun given => ⟨?_, ?_, ?_⟩, ?_, rfl, ?_,
    ?_⟩
  · exact h.exists_isFirst given
  · exact fun p first => h.chooses_of_isFirst given first
  · exact fun empty => ⟨h.schedule_eq_none.2 empty, h.rests_of_candidates empty⟩
  · rcases h.schedule_cases with ⟨r, -, -, same⟩ | ⟨-, ⟨p, -, chooses⟩ | ⟨-, rests⟩⟩
    · exact congrArg (fun answer => answer.2.scheduler.settings) same
    · exact chooses.settings
    · exact rests.settings
  · exact fun id answer => h.inState_running_schedule answer
  · rw [h.schedule_eq_none, candidates_eq_nil]

end Kernel

end Timeslice
