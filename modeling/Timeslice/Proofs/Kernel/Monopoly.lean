import Timeslice.Proofs.Kernel.Lifecycle
import Timeslice.Proofs.Kernel.Policy
import Timeslice.Proofs.Kernel.Relabelling

/-! # The most urgent realtime process

A quantum that is used up sends the process back, but only to choose again. So the most urgent of
the realtime processes holds the processor for as long as it runs, whatever the quantum is and
whoever arrives or wakes up meanwhile, and every other process starves.
-/

namespace Timeslice

variable {H : Type}

namespace Kernel

/-- `k.Leads p`: process `p` runs, and of the realtime processes that have not exited it is the most
urgent. -/
structure Leads (k : Kernel H) (p : Process H) : Prop where
  mem : p ∈ k.table.processes
  running : p.isRunning
  realtime : p.isRealtime
  urgent : ∀ q ∈ k.table.processes, q.isRealtime → ¬ q.isExited → p.urgency ≤ q.urgency

variable {k l : Kernel H} {p : Process H}

/-- What raises no process from its exit and leaves the most urgent one running leaves it in the
lead. -/
theorem Leads.map (leads : k.Leads p) {f : Process H → Process H}
    (processes : l.table.processes = k.table.processes.map f)
    (origin : ∀ q, (f q).origin = q.origin)
    (ended : ∀ q ∈ k.table.processes, q.isExited → (f q).isExited) (running : (f p).isRunning) :
    l.Leads (f p) where
  mem := by
    rw [processes]
    exact List.mem_map_of_mem leads.mem
  running := running
  realtime := (Process.isRealtime_eq_of_origin (origin p)).trans leads.realtime
  urgent := by
    intro r hr realtime alive
    rw [processes] at hr
    obtain ⟨q, hq, rfl⟩ := List.mem_map.1 hr
    rw [Process.urgency_eq_of_origin (origin p), Process.urgency_eq_of_origin (origin q)]
    apply leads.urgent q hq ((Process.isRealtime_eq_of_origin (origin q)).symm.trans realtime)
    intro exited
    exact alive (ended q hq exited)

/-! ## One tick -/

theorem Leads.advance (leads : k.Leads p) : k.advance.Leads (p.elapse k.advance.now) := by
  apply leads.map rfl fun q => q.origin_elapse k.advance.now
  · intro q _ exited
    exact (q.isExited_elapse k.advance.now).trans exited
  · exact (p.isRunning_elapse k.advance.now).trans leads.running

theorem Leads.isFirst (leads : k.Leads p) : p.IsFirst k.candidates where
  mem := mem_candidates.2 ⟨leads.mem, .inr leads.running⟩
  realtime _ _ _ := leads.realtime
  least := by
    intro q candidate same
    apply leads.urgent q (mem_candidates.1 candidate).1 (same.trans leads.realtime)
    exact not_isExited_of_candidate candidate

/-- The process in the lead is selected. If its quantum is used up it is sent back, and then chosen
again. -/
theorem Leads.schedule (leads : k.Leads p) (h : k.Coherent) :
    k.schedule.1 = some p.id ∧ ∃ q, q.id = p.id ∧ k.schedule.2.Leads q := by
  have hr := h.running?_eq_some.2 ⟨leads.mem, leads.running⟩
  by_cases retained : k.Retains p
  · rw [h.schedule_of_retains hr retained]
    exact ⟨rfl, p, rfl, leads⟩
  · have given : ∀ r, k.table.running? = some r → ¬ k.Retains r := by
      intro r hr'
      rw [hr] at hr'
      cases hr'
      exact retained
    obtain ⟨answer, chooses⟩ := h.chooses_of_isFirst given leads.isFirst
    have processes := congrArg ProcessTable.processes chooses.table
    have origin := k.origin_handOver p
    have again : (k.handOver p p).isRunning := by
      rw [handOver, if_pos rfl]
      rfl
    have ended : ∀ q ∈ k.table.processes, q.isExited → (k.handOver p q).isExited := by
      intro q hq exited
      rw [isExited_handOver, exited]
      intro same
      rw [h.distinct.eq_of_id hq leads.mem same]
      exact Process.not_isExited_of_isRunning leads.running
    exact ⟨answer, _, Process.id_eq_of_origin (origin p), leads.map processes origin ended again⟩

variable [SyscallHandler H]

/-- It alone executes, and unless this blocks or ends it, it is still in the lead. -/
theorem Leads.execute (leads : k.Leads p) (h : k.Coherent) :
    (∀ given ∈ k.execution?, given.1.id = p.id) ∧ ∃ q ∈ k.execute.2.table.processes,
      q.id = p.id ∧ (q.state ≠ .blocked → q.state ≠ .exit → k.execute.2.Leads q) := by
  have hr := h.running?_eq_some.2 ⟨leads.mem, leads.running⟩
  have becomes := h.becomes_execute
  have turned : (if p.isRunning then p.turn k.now else p) = p.turn k.now := if_pos leads.running
  have member : p.turn k.now ∈ k.execute.2.table.processes := by
    rw [← turned]
    exact becomes.mem_of_mem leads.mem
  constructor
  · intro given executes
    obtain ⟨found, -⟩ := execution?_eq_some executes
    rw [hr] at found
    cases found
    rfl
  · refine ⟨p.turn k.now, member, Process.id_eq_of_origin (p.origin_turn k.now), ?_⟩
    intro unblocked alive
    have state : p.state = .running := of_decide_eq_true leads.running
    have moves := (h.change_of_turn hr).moves
    rw [state] at moves
    rw [← turned] at unblocked alive moves ⊢
    apply leads.map becomes.processes becomes.origin
    · intro q _ exited
      have idle : ¬ q.isRunning := fun running => Process.not_isExited_of_isRunning running exited
      rw [if_neg idle]
      exact exited
    · apply decide_eq_true
      generalize (if p.isRunning then p.turn k.now else p).state = state at moves unblocked alive
      cases moves with
      | stays _ => rfl
      | sentBack due => contradiction
      | blocked _ => exact (unblocked rfl).elim
      | ended _ _ => exact (alive rfl).elim

theorem Leads.tick (leads : k.Leads p) (h : k.Coherent) :
    k.tick.1.1 = some p.id ∧
      (∀ given ∈ k.advance.schedule.2.execution?, given.1.id = p.id) ∧
      ∃ q ∈ k.tick.2.table.processes, q.id = p.id ∧
        (q.state ≠ .blocked → q.state ≠ .exit → k.tick.2.Leads q) := by
  have same := Process.id_eq_of_origin (p.origin_elapse k.advance.now)
  obtain ⟨answer, q, hid, chosen⟩ := leads.advance.schedule h.advance
  obtain ⟨alone, r, hr, hid', executed⟩ := chosen.execute h.advance.schedule
  rw [hid, same] at alone hid'
  exact ⟨answer.trans (congrArg some same), alone, r, hr, hid', executed⟩

/-! ## Any number of ticks -/

/-- As long as the process in the lead neither blocks nor exits, it is in the lead. -/
theorem Leads.after (leads : k.Leads p) (h : k.Coherent) {n : Nat}
    (lasts : ∀ m ≤ n, ∀ q ∈ (k.after m).table.processes, q.id = p.id →
      q.state ≠ .blocked ∧ q.state ≠ .exit) : ∃ q, q.id = p.id ∧ (k.after n).Leads q := by
  induction n with
  | zero => exact ⟨p, rfl, leads⟩
  | succ n ih =>
      obtain ⟨q, hid, leads'⟩ := ih fun m earlier => lasts m (Nat.le_succ_of_le earlier)
      obtain ⟨-, -, r, hr, hid', lead⟩ := leads'.tick (h.after n)
      obtain ⟨unblocked, alive⟩ := lasts (n + 1) (Nat.le_refl _) r hr (hid'.trans hid)
      exact ⟨r, hid'.trans hid, lead unblocked alive⟩

/-- In every kernel that operations can make, a running realtime process that is more urgent than
every other realtime process that has not exited is selected in every tick from then on, and no
other process executes an instruction, for as long as it neither blocks nor exits. -/
theorem most_urgent_monopolizes (minimum : Log.Level) (operations : List (Operation H)) :
    let k := (empty minimum).performAll operations
    ∀ p ∈ k.table.processes, p.isRealtime → p.state = .running →
      (∀ q ∈ k.table.processes, q.isRealtime → ¬ q.isExited → q.id ≠ p.id →
        p.urgency ≤ q.urgency) →
      ∀ n, (∀ m < n, ∀ q ∈ (k.after m).table.processes, q.id = p.id →
        q.state ≠ .blocked ∧ q.state ≠ .exit) →
      ∀ m < n, (k.after m).tick.1.1 = some p.id ∧
        ∀ given ∈ (k.after m).advance.schedule.2.execution?, given.1.id = p.id := by
  intro k p hp realtime state urgent n lasts m earlier
  have h : k.Coherent := coherent_performAll minimum operations
  have leads : k.Leads p := by
    apply Leads.mk hp (decide_eq_true state) realtime
    intro q hq realtime' alive
    by_cases same : q.id = p.id
    · rw [h.distinct.eq_of_id hq hp same]
      exact Std.le_refl p.urgency
    · exact urgent q hq realtime' alive same
  obtain ⟨q, hid, leads'⟩ :=
    leads.after h fun i before => lasts i (Nat.lt_of_le_of_lt before earlier)
  obtain ⟨answer, alone, -⟩ := leads'.tick (h.after m)
  rw [hid] at answer alone
  exact ⟨answer, alone⟩

def rivals : List (Operation Services) :=
  [.setQuantum 1, .create "" ".code\nloop: ADD #1\nBRANY loop" 0 .realtime .high,
    .create "" ".code\nloop: ADD #1\nBRANY loop" 0 .realtime .high, .advance, .schedule]

theorem most_urgent_monopolizes_rival :
    let k := (empty .info).performAll rivals
    ∃ p ∈ k.table.processes, ∃ q ∈ k.table.processes, q.isReady ∧ q.id ≠ p.id ∧
      .preempted p.id .quantumExpired 4 ∈ (k.after 2).advance.switches ∧
      ∀ m < 3, (k.after m).tick.1.1 = some p.id ∧
        ∀ given ∈ (k.after m).advance.schedule.2.execution?, given.1.id = p.id := by
  intro k
  have found : ∃ p ∈ k.table.processes, p.isRealtime ∧ p.state = .running ∧
      (∀ q ∈ k.table.processes, q.isRealtime → ¬ q.isExited → q.id ≠ p.id →
        p.urgency ≤ q.urgency) ∧
      (∀ m < 3, ∀ q ∈ (k.after m).table.processes, q.id = p.id →
        q.state ≠ .blocked ∧ q.state ≠ .exit) ∧
      .preempted p.id .quantumExpired 4 ∈ (k.after 2).advance.switches ∧
      ∃ q ∈ k.table.processes, q.isReady ∧ q.id ≠ p.id := by
    decide +kernel
  obtain ⟨p, hp, realtime, state, urgent, lasts, expired, q, hq, ready, other⟩ := found
  have monopolized := most_urgent_monopolizes .info rivals p hp realtime state urgent 3 lasts
  exact ⟨p, hp, q, hq, ready, other, expired, monopolized⟩

end Kernel

end Timeslice
