import Timeslice.Proofs.Kernel.Drive
import Timeslice.Proofs.Kernel.Realtime
import Timeslice.Services

/-! # The quantum of a dispatch

A realtime process that is put on the processor runs for its quantum: each tick takes one from what
is left, nothing else changes it, and the tick that finds nothing left sends the process back.
-/

namespace Timeslice

variable {H : Type}

namespace Kernel

variable {k : Kernel H} {operation : Operation H} {p q : Process H} {id : Pid} {tick : Nat}
  {reason : Preemption} {stays : List Stay}

/-! ## Scheduling and one process -/

theorem retains_iff_of_realtime (realtime : p.isRealtime) : k.Retains p ↔ 0 < p.quantumLeft := by
  simp [Retains, realtime]

namespace Coherent

theorem schedule_of_left (h : k.Coherent) (hp : p ∈ k.table.processes) (running : p.isRunning)
    (realtime : p.isRealtime) (left : 0 < p.quantumLeft) : k.schedule = (some p.id, k) :=
  h.schedule_of_retains (h.running?_eq_some.2 ⟨hp, running⟩)
    ((retains_iff_of_realtime realtime).2 left)

/-- A running realtime process with nothing left of its quantum is sent back. -/
theorem preempted_of_expired (h : k.Coherent) (hp : p ∈ k.table.processes) (running : p.isRunning)
    (realtime : p.isRealtime) (expired : p.quantumLeft ≤ 0) :
    .preempted p.id .quantumExpired k.now ∈ k.switches := by
  have hr := h.running?_eq_some.2 ⟨hp, running⟩
  have partings : k.partings = [.preempted p.id .quantumExpired k.now] := by
    simp only [Kernel.partings, hr, realtime, if_true]
  rcases h.schedule_cases with ⟨r, hr', kept, -⟩ | ⟨-, ⟨c, -, chooses⟩ | ⟨-, rests⟩⟩
  · rw [hr] at hr'
    cases hr'
    have left := (retains_iff_of_realtime realtime).1 kept
    omega
  · rw [chooses.switches, partings]
    exact List.mem_cons_self
  · rw [rests.switches, partings]
    exact List.mem_cons_self

/-- Scheduling sends back the process that runs and is not retained, for the reason that its class
gives. -/
theorem exists_of_preempted (h : k.Coherent) (member : .preempted id reason tick ∈ k.switches) :
    ∃ r ∈ k.table.processes, r.id = id ∧ r.isRunning ∧ ¬ k.Retains r ∧
      reason = if r.isRealtime then .quantumExpired else .realtimeArrival := by
  rcases h.mem_switches member with ⟨given, parted⟩ | ⟨_, same, -⟩
  · rcases mem_partings parted with ⟨r, hr, same⟩ | ⟨-, _, -, -, same⟩
    · obtain ⟨hp, running⟩ := h.running?_eq_some.1 hr
      cases same
      exact ⟨r, hp, rfl, running, given r hr, rfl⟩
    · cases same
  · cases same

theorem expired_of_preempted (h : k.Coherent)
    (member : .preempted id .quantumExpired tick ∈ k.switches) :
    ∃ r ∈ k.table.processes, r.id = id ∧ r.isRunning ∧ r.isRealtime ∧ r.quantumLeft ≤ 0 := by
  obtain ⟨r, hp, hid, running, given, reason⟩ := h.exists_of_preempted member
  have realtime : r.isRealtime := by
    refine Decidable.byContradiction fun effort => ?_
    rw [if_neg effort] at reason
    contradiction
  refine ⟨r, hp, hid, running, realtime, Int.not_lt.1 fun left => given ?_⟩
  exact (retains_iff_of_realtime realtime).2 left

theorem chooses_of_selected (h : k.Coherent) (member : .selected id tick ∈ k.switches) :
    k.schedule.1 = some id ∧ ∃ p, p.id = id ∧ k.Chooses p k.schedule.2 := by
  rcases h.mem_switches member with ⟨-, parted⟩ | ⟨p, same, answer, chooses⟩
  · rcases mem_partings parted with ⟨_, -, same⟩ | ⟨-, _, -, -, same⟩ <;> cases same
  · cases same
    exact ⟨answer, p, rfl, chooses⟩

/-- A realtime process that runs after scheduling ran before with some of its quantum left, or has
been put on the processor. -/
theorem running_schedule (h : k.Coherent) (hq : q ∈ k.schedule.2.table.processes)
    (running : q.isRunning) (realtime : q.isRealtime) :
    (q ∈ k.table.processes ∧ 0 < q.quantumLeft) ∨ .selected q.id k.now ∈ k.switches := by
  rcases h.schedule_cases with ⟨r, hr, kept, same⟩ | ⟨-, ⟨p, -, chooses⟩ | ⟨-, rests⟩⟩
  · rw [same] at hq
    have found := h.running?_eq_some.2 ⟨hq, running⟩
    rw [hr] at found
    cases found
    exact .inl ⟨hq, (retains_iff_of_realtime realtime).1 kept⟩
  · rw [chooses.table] at hq
    obtain ⟨r, -, rfl⟩ := List.mem_map.1 hq
    have same : (k.handOver p r).id = p.id :=
      (Process.id_eq_of_origin (k.origin_handOver p r)).trans (id_eq_of_handOver running)
    rw [same, chooses.switches]
    exact .inr (List.mem_append_right _ (List.mem_singleton_self _))
  · rw [rests.table] at hq
    have candidate : q ∈ k.candidates := mem_candidates.2 ⟨hq, .inr running⟩
    rw [rests.candidates] at candidate
    contradiction

end Coherent

/-! ## Between two schedulings -/

/-- Unless time passes or a process is chosen, a process stays as it is, or is blocked or ended. -/
theorem Change.of_isStill (h : k.Change operation p stays q) (still : operation.isStill) :
    (q.state = p.state ∧ q.quantumLeft = p.quantumLeft) ∨ q.state = .blocked ∨ q.state = .exit := by
  cases h with
  | elapsed due => exact (Operation.ne_advance_of_isStill still due).elim
  | dispatched due able => exact (Operation.ne_schedule_of_isStill still due).elim
  | sentBack due running => exact (Operation.ne_schedule_of_isStill still due).elim
  | spared untimed _ => exact .inl ⟨rfl, rfl⟩
  | blocked may running duration _ => exact .inr (.inl rfl)
  | ended may cpu => exact .inr (.inr rfl)
  | cutShort mayBlock mayEnd running duration cpu => exact .inr (.inr rfl)

variable [SyscallHandler H] {operations : List (Operation H)}

/-- A process that runs after still operations ran before them, with as much of its quantum left. -/
theorem Coherent.exists_running_of_still (h : k.Coherent)
    (still : ∀ operation ∈ operations, operation.isStill)
    (hq : q ∈ (k.performAll operations).table.processes) (running : q.isRunning) :
    ∃ p ∈ k.table.processes, p.id = q.id ∧ p.isRunning ∧ p.quantumLeft = q.quantumLeft := by
  induction operations generalizing k with
  | nil => exact ⟨q, hq, rfl, running, rfl⟩
  | cons operation rest ih =>
      have first := still operation List.mem_cons_self
      obtain ⟨p, hp, same, running, left⟩ := ih (h.perform operation)
        (fun next hn => still next (List.mem_cons_of_mem _ hn)) hq
      have state : p.state = .running := of_decide_eq_true running
      obtain ⟨f, created, evolves⟩ :=
        h.evolves operation (Operation.not_isReset_of_isStill first)
      rw [evolves.processes] at hp
      rcases List.mem_append.1 hp with old | new
      · obtain ⟨r, hr, rfl⟩ := List.mem_map.1 old
        have origin := Process.id_eq_of_origin (evolves.origin r)
        rcases (evolves.change r hr).of_isStill first with ⟨kept, left'⟩ | blocked | exited
        · have running' : r.isRunning := decide_eq_true (kept.symm.trans state)
          exact ⟨r, hr, origin.symm.trans same, running', left'.symm.trans left⟩
        · rw [state] at blocked
          contradiction
        · rw [state] at exited
          contradiction
      · obtain ⟨_, _, _, _, _, _, made⟩ := evolves.fresh p (Option.mem_toList.1 new)
        obtain ⟨program, -, rfl⟩ := Process.eq_of_create made
        contradiction

/-- A process that runs before still operations is there after them, and runs unless it is blocked
or has exited. -/
theorem Coherent.exists_of_still (h : k.Coherent)
    (still : ∀ operation ∈ operations, operation.isStill) (hp : p ∈ k.table.processes)
    (busy : p.state = .running ∨ p.state = .blocked ∨ p.state = .exit) :
    ∃ q ∈ (k.performAll operations).table.processes, q.id = p.id ∧
      (q.state = .running ∨ q.state = .blocked ∨ q.state = .exit) := by
  induction operations generalizing k p with
  | nil => exact ⟨p, hp, rfl, busy⟩
  | cons operation rest ih =>
      have first := still operation List.mem_cons_self
      obtain ⟨f, created, evolves⟩ :=
        h.evolves operation (Operation.not_isReset_of_isStill first)
      have member := evolves.mem_of_mem hp
      have busy' : (f p).state = .running ∨ (f p).state = .blocked ∨ (f p).state = .exit := by
        rcases (evolves.change p hp).of_isStill first with ⟨kept, -⟩ | off
        · rw [kept]
          exact busy
        · exact .inr off
      obtain ⟨q, hq, same, busy''⟩ := ih (h.perform operation)
        (fun next hn => still next (List.mem_cons_of_mem _ hn)) member busy'
      exact ⟨q, hq, same.trans (Process.id_eq_of_origin (evolves.origin p)), busy''⟩

theorem Coherent.hasRealtime_perform (h : k.Coherent) (kept : ¬ operation.isReset)
    (about : k.table.hasRealtime id) : (k.perform operation).table.hasRealtime id := by
  obtain ⟨f, created, evolves⟩ := h.evolves operation kept
  obtain ⟨p, hp, realtime, hid⟩ := ProcessTable.hasRealtime_eq_true.1 about
  refine ProcessTable.hasRealtime_eq_true.2 ⟨f p, evolves.mem_of_mem hp, ?_, ?_⟩
  · rwa [Process.isRealtime_eq_of_origin (evolves.origin p)]
  · rwa [Process.id_eq_of_origin (evolves.origin p)]

theorem Coherent.hasRealtime_performAll (h : k.Coherent)
    (kept : ∀ operation ∈ operations, ¬ operation.isReset) (about : k.table.hasRealtime id) :
    (k.performAll operations).table.hasRealtime id := by
  induction operations generalizing k with
  | nil => exact about
  | cons operation rest ih =>
      refine ih (h.perform operation) (fun next hn => kept next (List.mem_cons_of_mem _ hn)) ?_
      exact h.hasRealtime_perform (kept operation List.mem_cons_self) about

/-! ## Which processes lose a quantum -/

/-- Only scheduling records that processes are switched. -/
theorem Coherent.mem_audit_perform (h : k.Coherent) {event : Event}
    (member : event ∈ (k.perform operation).scheduler.audit) :
    event ∈ k.scheduler.audit ∨ (operation = .schedule ∧ event ∈ k.switches) ∨
      ¬ event.isSwitch := by
  cases operation with
  | schedule =>
      have audit : (k.perform .schedule).scheduler.audit = k.scheduler.audit ++ k.switches :=
        h.audit_schedule
      rw [audit, List.mem_append] at member
      exact member.imp_right fun switched => .inl ⟨rfl, switched⟩
  | execute =>
      have audit : (k.perform .execute).scheduler.audit = k.scheduler.audit ++ k.turned :=
        h.audit_execute
      rw [audit, List.mem_append] at member
      refine member.imp_right fun turned => .inr ?_
      rcases mem_turned turned with ⟨_, _, rfl⟩ | ⟨_, _, rfl⟩ <;> exact Bool.false_ne_true
  | terminate id reason =>
      cases found : k.table.find? id with
      | none =>
          have same : k.perform (.terminate id reason) = k := by
            simp only [Kernel.perform, Kernel.terminate, ProcessTable.terminate, found]
          exact .inl (same ▸ member)
      | some p =>
          have audit : (k.perform (.terminate id reason)).scheduler =
              (k.scheduler.deselect id).record (.exited id reason k.now) :=
            terminate_of_find? found reason
          have deselected : (k.scheduler.deselect id).audit = k.scheduler.audit := by
            unfold Scheduler.deselect
            split <;> rfl
          rw [audit, Scheduler.record, deselected, List.mem_append] at member
          refine member.imp_right fun ended => .inr ?_
          rw [List.mem_singleton.1 ended]
          exact Bool.false_ne_true
  | clearAudit => contradiction
  | _ => exact .inl member

/-- Over a run, a quantum is recorded as used up of realtime processes alone. -/
theorem Coherent.hasRealtime_of_expired (h : k.Coherent)
    (kept : ∀ operation ∈ operations, ¬ operation.isReset)
    (known : ∀ id tick, .preempted id .quantumExpired tick ∈ k.scheduler.audit →
      k.table.hasRealtime id)
    (member : .preempted id .quantumExpired tick ∈ (k.performAll operations).scheduler.audit) :
    (k.performAll operations).table.hasRealtime id := by
  induction operations generalizing k with
  | nil => exact known id tick member
  | cons operation rest ih =>
      have first := kept operation List.mem_cons_self
      refine ih (h.perform operation) (fun next hn => kept next (List.mem_cons_of_mem _ hn)) ?_
        member
      intro id tick recorded
      rcases h.mem_audit_perform recorded with old | ⟨due, switched⟩ | other
      · exact h.hasRealtime_perform first (known id tick old)
      · obtain ⟨r, hr, hid, -, realtime, -⟩ := h.expired_of_preempted switched
        exact h.hasRealtime_perform first
          (ProcessTable.hasRealtime_eq_true.2 ⟨r, hr, realtime, hid⟩)
      · exact (other rfl).elim

end Kernel

/-! ## One dispatch -/

namespace Drive

variable [SyscallHandler H]

section Definitions

variable (d : Drive H) (id : Pid)

def dispatches (n : Nat) : Bool :=
  decide (.selected id (d.timed n).now ∈ (d.timed n).switches)

def executes (n : Nat) : Bool := (d.chosen n).execution?.any (·.1.id = id)

def Undispatched (first last : Nat) : Prop := ∀ n < last, first < n → ¬ d.dispatches id n

instance (first last : Nat) : Decidable (d.Undispatched id first last) :=
  inferInstanceAs (Decidable (∀ n < last, first < n → ¬ d.dispatches id n = true))

/-- `d.Runs id t n`: when time has passed in tick `t + n`, process `id` still runs from its dispatch
in tick `t`. -/
structure Runs (t n : Nat) : Prop where
  later : 0 < n
  running : ∃ p ∈ (d.timed (t + n)).table.processes, p.id = id ∧ p.isRunning
  undispatched : d.Undispatched id t (t + n)

/-- `d.Spared id t n`: none of the `n` ticks after tick `t` finds process `id` blocked or ended. -/
def Spared (t n : Nat) : Prop :=
  ∀ m, 0 < m → m ≤ n → ∀ p ∈ (d.poised (t + m)).table.processes, p.id = id →
    p.state ≠ .blocked ∧ p.state ≠ .exit

/-- `d.Unhindered id t n`: in none of the `n` ticks from tick `t` on does process `id` wait for
input, run past its last instruction or fail, and it is neither blocked nor ended before the last of
them. -/
structure Unhindered (t n : Nat) : Prop where
  spared : d.Spared id t (n - 1)
  able : ∀ m < n, ∀ p ∈ (d.chosen (t + m)).table.processes, p.id = id →
    ¬ p.cpu.waitingForInput ∧ ¬ p.cpu.isHalted ∧ ∀ fault, p.cpu.step.1 ≠ .error fault

end Definitions

/-- The instructions that process `id` executes in `n` ticks from its dispatch in tick `t`, until it
is dispatched again. -/
def executions (d : Drive H) (id : Pid) (t : Nat) : Nat → Nat
  | 0 => 0
  | n + 1 => d.executions id t n +
      if d.executes id (t + n) ∧ d.Undispatched id t (t + n + 1) then 1 else 0

/-- `d.Serves id t quantum`: the dispatch of process `id` in tick `t` is one for a quantum. -/
structure Serves (d : Drive H) (id : Pid) (t quantum : Nat) : Prop where
  granted : (d.timed t).schedule.1 = some id ∧
    ∃ p ∈ (d.chosen t).table.processes, p.id = id ∧ p.isRunning ∧ p.quantumLeft = quantum
  /-- The process runs through its quantum unless it is blocked or ended. -/
  runs : ∀ n, 0 < n → n ≤ quantum → d.Spared id t n → d.Runs id t n
  /-- While it runs, what is left is the quantum less the ticks that have passed. -/
  left : ∀ n, d.Runs id t n → n ≤ quantum ∧
    ∀ p ∈ (d.timed (t + n)).table.processes, p.id = id → p.quantumLeft = quantum - n
  keeps : ∀ n < quantum, d.Runs id t n → (d.timed (t + n)).schedule = (some id, d.timed (t + n))
  /-- The tick that finds nothing left sends the process back, whether it waits or not. -/
  expires : d.Runs id t quantum →
    .preempted id .quantumExpired (d.timed (t + quantum)).now ∈ (d.timed (t + quantum)).switches
  /-- No tick before that one does. -/
  unexpired : ∀ n < quantum, 0 < n → d.Undispatched id t (t + n) → ∀ tick,
    .preempted id .quantumExpired tick ∉ (d.timed (t + n)).switches
  bounded : ∀ n, d.executions id t n ≤ quantum
  full : d.Unhindered id t quantum → ∀ n, quantum ≤ n → d.executions id t n = quantum

variable {d : Drive H} {id : Pid} {t n : Nat} {p q : Process H}

omit [SyscallHandler H] in
theorem still_between (d : Drive H) (n : Nat) :
    ∀ operation ∈ Operation.execute :: d.before n, operation.isStill := by
  intro operation member
  rcases List.mem_cons.1 member with rfl | between
  · rfl
  · exact Operation.isStill_of_isInterlude (d.proper n operation between)

/-- A process that runs when time has passed ran when a process was chosen the tick before, with one
more tick of its quantum left. -/
theorem exists_running_chosen (hq : q ∈ (d.timed (n + 1)).table.processes)
    (running : q.isRunning) :
    ∃ p ∈ (d.chosen n).table.processes, p.id = q.id ∧ p.isRunning ∧
      q.quantumLeft = max (p.quantumLeft - 1) Process.leastQuantum := by
  obtain ⟨r, hr, rfl⟩ := (d.poised (n + 1)).table.becomes_advance.mem hq
  rw [Process.isRunning_elapse] at running
  obtain ⟨p, hp, same, running', left⟩ :=
    (d.driven_chosen n).coherent.exists_running_of_still (d.still_between (n + 1)) hr running
  have state : r.state = .running := of_decide_eq_true running
  refine ⟨p, hp, same.trans (Process.id_eq_of_origin (r.origin_elapse _)).symm, running', ?_⟩
  have elapses := r.elapses (d.poised (n + 1)).table.advance.now
  generalize r.elapse (d.poised (n + 1)).table.advance.now = q at elapses
  cases elapses with
  | ran _ => rw [left]
  | _ => simp_all

/-- A process that runs when a process has been chosen still runs when time has passed, unless it
has been blocked or ended in between. -/
theorem exists_running_timed (hp : p ∈ (d.chosen n).table.processes) (running : p.isRunning)
    (spared : ∀ q ∈ (d.poised (n + 1)).table.processes, q.id = p.id →
      q.state ≠ .blocked ∧ q.state ≠ .exit) :
    ∃ q ∈ (d.timed (n + 1)).table.processes, q.id = p.id ∧ q.isRunning := by
  have state : p.state = .running := of_decide_eq_true running
  obtain ⟨r, hr, same, busy⟩ :=
    (d.driven_chosen n).coherent.exists_of_still (d.still_between (n + 1)) hp (.inl state)
  obtain ⟨unblocked, alive⟩ := spared r hr same
  have running' : r.state = .running := busy.resolve_right fun off => off.elim unblocked alive
  refine ⟨r.elapse (d.timed (n + 1)).now, List.mem_map_of_mem hr, ?_, ?_⟩
  · exact (Process.id_eq_of_origin (r.origin_elapse _)).trans same
  · rw [Process.isRunning_elapse]
    exact decide_eq_true running'

/-- A realtime process is there for good. -/
theorem hasRealtime_phases (about : (d.timed n).table.hasRealtime id) :
    (d.chosen n).table.hasRealtime id ∧ (d.timed (n + 1)).table.hasRealtime id := by
  have chosen : ((d.timed n).perform .schedule).table.hasRealtime id :=
    (d.driven_timed n).coherent.hasRealtime_perform nofun about
  have poised : (d.poised (n + 1)).table.hasRealtime id := by
    rw [d.poised_succ]
    refine (d.driven_chosen n).coherent.hasRealtime_performAll (fun operation member => ?_) chosen
    exact Operation.not_isReset_of_isStill (d.still_between (n + 1) operation member)
  have timed : ((d.poised (n + 1)).perform .advance).table.hasRealtime id :=
    (d.driven_poised (n + 1)).coherent.hasRealtime_perform nofun poised
  exact ⟨chosen, timed⟩

/-- A process that runs from its dispatch runs a tick longer unless it is blocked or ended. -/
theorem runs_succ (running : ∃ p ∈ (d.chosen (t + n)).table.processes, p.id = id ∧ p.isRunning)
    (undispatched : d.Undispatched id t (t + n + 1)) (spared : d.Spared id t (n + 1)) :
    d.Runs id t (n + 1) := by
  obtain ⟨p, hp, hid, running⟩ := running
  have free := spared (n + 1) (Nat.succ_pos n) (Nat.le_refl _)
  obtain ⟨q, hq, same, running'⟩ := exists_running_timed hp running fun r hr hid' =>
    free r hr (hid'.trans hid)
  exact ⟨Nat.succ_pos n, ⟨q, hq, same.trans hid, running'⟩, undispatched⟩

theorem hasRealtime_timed (about : (d.timed t).table.hasRealtime id) (n : Nat) :
    (d.timed (t + n)).table.hasRealtime id := by
  induction n with
  | zero => exact about
  | succ n ih => exact (hasRealtime_phases ih).2

section Dispatched

variable (about : (d.timed t).table.hasRealtime id) (dispatched : d.dispatches id t)

include about

theorem isRealtime_timed (hp : p ∈ (d.timed (t + n)).table.processes) (hid : p.id = id) :
    p.isRealtime := by
  have known := hasRealtime_timed about n
  rwa [← hid, (d.driven_timed (t + n)).coherent.distinct.hasRealtime_id hp] at known

theorem isRealtime_chosen (hp : p ∈ (d.chosen (t + n)).table.processes) (hid : p.id = id) :
    p.isRealtime := by
  have known := (hasRealtime_phases (hasRealtime_timed about n)).1
  rwa [← hid, (d.driven_chosen (t + n)).coherent.distinct.hasRealtime_id hp] at known

include dispatched

theorem granted_chosen :
    (d.timed t).schedule.1 = some id ∧ ∃ p ∈ (d.chosen t).table.processes, p.id = id ∧
      p.isRunning ∧ p.quantumLeft = (d.timed t).scheduler.quantum := by
  have h := (d.driven_timed t).coherent
  obtain ⟨answer, p, rfl, chooses⟩ := h.chooses_of_selected (of_decide_eq_true dispatched)
  have realtime : p.isRealtime :=
    isRealtime_timed (n := 0) about (Kernel.mem_candidates.1 chooses.first.mem).1 rfl
  refine ⟨answer, _, chooses.mem_dispatch, rfl, rfl, ?_⟩
  show (d.timed t).granted p = (d.timed t).scheduler.quantum
  rw [Kernel.granted_eq, if_pos realtime]

/-- A process that still runs from its dispatch when a process has been chosen has what the ticks
since then have left of its quantum, and that is more than nothing. -/
theorem left_chosen (hq : q ∈ (d.chosen (t + n)).table.processes) (hid : q.id = id)
    (running : q.isRunning) (undispatched : d.Undispatched id t (t + n + 1)) :
    n < (d.timed t).scheduler.quantum ∧ q.quantumLeft = (d.timed t).scheduler.quantum - n := by
  induction n generalizing q with
  | zero =>
      obtain ⟨-, p, hp, hid', -, left⟩ := granted_chosen about dispatched
      have same := (d.driven_chosen t).coherent.distinct.eq_of_id hq hp (hid.trans hid'.symm)
      refine ⟨(d.driven_timed t).quantum, ?_⟩
      rw [same, left]
      omega
  | succ n ih =>
      have realtime := isRealtime_chosen about hq hid
      rcases (d.driven_timed (t + (n + 1))).coherent.running_schedule hq running realtime with
        ⟨hq', positive⟩ | selected
      · obtain ⟨p, hp, same, running', left⟩ := exists_running_chosen hq' running
        have undispatched' : d.Undispatched id t (t + n + 1) := fun m before =>
          undispatched m (Nat.lt_succ_of_lt before)
        obtain ⟨below, left'⟩ := ih hp (same.trans hid) running' undispatched'
        unfold Process.leastQuantum Word.least64 at left
        omega
      · rw [hid] at selected
        refine (undispatched (t + (n + 1)) (by omega) (by omega) ?_).elim
        exact decide_eq_true selected

theorem left_timed (runs : d.Runs id t n) (hp : p ∈ (d.timed (t + n)).table.processes)
    (hid : p.id = id) : p.isRunning ∧ n ≤ (d.timed t).scheduler.quantum ∧
      p.quantumLeft = (d.timed t).scheduler.quantum - n := by
  obtain ⟨later, ⟨q, hq, hid', running⟩, undispatched⟩ := runs
  have same := (d.driven_timed (t + n)).coherent.distinct.eq_of_id hq hp (hid'.trans hid.symm)
  subst same
  obtain ⟨m, rfl⟩ : ∃ m, n = m + 1 := ⟨n - 1, by omega⟩
  obtain ⟨r, hr, same, running', left⟩ := exists_running_chosen hq running
  obtain ⟨below, left'⟩ := left_chosen about dispatched hr (same.trans hid') running' undispatched
  unfold Process.leastQuantum Word.least64 at left
  exact ⟨running, by omega, by omega⟩

theorem schedule_of_runs (runs : d.Runs id t n) (below : n < (d.timed t).scheduler.quantum) :
    (d.timed (t + n)).schedule = (some id, d.timed (t + n)) := by
  obtain ⟨p, hp, rfl, running⟩ := runs.running
  obtain ⟨-, -, left⟩ := left_timed about dispatched runs hp rfl
  refine (d.driven_timed (t + n)).coherent.schedule_of_left hp running
    (isRealtime_timed about hp rfl) ?_
  omega

/-- A process that is not blocked or ended goes from tick to tick of its quantum. -/
theorem runs_of_spared (spared : d.Spared id t n) (below : n < (d.timed t).scheduler.quantum) :
    (∃ p ∈ (d.chosen (t + n)).table.processes, p.id = id ∧ p.isRunning) ∧
      d.Undispatched id t (t + n + 1) := by
  induction n with
  | zero =>
      obtain ⟨-, p, hp, hid, running, -⟩ := granted_chosen about dispatched
      exact ⟨⟨p, hp, hid, running⟩, fun m before after => by omega⟩
  | succ n ih =>
      obtain ⟨running, undispatched⟩ :=
        ih (fun m later before => spared m later (Nat.le_succ_of_le before)) (by omega)
      have runs := runs_succ running undispatched spared
      have kept := schedule_of_runs about dispatched runs below
      have chosen : d.chosen (t + (n + 1)) = d.timed (t + (n + 1)) := congrArg Prod.snd kept
      rw [chosen]
      refine ⟨runs.running, fun m before after => ?_⟩
      by_cases last : m = t + (n + 1)
      · rw [last, dispatches, Kernel.switches_of_kept kept]
        exact Bool.false_ne_true
      · exact undispatched m (by omega) after

/-! ## Instructions -/

theorem executions_le (n : Nat) :
    d.executions id t n ≤ n ∧ d.executions id t n ≤ (d.timed t).scheduler.quantum := by
  induction n with
  | zero => exact ⟨Nat.le_refl 0, Nat.zero_le _⟩
  | succ n ih =>
      unfold executions
      split
      · rename_i executed
        obtain ⟨executes, undispatched⟩ := executed
        obtain ⟨⟨p, instruction⟩, execution, same⟩ := (Option.any_eq_true _ _).1 executes
        obtain ⟨hr, -⟩ := Kernel.execution?_eq_some execution
        obtain ⟨hp, running⟩ := (d.driven_chosen (t + n)).coherent.running?_eq_some.1 hr
        have below := (left_chosen about dispatched hp (of_decide_eq_true same) running
          undispatched).1
        omega
      · omega

theorem executions_eq (unhindered : d.Unhindered id t (d.timed t).scheduler.quantum)
    (enough : n ≤ (d.timed t).scheduler.quantum) : d.executions id t n = n := by
  induction n with
  | zero => rfl
  | succ n ih =>
      have spared : d.Spared id t n := fun m later before =>
        unhindered.spared m later (by omega)
      obtain ⟨⟨p, hp, hid, running⟩, undispatched⟩ := runs_of_spared about dispatched spared enough
      obtain ⟨unwaiting, unhalted, faultless⟩ := unhindered.able n enough p hp hid
      have driven := d.driven_chosen (t + n)
      have executes : d.executes id (t + n) := by
        rw [Drive.executes, ← hid, driven.coherent.any_execution? hp, running, Bool.true_and]
        exact driven.executes hp running unwaiting unhalted faultless
      rw [executions, if_pos ⟨executes, undispatched⟩, ih (by omega)]

theorem executions_eq_quantum (unhindered : d.Unhindered id t (d.timed t).scheduler.quantum)
    (enough : (d.timed t).scheduler.quantum ≤ n) :
    d.executions id t n = (d.timed t).scheduler.quantum := by
  induction enough with
  | refl => exact executions_eq about dispatched unhindered (Nat.le_refl _)
  | @step n _ ih =>
      have bound := (executions_le about dispatched (n + 1)).2
      unfold executions at bound ⊢
      omega

theorem serves : d.Serves id t (d.timed t).scheduler.quantum where
  granted := granted_chosen about dispatched
  runs n later enough spared := by
    obtain ⟨m, rfl⟩ : ∃ m, n = m + 1 := ⟨n - 1, by omega⟩
    obtain ⟨running, undispatched⟩ := runs_of_spared about dispatched
      (fun i later before => spared i later (Nat.le_succ_of_le before)) enough
    exact runs_succ running undispatched spared
  left n runs := by
    obtain ⟨p, hp, hid, -⟩ := runs.running
    refine ⟨(left_timed about dispatched runs hp hid).2.1, fun q hq hid' => ?_⟩
    exact (left_timed about dispatched runs hq hid').2.2
  keeps n below runs := schedule_of_runs about dispatched runs below
  expires runs := by
    obtain ⟨p, hp, rfl, running⟩ := runs.running
    have left := (left_timed about dispatched runs hp rfl).2.2
    exact (d.driven_timed _).coherent.preempted_of_expired hp running
      (isRealtime_timed about hp rfl) (by omega)
  unexpired n below later undispatched tick member := by
    obtain ⟨p, hp, hid, running, -, expired⟩ :=
      (d.driven_timed (t + n)).coherent.expired_of_preempted member
    have runs : d.Runs id t n := ⟨later, ⟨p, hp, hid, running⟩, undispatched⟩
    have left := (left_timed about dispatched runs hp hid).2.2
    omega
  bounded n := (executions_le about dispatched n).2
  full unhindered n enough := executions_eq_quantum about dispatched unhindered enough

end Dispatched

/-- Whatever goes on between ticks, the dispatch of a realtime process is one for the quantum that
is set at the time. Nothing but ticks uses up a quantum, and only realtime processes have one. -/
theorem quantum_exact (d : Drive H) :
    (∀ t, ∀ p ∈ (d.timed t).table.processes, p.isRealtime → d.dispatches p.id t →
      d.Serves p.id t (d.timed t).scheduler.quantum) ∧
    ∀ (minimum : Log.Level) (operations : List (Operation H)),
      (∀ operation ∈ operations, ¬ operation.isReset) →
      let k := (Kernel.empty minimum).performAll operations
      ∀ p ∈ k.table.processes, ¬ p.isRealtime → ∀ tick,
        .preempted p.id .quantumExpired tick ∉ k.scheduler.audit := by
  constructor
  · intro t p hp realtime dispatched
    have about := ProcessTable.hasRealtime_eq_true.2 ⟨p, hp, realtime, rfl⟩
    exact serves about dispatched
  · intro minimum operations kept k p hp effort tick member
    have start : (Kernel.empty minimum : Kernel H).Coherent := Kernel.coherent_empty minimum
    have about : k.table.hasRealtime p.id :=
      start.hasRealtime_of_expired kept
        (fun _ _ recorded => (List.not_mem_nil recorded).elim) member
    have distinct := (Kernel.coherent_performAll minimum operations).distinct
    rw [distinct.hasRealtime_id hp] at about
    exact effort about

def spinning : Drive Services where
  minimum := .info
  before
    | 0 => [.create "spin" ".code\nloop:\nADD #1\nBRANY loop" 0 .realtime .high, .setQuantum 3]
    | _ => [.setQuantum 1]
  proper
    | 0 => by decide
    | _ + 1 => fun _ member => List.mem_singleton.1 member ▸ rfl

theorem quantum_exact_spinning :
    ∃ p ∈ (spinning.timed 0).table.processes, p.isRealtime ∧ spinning.dispatches p.id 0 ∧
      spinning.Serves p.id 0 3 ∧ spinning.executions p.id 0 5 = 3 ∧
      .preempted p.id .quantumExpired 4 ∈ (spinning.timed 3).switches := by
  have dispatched : ∃ p ∈ (spinning.timed 0).table.processes, p.isRealtime ∧
      spinning.dispatches p.id 0 ∧ spinning.executions p.id 0 5 = 3 ∧
      .preempted p.id .quantumExpired 4 ∈ (spinning.timed 3).switches := by
    decide +kernel
  have granted : (spinning.timed 0).scheduler.quantum = 3 := by decide +kernel
  obtain ⟨p, hp, realtime, dispatched, executed, expired⟩ := dispatched
  have serves := (quantum_exact spinning).1 0 p hp realtime dispatched
  rw [granted] at serves
  exact ⟨p, hp, realtime, dispatched, serves, executed, expired⟩

end Drive

end Timeslice
