import Timeslice.Proofs.Kernel.Accounting
import Timeslice.Proofs.Kernel.Lifecycle
import Timeslice.Proofs.Kernel.Policy
import Timeslice.Proofs.Kernel.Programs
import Timeslice.Proofs.Kernel.Quantum

/-! # Admissions and wakings on time

Two ticks are fixed in advance: the one that admits a process when the process is created, and the
one that wakes it when it is blocked. What is done in the meantime can end the process, but it can
bring neither tick forward nor put it off.
-/

namespace Timeslice

variable {H : Type}

def Stay.waking (stay : Stay) : Nat := stay.since + max stay.duration 1

/-! ## A process that waits for a tick -/

namespace Process

/-- `p.Awaits birth now`: at `now`, process `p` of the birth is new as long as its admission is
ahead, or has been ended. -/
structure Awaits (p : Process H) (birth : Birth) (now : Nat) : Prop where
  arrival : birth.arrivalTime = p.arrivalTime
  born : birth.now ≤ now
  new : ¬ p.isExited → (p.state = .new ↔ now < birth.admission)

/-- `p.Sleeps stay now`: at `now`, process `p` is in the block of the stay as long as its waking is
ahead, or has been ended. -/
structure Sleeps (p : Process H) (stay : Stay) (now : Nat) : Prop where
  since : stay.since ≤ now
  blocked : ¬ p.isExited → now < stay.waking →
    p.state = .blocked ∧ p.blockEnd = Word.add stay.since stay.duration

variable {p q : Process H} {birth : Birth} {stay : Stay} {now later : Nat}

theorem not_isExited_of_state {state : ProcessState} (h : p.state = state) (alive : state ≠ .exit) :
    ¬ p.isExited := by
  intro exited
  exact alive (h.symm.trans (of_decide_eq_true exited))

/-- Once it is past its admission a process is never new again. -/
theorem Awaits.grown (h : p.Awaits birth now) (alive : ¬ p.isExited) (grown : p.state ≠ .new)
    (same : q.arrivalTime = p.arrivalTime) (grown' : q.state ≠ .new) (passed : now ≤ later) :
    q.Awaits birth later where
  arrival := h.arrival.trans same.symm
  born := Nat.le_trans h.born passed
  new := by
    intro _
    have admitted : ¬ now < birth.admission := fun ahead => grown ((h.new alive).2 ahead)
    exact iff_of_false grown' (by omega)

theorem Awaits.exited (h : p.Awaits birth now) (same : q.arrivalTime = p.arrivalTime)
    (exited : q.isExited) (passed : now ≤ later) : q.Awaits birth later where
  arrival := h.arrival.trans same.symm
  born := Nat.le_trans h.born passed
  new alive := (alive exited).elim

theorem Awaits.elapses (h : p.Awaits birth now) (elapses : p.Elapses (now + 1) q) :
    q.Awaits birth (now + 1) := by
  have born := h.born
  have arrival := h.arrival
  cases elapses with
  | early state early =>
      have ahead : now + 1 < birth.admission := by
        unfold Birth.admission
        omega
      exact ⟨arrival, by omega, fun _ => iff_of_true state ahead⟩
  | arrived state due =>
      have due' : ¬ now + 1 < birth.admission := by
        unfold Birth.admission
        omega
      exact ⟨arrival, by omega, fun _ => iff_of_false nofun due'⟩
  | waited state =>
      exact h.grown (not_isExited_of_state state nofun) (by simp [state]) rfl (by simp [state])
        (Nat.le_succ now)
  | ran state =>
      exact h.grown (not_isExited_of_state state nofun) (by simp [state]) rfl (by simp [state])
        (Nat.le_succ now)
  | stayed state early =>
      exact h.grown (not_isExited_of_state state nofun) (by simp [state]) rfl (by simp [state])
        (Nat.le_succ now)
  | woke state due =>
      exact h.grown (not_isExited_of_state state nofun) (by simp [state]) rfl nofun
        (Nat.le_succ now)
  | ended state => exact h.exited rfl (decide_eq_true state) (Nat.le_succ now)

/-- A block whose waking is past says nothing more of its process. -/
theorem Sleeps.past (since : stay.since ≤ now) (past : stay.waking ≤ now) : q.Sleeps stay now where
  since := since
  blocked _ ahead := by omega

theorem Sleeps.exited (since : stay.since ≤ now) (exited : q.isExited) : q.Sleeps stay now where
  since := since
  blocked alive := (alive exited).elim

/-- Below the limit of the clock a block is over in the tick that wakes its process. -/
theorem Sleeps.elapses (h : p.Sleeps stay now) (below : now + 1 < Word.limit)
    (elapses : p.Elapses (now + 1) q) : q.Sleeps stay (now + 1) := by
  have since := h.since
  by_cases past : stay.waking ≤ now + 1
  · exact .past (by omega) past
  by_cases exited : p.isExited
  · have state : p.state = .exit := of_decide_eq_true exited
    cases elapses with
    | ended _ => exact .exited (by omega) exited
    | _ => simp_all
  obtain ⟨state, blockEnd⟩ := h.blocked exited (by omega)
  cases elapses with
  | stayed _ early => exact ⟨by omega, fun _ _ => ⟨state, blockEnd⟩⟩
  | woke _ due =>
      rw [blockEnd, Word.add] at due
      unfold Stay.waking at past
      omega
  | _ => simp_all

end Process

namespace Kernel

variable {k l : Kernel H} {operation : Operation H} {p q : Process H} {stays : List Stay}
  {birth : Birth} {stay : Stay}

theorem Change.arrivalTime (h : k.Change operation p stays q) : q.arrivalTime = p.arrivalTime := by
  cases h with
  | elapsed due => exact congrArg Origin.arrivalTime (p.origin_elapse k.advance.now)
  | _ => rfl

/-- An operation that is not a tick admits no process. -/
theorem Change.awaits (h : k.Change operation p stays q) (untimed : operation ≠ .advance)
    (awaits : p.Awaits birth k.now) : q.Awaits birth k.now := by
  have same := h.arrivalTime
  have left (busy : p.state = .ready ∨ p.state = .running) (grown : q.state ≠ .new) :
      q.Awaits birth k.now := by
    apply awaits.grown ?_ ?_ same grown (Nat.le_refl _)
    · rcases busy with state | state <;> exact Process.not_isExited_of_state state nofun
    · rcases busy with state | state <;> simp [state]
  cases h with
  | elapsed due => exact (untimed due).elim
  | dispatched due able => exact left (able.imp of_decide_eq_true of_decide_eq_true) nofun
  | sentBack due running => exact left (.inr (of_decide_eq_true running)) nofun
  | spared _ _ => exact ⟨awaits.arrival, awaits.born, awaits.new⟩
  | blocked may running duration _ => exact left (.inr (of_decide_eq_true running)) nofun
  | ended may cpu => exact awaits.exited same rfl (Nat.le_refl _)
  | cutShort _ _ running duration cpu => exact awaits.exited same rfl (Nat.le_refl _)

/-- Nor does it wake one. -/
theorem Change.sleeps (h : k.Change operation p stays q) (untimed : operation ≠ .advance)
    (sleeps : p.Sleeps stay k.now) : q.Sleeps stay k.now := by
  have since := sleeps.since
  by_cases past : stay.waking ≤ k.now
  · exact .past since past
  by_cases exited : p.isExited
  · rw [h.eq_withCpu_of_exited exited]
    exact .exited since exited
  obtain ⟨state, blockEnd⟩ := sleeps.blocked exited (by omega)
  cases h with
  | elapsed due => exact (untimed due).elim
  | dispatched due able => simp [Process.isReady, Process.isRunning, state] at able
  | sentBack due running => simp [Process.isRunning, state] at running
  | spared _ _ => exact ⟨since, fun _ _ => ⟨state, blockEnd⟩⟩
  | blocked may running duration _ => simp [Process.isRunning, state] at running
  | ended may cpu => exact .exited since rfl
  | cutShort _ _ running duration cpu => simp [Process.isRunning, state] at running

/-- The stays that an operation puts a process under begin with it. -/
theorem Change.sleeps_of_mem (h : k.Change operation p stays q) (member : stay ∈ stays) :
    q.Sleeps stay k.now := by
  cases h with
  | blocked may running duration _ =>
      rw [List.mem_singleton.1 member]
      exact ⟨Nat.le_refl _, fun _ _ => ⟨rfl, rfl⟩⟩
  | cutShort _ _ running duration cpu =>
      rw [List.mem_singleton.1 member]
      exact .exited (Nat.le_refl _) rfl
  | _ => contradiction

/-! ## A process that does not run -/

namespace Coherent

variable (h : k.Coherent) (hp : p ∈ k.table.processes)

include h hp

/-- A process that neither is ready nor runs cannot be selected. -/
theorem not_selected (unready : ¬ p.isReady) (idle : ¬ p.isRunning) :
    k.schedule.1 ≠ some p.id ∧ ∀ now, .selected p.id now ∉ k.switches := by
  have unanswered : k.schedule.1 ≠ some p.id := by
    intro answer
    have running := h.isRunning_schedule (h.mem_schedule hp unready idle)
    exact idle (running.trans (decide_eq_true answer))
  exact ⟨unanswered, fun _ selected => unanswered (h.chooses_of_selected selected).1⟩

/-- A process that does not run cannot be blocked. -/
theorem block_refused (idle : ¬ p.isRunning) (duration : Nat) :
    k.table.block p.id duration = (false, k.table) := by
  simp only [ProcessTable.block, h.distinct.find?_of_mem hp]
  exact if_neg idle

end Coherent

/-! ## One process through a run -/

/-- What is said of a process and the clock is lasting if every tick keeps it, and every other
operation. -/
structure Lasting (P : Process H → Nat → Prop) : Prop where
  tick : ∀ {p q : Process H} {now : Nat}, now + 1 < Word.limit → p.Elapses (now + 1) q →
    P p now → P q (now + 1)
  other : ∀ {k : Kernel H} {operation : Operation H} {p q : Process H} {stays : List Stay},
    k.Change operation p stays q → operation ≠ .advance → P p k.now → P q k.now

theorem lasting_awaits (birth : Birth) : Lasting (H := H) fun p now => p.Awaits birth now where
  tick _ elapses awaits := awaits.elapses elapses
  other change untimed awaits := change.awaits untimed awaits

theorem lasting_sleeps (stay : Stay) : Lasting (H := H) fun p now => p.Sleeps stay now where
  tick below elapses sleeps := sleeps.elapses below elapses
  other change untimed sleeps := change.sleeps untimed sleeps

section Runs

variable [SyscallHandler H] {P : Process H → Nat → Prop}

/-- A process is there after an operation, changed in one of the ways that there are. -/
theorem Coherent.exists_change (h : k.Coherent) (kept : ¬ operation.isReset)
    (hp : p ∈ k.table.processes) :
    ∃ q ∈ (k.perform operation).table.processes, q.id = p.id ∧
      k.Change operation p ((k.stays operation).filter (·.process = p.id)) q := by
  obtain ⟨f, created, evolves⟩ := h.evolves operation kept
  exact ⟨f p, evolves.mem_of_mem hp, Process.id_eq_of_origin (evolves.origin p),
    evolves.change p hp⟩

theorem Coherent.now_perform (h : k.Coherent) (kept : ¬ operation.isReset)
    (untimed : operation ≠ .advance) : (k.perform operation).now = k.now := by
  obtain ⟨f, created, evolves⟩ := h.evolves operation kept
  exact evolves.now untimed

theorem Lasting.perform (lasting : Lasting P) (h : k.Coherent) (kept : ¬ operation.isReset)
    (below : (k.perform operation).now < Word.limit) (change : k.Change operation p stays q)
    (holds : P p k.now) : P q (k.perform operation).now := by
  by_cases timed : operation = .advance
  · subst timed
    have ticked : (k.perform .advance).now = k.now + 1 := now_advance below
    have elapses := p.elapses k.advance.now
    rw [← change.of_advance.2, now_advance below] at elapses
    rw [ticked] at below ⊢
    exact lasting.tick below elapses holds
  · rw [h.now_perform kept timed]
    exact lasting.other change timed holds

theorem Lasting.performAll (lasting : Lasting P) (h : k.Coherent)
    {operations : List (Operation H)} (kept : ∀ operation ∈ operations, ¬ operation.isReset)
    (below : (k.performAll operations).now < Word.limit) (hp : p ∈ k.table.processes)
    (holds : P p k.now) :
    ∃ q ∈ (k.performAll operations).table.processes, q.id = p.id ∧
      P q (k.performAll operations).now := by
  induction operations generalizing k p with
  | nil => exact ⟨p, hp, rfl, holds⟩
  | cons operation rest ih =>
      have first := kept operation List.mem_cons_self
      have later (next) (hn : next ∈ rest) : ¬ next.isReset := kept next (List.mem_cons_of_mem _ hn)
      have below' := (h.perform operation).now_lt_performAll later below
      obtain ⟨q, hq, same, change⟩ := h.exists_change first hp
      have holds' := lasting.perform h first below' change holds
      obtain ⟨r, hr, same', holds''⟩ := ih (h.perform operation) later below hq holds'
      exact ⟨r, hr, same'.trans same, holds''⟩

/-! ## The tick that admits and the tick that wakes -/

/-- `k.Admits p tick`: process `p`, which has not exited, is new as long as the clock is below
`tick`, and of all operations it is the tick that sets the clock to it which makes `p` ready. -/
structure Admits (k : Kernel H) (p : Process H) (tick : Nat) : Prop where
  new : p.state = .new ↔ k.now < tick
  moves : p.state = .new → ∀ operation : Operation H, ¬ operation.isReset →
    (k.perform operation).now < Word.limit →
      ∀ q ∈ (k.perform operation).table.processes, q.id = p.id →
        (q.state = .ready ↔ operation = .advance ∧ (k.perform operation).now = tick)

/-- `k.Detains p tick`: process `p` is blocked, can neither be selected nor execute nor be blocked
anew, and of all operations that do not end it, it is the tick that sets the clock to `tick` which
wakes it. -/
structure Detains (k : Kernel H) (p : Process H) (tick : Nat) : Prop where
  blocked : p.state = .blocked
  unselected : k.schedule.1 ≠ some p.id ∧ ∀ now, .selected p.id now ∉ k.switches
  unexecuted : (∀ given ∈ k.execution?, given.1.id ≠ p.id) ∧ p ∈ k.execute.2.table.processes
  refused : ∀ duration, k.table.block p.id duration = (false, k.table)
  wakes : ∀ operation : Operation H, ¬ operation.isReset →
    (k.perform operation).now < Word.limit →
      ∀ q ∈ (k.perform operation).table.processes, q.id = p.id → ¬ q.isExited →
        (q.state ≠ .blocked ↔ operation = .advance ∧ (k.perform operation).now = tick) ∧
        (q.state ≠ .blocked →
          q.state = .ready ∧ ¬ q.cpu.blocked ∧ q.waitingTime = p.waitingTime + 1)

namespace Coherent

/-- A process that is created awaits its admission. -/
theorem exists_awaits (h : k.Coherent) (member : birth ∈ k.births operation) :
    ∃ p ∈ (k.perform operation).table.processes, p.id = birth.process ∧
      p.Awaits birth (k.perform operation).now := by
  have kept : ¬ operation.isReset := by
    intro reset
    cases operation <;> contradiction
  obtain ⟨f, created, evolves⟩ := h.evolves operation kept
  rw [evolves.births] at member
  obtain ⟨new, hn, rfl⟩ := List.mem_map.1 member
  have made := Option.mem_toList.1 hn
  have unticked := evolves.now (evolves.ne_advance made)
  have state : new.state = .new := by
    obtain ⟨_, _, _, _, _, _, fresh⟩ := evolves.fresh new made
    obtain ⟨program, -, rfl⟩ := Process.eq_of_create fresh
    rfl
  have early : (k.perform operation).now < Birth.admission ⟨new.id, k.now, new.arrivalTime⟩ := by
    rw [unticked]
    exact Nat.lt_of_lt_of_le (Nat.lt_succ_self k.now) (Nat.le_max_left _ _)
  have placed : new ∈ (k.perform operation).table.processes := by
    rw [evolves.processes]
    exact List.mem_append_right _ hn
  exact ⟨new, placed, rfl, rfl, Nat.le_of_eq unticked.symm, fun _ => iff_of_true state early⟩

/-- A process that is blocked sleeps. -/
theorem exists_sleeps (h : k.Coherent) (member : stay ∈ k.stays operation) :
    ∃ p ∈ (k.perform operation).table.processes, p.id = stay.process ∧
      p.Sleeps stay (k.perform operation).now := by
  have kept : ¬ operation.isReset := by
    intro reset
    cases operation <;> contradiction
  have untimed : operation ≠ .advance := by
    intro timed
    subst timed
    contradiction
  obtain ⟨p, hp, same⟩ := exists_of_mem_stays member
  obtain ⟨q, hq, same', change⟩ := h.exists_change kept hp
  have own : stay ∈ (k.stays operation).filter (·.process = p.id) :=
    List.mem_filter.2 ⟨member, decide_eq_true same.symm⟩
  have sleeps := change.sleeps_of_mem own
  rw [← h.now_perform kept untimed] at sleeps
  exact ⟨q, hq, same'.trans same, sleeps⟩

variable (h : k.Coherent) (hp : p ∈ k.table.processes)

include h hp

/-- A new process is made ready by the tick of its admission. -/
theorem admits (awaits : p.Awaits birth k.now) (alive : ¬ p.isExited) :
    k.Admits p birth.admission where
  new := awaits.new alive
  moves := by
    intro state operation kept below q hq same
    have ahead := (awaits.new alive).1 state
    obtain ⟨r, hr, same', change⟩ := h.exists_change kept hp
    have equal := (h.perform operation).distinct.eq_of_id hq hr (same.trans same'.symm)
    subst equal
    have awaits' := (lasting_awaits birth).perform h kept below change awaits
    have moves := change.moves
    rw [state] at moves
    constructor
    · intro ready
      have arrived : ¬ (k.perform operation).now < birth.admission := by
        intro early
        have new := (awaits'.new (Process.not_isExited_of_state ready nofun)).2 early
        simp [ready] at new
      rw [ready] at moves
      cases moves with
      | arrives due =>
          subst due
          have ticked : (k.perform .advance).now = k.now + 1 := now_advance below
          exact ⟨rfl, by omega⟩
    · rintro ⟨rfl, due⟩
      generalize state' : q.state = s at moves
      cases moves with
      | stays _ =>
          have early := (awaits'.new (Process.not_isExited_of_state state' nofun)).1 state'
          omega
      | arrives _ => rfl
      | ended may _ => contradiction

/-- A process that sleeps is woken by the tick that its stay ends with. -/
theorem detains (sleeps : p.Sleeps stay k.now) (alive : ¬ p.isExited)
    (early : k.now < stay.waking) : k.Detains p stay.waking := by
  obtain ⟨state, blockEnd⟩ := sleeps.blocked alive early
  have unready : ¬ p.isReady := by simp [Process.isReady, state]
  have idle : ¬ p.isRunning := by simp [Process.isRunning, state]
  apply Detains.mk state (h.not_selected hp unready idle)
    ⟨h.not_executed hp idle, h.mem_execute hp idle⟩ (h.block_refused hp idle)
  intro operation kept below q hq same alive'
  obtain ⟨r, hr, same', change⟩ := h.exists_change kept hp
  have equal := (h.perform operation).distinct.eq_of_id hq hr (same.trans same'.symm)
  subst equal
  by_cases timed : operation = .advance
  · subst timed
    have ticked : (k.perform .advance).now = k.now + 1 := now_advance below
    have since := sleeps.since
    have elapses := p.elapses k.advance.now
    rw [← change.of_advance.2, now_advance below] at elapses
    rw [ticked] at below ⊢
    rw [Word.add] at blockEnd
    unfold Stay.waking at early ⊢
    cases elapses with
    | stayed _ ahead =>
        exact ⟨iff_of_false (not_not_intro state) (by omega), fun woken => (woken state).elim⟩
    | woke _ due =>
        have woken : ProcessState.ready ≠ .blocked := by decide
        exact ⟨iff_of_true woken ⟨rfl, by omega⟩, fun _ => ⟨rfl, Bool.false_ne_true, rfl⟩⟩
    | _ => simp_all
  · have sleeps' := change.sleeps timed sleeps
    have state' := (sleeps'.blocked alive' early).1
    exact ⟨iff_of_false (not_not_intro state') fun due => timed due.1,
      fun woken => (woken state').elim⟩

end Coherent

/-- Over a run that resets nothing, with the clock below its limit, a process that has not exited is
admitted by the one tick that its creation has fixed, and one that was blocked is woken by the one
tick that this block has fixed, whatever else is done. -/
theorem admitted_and_woken_on_time (minimum : Log.Level) (before : List (Operation H))
    (operation : Operation H) (later : List (Operation H))
    (kept : ∀ next ∈ later, ¬ next.isReset) :
    let k := (empty minimum).performAll before
    let l := (k.perform operation).performAll later
    l.now < Word.limit →
      (∀ birth ∈ k.births operation, ∃ p ∈ l.table.processes, p.id = birth.process ∧
        (¬ p.isExited → l.Admits p birth.admission)) ∧
      ∀ stay ∈ k.stays operation, ∃ p ∈ l.table.processes, p.id = stay.process ∧
        (¬ p.isExited → l.now < stay.waking → l.Detains p stay.waking) := by
  intro k l below
  have hk : k.Coherent := coherent_performAll minimum before
  have hl : l.Coherent := by
    have whole := coherent_performAll minimum (before ++ operation :: later)
    rwa [performAll, List.foldl_append] at whole
  constructor
  · intro birth member
    obtain ⟨p, hp, same, awaits⟩ := hk.exists_awaits member
    obtain ⟨q, hq, same', awaits'⟩ :=
      (lasting_awaits birth).performAll (hk.perform operation) kept below hp awaits
    exact ⟨q, hq, same'.trans same, hl.admits hq awaits'⟩
  · intro stay member
    obtain ⟨p, hp, same, sleeps⟩ := hk.exists_sleeps member
    obtain ⟨q, hq, same', sleeps'⟩ :=
      (lasting_sleeps stay).performAll (hk.perform operation) kept below hp sleeps
    exact ⟨q, hq, same'.trans same, hl.detains hq sleeps'⟩

end Runs

def expecting : Kernel Services :=
  (((empty .info).performAll []).perform (.create "" "" 3 .realtime .high)).performAll
    [.advance, .advance]

/-- A process was blocked in tick 1 for three ticks, and it is tick 3. Meanwhile its processor was
replaced, and it was asked to block for longer. -/
def disturbed : Kernel Services :=
  (((empty .info).performAll [.create "" "" 0 .realtime .high, .advance, .schedule]).perform
    (.block 1 3)).performAll [.block 1 9, .advance, .replaceCpu 1 (.load .empty), .schedule,
      .execute, .block 1 9, .advance]

theorem admitted_and_woken_on_time_disturbed :
    (∃ p ∈ expecting.table.processes, p.state = .new ∧ expecting.Admits p 3) ∧
      ∃ p ∈ disturbed.table.processes, disturbed.Detains p 4 := by
  constructor
  · have new : ∀ p ∈ expecting.table.processes, p.state = .new := by decide +kernel
    have below : expecting.now < Word.limit := by decide +kernel
    have admitted := (admitted_and_woken_on_time .info [] _ _ (by decide) below).1
    obtain ⟨p, hp, -, admits⟩ := admitted ⟨1, 0, 3⟩ (by decide +kernel)
    have state := new p hp
    exact ⟨p, hp, state, admits (Process.not_isExited_of_state state nofun)⟩
  · have blocked : ∀ p ∈ disturbed.table.processes, p.state = .blocked := by decide +kernel
    have below : disturbed.now < Word.limit := by decide +kernel
    have early : disturbed.now < Stay.waking ⟨1, 1, 3⟩ := by decide +kernel
    have woken := (admitted_and_woken_on_time .info _ _ _ (by decide) below).2
    obtain ⟨p, hp, -, detains⟩ := woken ⟨1, 1, 3⟩ (by decide +kernel)
    have state := blocked p hp
    exact ⟨p, hp, detains (Process.not_isExited_of_state state nofun) early⟩

end Kernel

end Timeslice
