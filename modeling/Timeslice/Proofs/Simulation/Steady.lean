import Timeslice.Proofs.Process.Settled
import Timeslice.Proofs.Simulation.Trail

/-! # Simulations between ticks

Between ticks a simulation is steady: its processes are settled, its records are clear and the
selected process has not exited. Ticks keep it so, one phase after the other, and so does setting
the quantum or the last tick at any time.
-/

namespace Timeslice

/-- The table answers a supply as the processor of the process does. -/
theorem ProcessTable.fst_supply {table : ProcessTable Services} {id : Pid}
    {p : Process Services} (found : table.find? id = some p) (text : String) :
    (table.supply id text).1 = (p.cpu.supply text).1 := by
  simp only [supply, found]
  split
  · rename_i cpu supplied
    rw [supplied]
  · rename_i answer cpu _ supplied
    rw [supplied]

namespace Kernel

variable {k : Kernel Services}

/-- Scheduling keeps processes able. A best-effort process that waits for input is retained, so only
realtime processes go on waiting without the processor. -/
theorem Coherent.able_schedule (h : k.Coherent) (able : ∀ p ∈ k.table.processes, p.Able) :
    ∀ q ∈ k.schedule.2.table.processes, q.Able := by
  intro q hq
  rcases h.schedule_cases with ⟨r, -, -, kept⟩ | ⟨given, ⟨p, -, chooses⟩ | ⟨-, rests⟩⟩
  · rw [kept] at hq
    exact able q hq
  · rw [chooses.table] at hq
    obtain ⟨r, hr, rfl⟩ := List.mem_map.1 hq
    obtain ⟨hp, eligible⟩ := mem_candidates.1 chooses.first.mem
    unfold handOver
    split
    · rename_i hid
      rw [h.distinct.eq_of_id hr hp hid]
      exact (able p hp).dispatch eligible (k.granted p)
    · split
      · rename_i running
        have unretained := given r (h.running?_eq_some.2 ⟨hr, running⟩)
        refine (able r hr).sendBack running fun waits => ?_
        exact Decidable.byContradiction fun effort => unretained (.inr (.inl ⟨effort, waits⟩))
      · exact able r hr
  · rw [rests.table] at hq
    exact able q hq

/-- Executing leaves every process able, but for the one that is to be closed. -/
theorem Coherent.orderly_execute (h : k.Coherent) (able : ∀ p ∈ k.table.processes, p.Able) :
    ∀ q ∈ k.execute.2.table.processes, q.Orderly ∧ (q.isFinished ∨ q.Able) := by
  intro q hq
  obtain ⟨p, hp, rfl⟩ := h.becomes_execute.mem hq
  split
  · exact (able p hp).turn ‹_› k.now
  · exact ⟨(able p hp).toOrderly, .inr (able p hp)⟩

end Kernel

namespace Simulation

/-! ## Processes that a tick leaves alone -/

section Idle

variable {s : Simulation} {p : Process Services}

theorem mem_deliver (h : s.kernel.Coherent) (hp : p ∈ s.kernel.table.processes)
    (awake : ¬ p.cpu.waitingForInput) : p ∈ s.deliver.2.kernel.table.processes := by
  cases accepted : s.acceptance? with
  | none =>
      obtain ⟨log, same⟩ := deliver_of_no_acceptance h accepted
      rwa [same]
  | some given =>
      obtain ⟨hq, -, waits⟩ := waiting?_eq_some (acceptance?_eq_some accepted).1
      have other : p.id ≠ given.1.id := fun same => by
        rw [h.distinct.eq_of_id hp hq same] at awake
        exact awake waits
      have member := (becomes_deliver h accepted).mem_of_mem hp
      rwa [Process.only_of_ne _ other] at member

/-- A process on which time has no effect has to be ready or running for a tick to change it. -/
theorem mem_closed (h : s.kernel.Coherent) (hp : p ∈ s.deliver.2.kernel.table.processes)
    (same : p.elapse s.timed.now = p) (unready : ¬ p.isReady) (idle : ¬ p.isRunning) :
    p ∈ s.poised.table.processes ∧ p ∈ s.closed.table.processes := by
  have timed : p ∈ s.timed.table.processes := List.mem_map.2 ⟨p, hp, same⟩
  have poised : p ∈ s.poised.table.processes :=
    (coherent_deliver h).advance.mem_schedule timed unready idle
  have coherent := coherent_poised h
  have member := coherent.execute.becomes_close.mem_of_mem (coherent.mem_execute poised idle)
  have unclosed : p.close = p := by
    apply if_neg
    rw [Bool.eq_false_iff.2 idle]
    exact Bool.false_ne_true
  rw [unclosed] at member
  exact ⟨poised, member⟩

theorem mem_closed_of_blocked (h : s.kernel.Coherent)
    (hp : p ∈ s.deliver.2.kernel.table.processes) (blocked : p.state = .blocked)
    (early : s.closed.now < p.blockEnd) :
    p ∈ s.poised.table.processes ∧ p ∈ s.closed.table.processes := by
  have pending : ¬ p.blockEnd ≤ s.timed.now := by
    rw [(now_poised h).1]
    exact Nat.not_le.2 early
  refine mem_closed h hp ?_ ?_ ?_
  · simp [Process.elapse, Process.arrives, Process.wakes, Process.charge, blocked, pending]
  · simp [Process.isReady, blocked]
  · simp [Process.isRunning, blocked]

end Idle

/-! ## The phases of a tick -/

structure Steady (s : Simulation) : Prop where
  coherent : s.kernel.Coherent
  settled : ∀ p ∈ s.kernel.table.processes, p.Settled
  clear : s.kernel.scheduler.audit = []
  alive : s.kernel.SelectsAlive

namespace Steady

variable {s t : Simulation} {p : Process Services} {text : String}

theorem clean (h : s.Steady) : ∀ p ∈ s.kernel.table.processes, p.cpu.effects = [] :=
  fun p hp => (h.settled p hp).clean

theorem settled_deliver (h : s.Steady) : ∀ q ∈ s.deliver.2.kernel.table.processes, q.Settled := by
  intro q hq
  obtain ⟨p, hp, -, rfl | ⟨text, cpu, -, supplied, rfl⟩⟩ := exists_of_mem_deliver h.coherent hq
  · exact h.settled q hp
  · exact (h.settled p hp).intake supplied _ _

theorem settled_timed (h : s.Steady) : ∀ q ∈ s.timed.table.processes, q.Settled := by
  intro q hq
  obtain ⟨p, hp, rfl⟩ := s.deliver.2.kernel.table.becomes_advance.mem hq
  exact (h.settled_deliver p hp).elapse _

theorem able_poised (h : s.Steady) : ∀ q ∈ s.poised.table.processes, q.Able :=
  (coherent_deliver h.coherent).advance.able_schedule fun p hp => (h.settled_timed p hp).toAble

theorem settled_closed (h : s.Steady) : ∀ q ∈ s.closed.table.processes, q.Settled := by
  intro q hq
  have poised := coherent_poised h.coherent
  obtain ⟨p, hp, rfl⟩ := poised.execute.becomes_close.mem hq
  obtain ⟨orderly, rest⟩ := poised.orderly_execute h.able_poised p hp
  exact Process.settled_close orderly rest

theorem step (h : s.Steady) : s.step.2.Steady where
  coherent := coherent_step h.coherent
  settled := by
    rw [(ticks_step h.coherent).processes]
    exact h.settled_closed
  clear := (ticks_step h.coherent).audit
  alive := selectsAlive_step h.coherent

theorem setQuantum (h : s.Steady) (quantum : Int) : (s.setQuantum quantum).Steady :=
  ⟨⟨h.coherent.distinct, h.coherent.selected⟩, h.settled, h.clear, h.alive⟩

theorem setMaxTicks (h : s.Steady) (maxTicks : Nat) : (s.setMaxTicks maxTicks).Steady :=
  ⟨h.coherent, h.settled, h.clear, h.alive⟩

end Steady

variable {s t u : Simulation} {scenario : Scenario}

theorem Begins.steady (h : s.Begins scenario) : s.Steady where
  coherent := h.coherent
  settled p hp := by
    obtain ⟨entry, -, source, program, -, -, rfl⟩ := h.starts hp
    exact ⟨⟨⟨rfl, rfl, rfl, fun waits => (Bool.false_ne_true waits).elim⟩, rfl⟩,
      Bool.false_ne_true⟩
  clear := h.audit_after 0
  alive := h.selectsAlive_after 0

/-! ## What can be reached -/

/-- `s.Reaches t`: ticks lead from `s` to `t`, with the quantum and the last tick set in between. -/
inductive Reaches (s : Simulation) : Simulation → Prop where
  | refl : Reaches s s
  | step {t : Simulation} (before : Reaches s t) : Reaches s t.step.2
  | setQuantum {t : Simulation} (before : Reaches s t) (quantum : Int) :
      Reaches s (t.setQuantum quantum)
  | setMaxTicks {t : Simulation} (before : Reaches s t) (maxTicks : Nat) :
      Reaches s (t.setMaxTicks maxTicks)

namespace Reaches

theorem steady (h : s.Reaches t) (steady : s.Steady) : t.Steady := by
  induction h with
  | refl => exact steady
  | step _ ih => exact ih.step
  | setQuantum _ quantum ih => exact ih.setQuantum quantum
  | setMaxTicks _ maxTicks ih => exact ih.setMaxTicks maxTicks

theorem after (h : s.Reaches t) (ticks : Nat) : s.Reaches (t.after ticks) := by
  induction ticks with
  | zero => exact h
  | succ ticks ih => exact .step ih

theorem foldTicks {σ : Type} (onTick : σ → TickRecord → σ) (limit : Nat) (acc : σ)
    (h : s.Reaches t) : s.Reaches (foldTicks onTick limit acc t).2 := by
  induction limit generalizing acc t with
  | zero => exact h
  | succ limit ih =>
      unfold Simulation.foldTicks
      split
      · exact h
      · exact ih _ h.step

/-- A run leads to nothing that ticks do not lead to. -/
theorem runWith {σ : Type} (onTick : σ → TickRecord → σ) (acc : σ) (h : s.Reaches t) :
    s.Reaches (t.runWith onTick acc).2.2 := h.foldTicks onTick _ acc

end Reaches

theorem Steady.after (h : s.Steady) (ticks : Nat) : (s.after ticks).Steady :=
  (Reaches.refl.after ticks).steady h

/-! ## The processes between ticks -/

/-- Between ticks no process has effects left, and the flags of its processor go with its state:
blocked while it is in a block, stopped from its exit on, and waiting for input only while it has
the processor or, if it is realtime, while it is ready. No process is left on the processor past its
last instruction unless it waits for input. So input is only given to a process that waits. -/
theorem settled_between_ticks (created : create scenario = .ok s) (reached : s.Reaches t) :
    (∀ p ∈ t.kernel.table.processes,
      p.cpu.effects = [] ∧ (p.cpu.blocked ↔ p.state = .blocked) ∧
        (p.state ≠ .exit → p.cpu.running) ∧
        (p.state = .exit → ¬ p.cpu.running ∧ ¬ p.cpu.waitingForInput) ∧
        (p.cpu.waitingForInput →
          p.state = .running ∨ p.schedulingClass = .realtime ∧ p.state = .ready) ∧
        (p.state = .running → p.cpu.isHalted → p.cpu.waitingForInput)) ∧
      ∀ p text, t.waiting? = some p → (t.kernel.table.supply p.id text).1 ≠ .ok false := by
  have steady := reached.steady (begins_of_create created).steady
  constructor
  · intro p hp
    have settled := steady.settled p hp
    refine ⟨settled.clean, ?_, fun alive => ?_, fun exit => ?_, fun waits => ?_,
      fun running halted => ?_⟩
    · rw [settled.blocked, decide_eq_true_iff]
    · have unexited : p.isExited = false := decide_eq_false alive
      rw [settled.runs, unexited]
      rfl
    · have exited : p.isExited = true := decide_eq_true exit
      refine ⟨?_, settled.not_waiting_of_isExited exited⟩
      rw [settled.runs, exited]
      exact Bool.false_ne_true
    · rcases settled.waits waits with running | ⟨realtime, ready⟩
      · exact .inl (of_decide_eq_true running)
      · exact .inr ⟨Process.schedulingClass_of_isRealtime realtime, of_decide_eq_true ready⟩
    · refine Decidable.byContradiction fun awake => settled.unfinished ?_
      exact Process.isFinished_iff.2 ⟨decide_eq_true running, halted, awake⟩
  · intro p text waiting answer
    obtain ⟨hp, -, waits⟩ := waiting?_eq_some waiting
    rw [ProcessTable.fst_supply (steady.coherent.distinct.find?_of_mem hp)] at answer
    cases parsed : Text.int32? (Text.trim text.toList) with
    | none =>
        rw [Cpu.supply_of_no_number waits parsed] at answer
        contradiction
    | some number =>
        rw [Cpu.supply_eq_ok_true.2 ⟨waits, number, parsed, rfl⟩] at answer
        exact Bool.false_ne_true (Except.ok.inj answer).symm

def contended : Scenario where
  quantum := 1
  maxTicks := 100
  logLevel := .info
  blockTicks := .standard
  inputs := ["x", "7"]
  processes := [
    ⟨"reader", 0, .realtime, .low, some ".code\nSYSCALL 2\nSYSCALL 1\nSYSCALL 0", none⟩,
    ⟨"rival", 2, .realtime, .high, some ".code\nSYSCALL 0", none⟩]

theorem settled_between_ticks_contended :
    ∃ s p, create contended = .ok s ∧ s.Reaches s.step.2.step.2 ∧
      s.step.2.step.2.waiting? = some p ∧ p.state = .ready ∧ p.schedulingClass = .realtime ∧
      p.cpu.effects = [] ∧ ¬ p.cpu.blocked ∧ p.cpu.running ∧
      (s.step.2.step.2.kernel.table.supply p.id "7").1 ≠ .ok false := by
  obtain ⟨s, hs⟩ : ∃ s, create contended = .ok s := exists_ok (by decide +kernel)
  have waits : ∀ s ∈ (create contended).toOption,
      (s.step.2.step.2.waiting?).map (·.state) = some .ready := by decide +kernel
  rw [hs] at waits
  obtain ⟨p, waiting, state⟩ := Option.map_eq_some_iff.1 (waits s rfl)
  have reached : s.Reaches s.step.2.step.2 := .step (.step .refl)
  obtain ⟨settled, supplied⟩ := settled_between_ticks hs reached
  obtain ⟨clean, blocked, runs, -, classed, -⟩ := settled p (waiting?_eq_some waiting).1
  have ready := classed (waiting?_eq_some waiting).2.2
  simp only [state, reduceCtorEq, false_or, and_true] at ready
  refine ⟨s, p, hs, reached, waiting, state, ready, clean, ?_, runs ?_, supplied p "7" waiting⟩
  · rw [blocked, state]
    decide
  · rw [state]
    decide

end Simulation

end Timeslice
