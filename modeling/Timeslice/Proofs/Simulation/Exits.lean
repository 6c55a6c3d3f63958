import Timeslice.Proofs.Kernel.Round
import Timeslice.Proofs.Simulation.Faults
import Timeslice.Proofs.Simulation.Output

/-! # Exits on record

The exit of a process is recorded once, in the tick in which it happens and as the last event of
that tick. Before it no exit and no error of the process is recorded, and after it nothing that is
about the process at all.
-/

namespace Timeslice

def Log.errorsOf (id : Pid) (entries : List Log.Entry) : List Log.Entry :=
  entries.filter fun entry => entry.source = some id && entry.isError

namespace Simulation

variable {s : Simulation} {p q r : Process Services} {id : Pid}

/-! ## One tick -/

def hasExited (s : Simulation) (id : Pid) : Bool := (s.kernel.table.find? id).any (·.isExited)

/-- What the processor of process `id` answers in the next tick, if the process has its turn. -/
def answer? (s : Simulation) (id : Pid) : Option (Except Fault Bool) :=
  (s.poised.table.running?.filter (·.id = id)).map (·.cpu.step.1)

def Passes (s : Simulation) (id : Pid) : Prop :=
  ∀ r, s.poised.table.running? = some r → r.id ≠ id

def AsksToExit (s : Simulation) (id : Pid) : Prop :=
  ∃ given ∈ s.execution?, given.1.id = id ∧ given.2.isExit

structure Spares (s : Simulation) (id : Pid) : Prop where
  exits : Event.exits id s.step.1.events = []
  errors : Log.errorsOf id s.step.1.logs = []
  stays : ¬ s.AsksToExit id

structure Ignores (s : Simulation) (id : Pid) : Prop extends s.Spares id where
  passes : s.Passes id
  events : ∀ event ∈ s.step.1.events, event.process ≠ id
  output : ∀ line ∈ s.step.1.output, line.process ≠ id

/-- `s.Ends q cause`: the next tick ends a process for a cause, and makes `q` of it. -/
structure Ends (s : Simulation) (q : Process Services) (cause : ExitCause) : Prop where
  events : ∃ before, s.step.1.events = before ++ [.exited q.id cause s.step.1.tick] ∧
    Event.exits q.id before = []
  errors : (Log.errorsOf q.id s.step.1.logs).length = if cause = .failed then 1 else 0
  answer : ∃ answer, s.answer? q.id = some answer ∧
    (cause = .failed ↔ ∃ fault, answer = .error fault)
  normal : cause = .normal ↔ s.AsksToExit q.id ∨ q.cpu.isHalted

/-- `s.Fate p q`: the next tick makes `q` of process `p`. -/
inductive Fate (s : Simulation) (p : Process Services) : Process Services → Prop where
  | ignored (exited : p.isExited) (ignores : s.Ignores p.id) : Fate s p p
  | spared {q : Process Services} (alive : ¬ p.isExited) (alive' : ¬ q.isExited)
      (spares : s.Spares q.id) : Fate s p q
  | ended {q : Process Services} {cause : ExitCause} (alive : ¬ p.isExited) (exited : q.isExited)
      (ends : s.Ends q cause) : Fate s p q

theorem Passes.answer? (h : s.Passes id) : s.answer? id = none := by
  unfold Simulation.answer?
  cases hr : s.poised.table.running? with
  | none => rfl
  | some r => simp [Option.filter, h r hr]

theorem Passes.execution? (h : s.Passes id) : ∀ given ∈ s.execution?, given.1.id ≠ id :=
  fun given executes => h given.1 (Kernel.execution?_eq_some executes).1

namespace Steady

theorem events_eq (h : s.Steady) : s.step.1.events = s.timed.switches ++ s.poised.rounds := by
  rw [events_step h.coherent h.clear, List.append_assoc,
    (coherent_poised h.coherent).turned_append_closings]

/-- What a switch records are no exits, and it is about live processes. -/
theorem alive_of_switches (h : s.Steady) {event : Event} (member : event ∈ s.timed.switches) :
    (∃ p ∈ s.kernel.table.processes, ¬ p.isExited ∧ event.process = p.id) ∧
      ∀ id cause now, event ≠ .exited id cause now := by
  obtain ⟨⟨q, hq, alive, process⟩, other⟩ :=
    (coherent_deliver h.coherent).advance.alive_of_switches
      (selectsAlive_timed h.coherent h.clean h.alive) member
  obtain ⟨p, hp, origin, -, unchanged⟩ := exists_of_mem_timed h.coherent h.clean hq
  exact ⟨⟨p, hp, unchanged ▸ alive, process.trans (Process.id_eq_of_origin origin)⟩, other⟩

theorem exits_switches (h : s.Steady) (id : Pid) : Event.exits id s.timed.switches = [] :=
  Event.exits_eq_nil fun _ member => (h.alive_of_switches member).2 id

theorem errorsOf_step (h : s.Steady) (faultless : s.Faultless) (id : Pid) :
    Log.errorsOf id s.step.1.logs = s.poised.faults.filter (·.source = some id) := by
  rw [← errors_step h.coherent faultless, List.filter_filter, Log.errorsOf]

theorem spares_of_passes (h : s.Steady) (faultless : s.Faultless) (passes : s.Passes id) :
    s.Spares id where
  exits := by
    rw [h.events_eq, Event.exits_append, h.exits_switches, List.nil_append]
    refine Event.exits_eq_nil fun event member cause now same => ?_
    obtain ⟨r, hr, process⟩ := Kernel.process_of_rounds member
    exact passes r hr (by rw [← process, same]; rfl)
  errors := by
    rw [h.errorsOf_step faultless]
    refine List.filter_eq_nil_iff.2 fun entry member => ?_
    obtain ⟨r, hr, source⟩ := Kernel.source_of_faults member
    simp [source, passes r hr]
  stays := by
    rintro ⟨given, executes, same, -⟩
    exact passes.execution? given executes same

theorem passes_of_isExited (h : s.Steady) (hp : p ∈ s.kernel.table.processes)
    (exited : p.isExited) : s.Passes p.id ∧ p ∈ s.step.2.kernel.table.processes := by
  have state : p.state = .exit := of_decide_eq_true exited
  have awake := (h.settled p hp).not_waiting_of_isExited exited
  have same : p.elapse s.timed.now = p := by
    simp [Process.elapse, Process.arrives, Process.wakes, Process.charge, state]
  obtain ⟨poised, closed⟩ := mem_closed h.coherent (mem_deliver h.coherent hp awake) same
    (by simp [Process.isReady, state]) (by simp [Process.isRunning, state])
  rw [(ticks_step h.coherent).processes]
  refine ⟨fun r hr same => ?_, closed⟩
  obtain ⟨hr', running⟩ := (coherent_poised h.coherent).running?_eq_some.1 hr
  rw [(coherent_poised h.coherent).distinct.eq_of_id hr' poised same] at running
  exact Process.not_isExited_of_isRunning running exited

theorem ignores_of_isExited (h : s.Steady) (faultless : s.Faultless)
    (hp : p ∈ s.kernel.table.processes) (exited : p.isExited) : s.Ignores p.id := by
  have passes := (h.passes_of_isExited hp exited).1
  have gone {q : Process Services} (hq : q ∈ s.kernel.table.processes) (alive : ¬ q.isExited) :
      q.id ≠ p.id := fun same => by
    rw [h.coherent.distinct.eq_of_id hq hp same] at alive
    exact alive exited
  refine ⟨h.spares_of_passes faultless passes, passes, fun event member about => ?_,
    fun line member about => ?_⟩
  · rw [h.events_eq, List.mem_append] at member
    rcases member with switched | round
    · obtain ⟨⟨q, hq, alive, process⟩, -⟩ := h.alive_of_switches switched
      exact gone hq alive (process.symm.trans about)
    · obtain ⟨r, hr, process⟩ := Kernel.process_of_rounds round
      exact passes r hr (process.symm.trans about)
  · rw [h.output_step] at member
    obtain ⟨given, caused, rfl⟩ := List.mem_map.1 member
    rcases List.mem_append.1 caused with heard | said
    · obtain ⟨q, waiting, process⟩ := exists_of_mem_heard heard
      obtain ⟨hq, alive, -⟩ := waiting?_eq_some waiting
      exact gone hq alive (process.symm.trans about)
    · obtain ⟨r, hr, process⟩ := exists_of_mem_said said
      exact passes r hr (process.symm.trans about)

theorem answer?_of_running (hr : s.poised.table.running? = some r) :
    s.answer? r.id = some r.cpu.step.1 := by
  simp [answer?, hr, Option.filter]

theorem errorsOf_of_running (h : s.Steady) (faultless : s.Faultless)
    (hr : s.poised.table.running? = some r) :
    Log.errorsOf r.id s.step.1.logs = r.faults s.poised.now := by
  rw [h.errorsOf_step faultless, List.filter_eq_self.2 fun entry member => ?_]
  · simp only [Kernel.faults, hr]
  · obtain ⟨q, hq, source⟩ := Kernel.source_of_faults member
    rw [source, Option.some.inj (hq.symm.trans hr)]
    exact decide_eq_true rfl

theorem asksToExit_iff_of_running (hr : s.poised.table.running? = some r) :
    s.AsksToExit r.id ↔ ∃ instruction ∈ r.executed?, instruction.isExit := by
  simp [AsksToExit, execution?, Kernel.execution?_eq, hr]

theorem terminated_not_mem (h : s.Steady) (id : Pid) (tick : Nat) :
    .exited id .terminated tick ∉ s.step.1.events := by
  rw [h.events_eq, List.mem_append]
  rintro (switched | round)
  · exact (h.alive_of_switches switched).2 id .terminated tick rfl
  · unfold Kernel.rounds at round
    split at round
    · rename_i r hr
      obtain ⟨hp, running⟩ := (coherent_poised h.coherent).running?_eq_some.1 hr
      have rounds := (h.able_poised r hp).rounds running s.poised.now
      generalize r.roundEvents s.poised.now = recorded at rounds round
      cases rounds <;> simp at round
    · contradiction

/-- The process that has its round in the next tick goes on, or the tick ends it. -/
theorem round (h : s.Steady) (faultless : s.Faultless) (hr : s.poised.table.running? = some r)
    (hq : q = (r.turn s.poised.now).close) :
    ¬ q.isExited ∧ s.Spares q.id ∨ q.isExited ∧ ∃ cause, s.Ends q cause := by
  have poised := coherent_poised h.coherent
  obtain ⟨hp, running⟩ := poised.running?_eq_some.1 hr
  have same : q.id = r.id := Process.id_eq_of_origin (hq ▸ by simp)
  have rounds := (h.able_poised r hp).rounds running s.poised.now
  have events : s.step.1.events = s.timed.switches ++ r.roundEvents s.poised.now := by
    rw [h.events_eq]
    simp only [Kernel.rounds, hr]
  have errors : (Log.errorsOf q.id s.step.1.logs).length =
      if r.cpu.step.1.isOk then 0 else 1 := by
    rw [same, h.errorsOf_of_running faultless hr, r.length_faults]
  have answered : s.answer? q.id = some r.cpu.step.1 := by rw [same, answer?_of_running hr]
  have tick : s.step.1.tick = s.poised.now :=
    (tick_step s).trans (now_poised h.coherent).2.1.symm
  have switched := h.exits_switches q.id
  rw [← hq] at rounds
  generalize r.roundEvents s.poised.now = recorded at rounds events
  cases rounds with
  | wentOn texts alive answer stays =>
      refine .inl ⟨alive, ?_, ?_, ?_⟩
      · rw [events, Event.exits_append, switched, Event.exits_outputs, List.append_nil]
      · rw [answer] at errors
        exact List.eq_nil_of_length_eq_zero errors
      · rw [same, asksToExit_iff_of_running hr]
        rintro ⟨instruction, played, exit⟩
        exact stays instruction played exit
  | failed exited answer idle ahead =>
      rw [answer] at errors answered
      refine .inr ⟨exited, .failed, ⟨s.timed.switches, ?_, switched⟩, errors, ⟨_, answered, ?_⟩,
        ?_⟩
      · rw [events, tick, same]
      · simp
      · rw [same, asksToExit_iff_of_running hr, idle]
        simp [ahead]
  | finished texts exited answer done =>
      rw [answer] at errors answered
      refine .inr ⟨exited, .normal, ⟨s.timed.switches ++
        texts.map fun text => .output r.id text s.poised.now, ?_, ?_⟩, errors, ⟨_, answered, ?_⟩,
        ?_⟩
      · rw [events, tick, same, List.append_assoc]
      · rw [Event.exits_append, switched, Event.exits_outputs, List.append_nil]
      · simp
      · rw [same, asksToExit_iff_of_running hr]
        exact iff_of_true rfl done

theorem exists_of_mem_poised (h : s.Steady) (hr : r ∈ s.poised.table.processes) :
    ∃ p ∈ s.kernel.table.processes, p.id = r.id ∧ p.isExited = r.isExited := by
  obtain ⟨f, becomes, -, alike, -⟩ := (coherent_deliver h.coherent).advance.becomes_schedule
  obtain ⟨x, hx, rfl⟩ := becomes.mem hr
  obtain ⟨p, hp, origin, -, unchanged⟩ := exists_of_mem_timed h.coherent h.clean hx
  refine ⟨p, hp, Process.id_eq_of_origin (origin.symm.trans (becomes.origin x).symm), ?_⟩
  rw [alike x hx, unchanged]

/-- Each process that is there after a tick was there before it and met its fate in it. -/
theorem fate (h : s.Steady) (faultless : s.Faultless)
    (hq : q ∈ s.step.2.kernel.table.processes) :
    ∃ p ∈ s.kernel.table.processes, p.id = q.id ∧ s.Fate p q := by
  have poised := coherent_poised h.coherent
  have closed := hq
  rw [(ticks_step h.coherent).processes] at closed
  obtain ⟨x, hx, rfl⟩ := poised.execute.becomes_close.mem closed
  obtain ⟨r, hr, rfl⟩ := poised.becomes_execute.mem hx
  obtain ⟨p, hp, same, unchanged⟩ := h.exists_of_mem_poised hr
  -- Only the process that has the processor can end, and only its round ends it.
  by_cases running : r.isRunning
  · rw [if_pos running]
    have alive : ¬ p.isExited := unchanged ▸ Process.not_isExited_of_isRunning running
    refine ⟨p, hp, same.trans (Process.id_eq_of_origin (by simp)), ?_⟩
    rcases h.round faultless (poised.running?_eq_some.2 ⟨hr, running⟩) rfl with
      ⟨alive', spares⟩ | ⟨exited, cause, ends⟩
    · exact .spared alive alive' spares
    · exact .ended alive exited ends
  · rw [if_neg running] at hq ⊢
    have unfinished : ¬ r.isFinished := fun finished =>
      running (Process.isFinished_iff.1 finished).1
    rw [Process.close_of_unfinished unfinished] at hq ⊢
    refine ⟨p, hp, same, ?_⟩
    by_cases exited : p.isExited
    · have kept := (h.passes_of_isExited hp exited).2
      rw [(coherent_step h.coherent).distinct.eq_of_id hq kept same.symm]
      exact .ignored exited (h.ignores_of_isExited faultless hp exited)
    · have passes : s.Passes r.id := fun r' hr' about => by
        obtain ⟨member, going⟩ := poised.running?_eq_some.1 hr'
        exact running (poised.distinct.eq_of_id member hr about ▸ going)
      exact .spared exited (unchanged ▸ exited) (h.spares_of_passes faultless passes)

end Steady

/-! ## Runs -/

variable {scenario : Scenario}

theorem Begins.isExited_iff_hasExited (hs : s.Begins scenario) {ticks : Nat}
    (hp : p ∈ (s.after ticks).kernel.table.processes) :
    p.isExited ↔ (s.after ticks).hasExited p.id := by
  rw [hasExited, (coherent_after hs.coherent ticks).distinct.find?_of_mem hp, Option.any_some]

def Lives (s : Simulation) (p : Process Services) (ticks : Nat) : Prop :=
  ¬ p.isExited ∧ ∀ m < ticks, (s.after m).Spares p.id

/-- `s.Died p cause k ticks`: of a number of ticks, the one after `k` has ended process `p` for a
cause. -/
structure Died (s : Simulation) (p : Process Services) (cause : ExitCause) (k ticks : Nat) :
    Prop where
  exited : p.isExited
  within : k < ticks
  before : ¬ (s.after k).hasExited p.id
  after : (s.after (k + 1)).hasExited p.id
  spares : ∀ m < k, (s.after m).Spares p.id
  ends : (s.after k).Ends p cause
  ignores : ∀ m, k < m → m < ticks → (s.after m).Ignores p.id

theorem lives_or_died (created : create scenario = .ok s) (ticks : Nat)
    (hp : p ∈ (s.after ticks).kernel.table.processes) :
    s.Lives p ticks ∨ ∃ cause k, s.Died p cause k ticks := by
  have hs := begins_of_create created
  -- On ticks: what the process was before the last tick decides which fates that tick can bring.
  induction ticks generalizing p with
  | zero =>
      refine .inl ⟨?_, nofun⟩
      rw [Process.isExited, hs.state hp]
      decide
  | succ ticks ih =>
      have faultless : (s.after ticks).Faultless := by
        cases ticks with
        | zero => exact faultless_of_create created
        | succ ticks => exact faultless_step _
      obtain ⟨q, hq, same, fate⟩ := (hs.steady.after ticks).fate faultless hp
      have history := ih hq
      cases fate with
      | ignored exited ignores =>
          obtain ⟨alive, -⟩ | ⟨cause, k, died⟩ := history
          · exact (alive exited).elim
          · refine .inr ⟨cause, k, { died with
              within := Nat.lt_trans died.within (Nat.lt_succ_self ticks)
              ignores := fun m later within => ?_ }⟩
            rcases Nat.lt_succ_iff_lt_or_eq.1 within with earlier | rfl
            · exact died.ignores m later earlier
            · exact ignores
      | spared alive alive' spares =>
          obtain ⟨-, spared⟩ | ⟨cause, k, died⟩ := history
          · refine .inl ⟨alive', fun m within => ?_⟩
            rcases Nat.lt_succ_iff_lt_or_eq.1 within with earlier | rfl
            · exact same ▸ spared m earlier
            · exact spares
          · exact (alive died.exited).elim
      | @ended _ cause alive exited ends =>
          obtain ⟨-, spared⟩ | ⟨cause, k, died⟩ := history
          · refine .inr ⟨cause, ticks, exited, Nat.lt_succ_self ticks, ?_, ?_,
              same ▸ spared, ends, fun m later within => absurd within (by omega)⟩
            · rwa [← same, ← hs.isExited_iff_hasExited hq]
            · rwa [← hs.isExited_iff_hasExited hp]
          · exact (alive died.exited).elim

/-! ## What runs report -/

def answers (s : Simulation) (id : Pid) (ticks : Nat) : List (Except Fault Bool) :=
  (List.range ticks).filterMap fun m => (s.after m).answer? id

def logs (s : Simulation) (ticks : Nat) : List Log.Entry := (s.records ticks).flatMap (·.logs)

theorem range_eq_append_cons {k ticks : Nat} (within : k < ticks) :
    List.range ticks = List.range k ++ k :: List.range' (k + 1) (ticks - (k + 1)) := by
  have tail : k :: List.range' (k + 1) (ticks - (k + 1)) = List.range' (0 + k) (ticks - k) := by
    rw [Nat.zero_add, ← List.range'_succ, Nat.sub_add_eq, Nat.sub_add_cancel (by omega)]
  rw [tail, List.range_eq_range', List.range_eq_range', List.range'_append_1,
    Nat.add_sub_cancel' (by omega)]

theorem flatMap_range_eq {α : Type} {f : Nat → List α} {k ticks : Nat} (within : k < ticks)
    (others : ∀ m < ticks, m ≠ k → f m = []) : (List.range ticks).flatMap f = f k := by
  have before : (List.range k).flatMap f = [] := by
    refine List.flatMap_eq_nil_iff.2 fun m member => ?_
    rw [List.mem_range] at member
    exact others m (by omega) (by omega)
  have after : (List.range' (k + 1) (ticks - (k + 1))).flatMap f = [] := by
    refine List.flatMap_eq_nil_iff.2 fun m member => ?_
    rw [List.mem_range'_1] at member
    exact others m (by omega) (by omega)
  rw [range_eq_append_cons within, List.flatMap_append, List.flatMap_cons, before, after,
    List.nil_append, List.append_nil]

theorem events_eq_flatMap (s : Simulation) (ticks : Nat) :
    s.events ticks = (List.range ticks).flatMap fun m => (s.after m).step.1.events := by
  rw [events, records_eq, List.flatMap_map]

theorem exits_events (s : Simulation) (id : Pid) (ticks : Nat) :
    Event.exits id (s.events ticks) =
      (List.range ticks).flatMap fun m => Event.exits id (s.after m).step.1.events := by
  rw [events_eq_flatMap, Event.exits, List.filterMap_flatMap]
  rfl

theorem errorsOf_logs (s : Simulation) (id : Pid) (ticks : Nat) :
    Log.errorsOf id (s.logs ticks) =
      (List.range ticks).flatMap fun m => Log.errorsOf id (s.after m).step.1.logs := by
  rw [logs, records_eq, List.flatMap_map, Log.errorsOf, List.filter_flatMap]
  rfl

theorem Lives.exits (h : s.Lives p ticks) : Event.exits p.id (s.events ticks) = [] := by
  rw [exits_events, List.flatMap_eq_nil_iff]
  exact fun m member => (h.2 m (List.mem_range.1 member)).exits

theorem Lives.errors (h : s.Lives p ticks) : Log.errorsOf p.id (s.logs ticks) = [] := by
  rw [errorsOf_logs, List.flatMap_eq_nil_iff]
  exact fun m member => (h.2 m (List.mem_range.1 member)).errors

namespace Died

variable {cause : ExitCause} {k ticks : Nat}

theorem spares_of_ne (h : s.Died p cause k ticks) {m : Nat} (within : m < ticks) (other : m ≠ k) :
    (s.after m).Spares p.id := by
  rcases Nat.lt_or_gt_of_ne other with earlier | later
  · exact h.spares m earlier
  · exact (h.ignores m later within).toSpares

theorem exits (h : s.Died p cause k ticks) : Event.exits p.id (s.events ticks) = [cause] := by
  obtain ⟨before, events, unended⟩ := h.ends.events
  rw [exits_events, flatMap_range_eq h.within fun m within other =>
    (h.spares_of_ne within other).exits, events, Event.exits_append, unended,
    Event.exits_singleton, List.nil_append]

theorem errors (h : s.Died p cause k ticks) :
    (Log.errorsOf p.id (s.logs ticks)).length = if cause = .failed then 1 else 0 := by
  rw [errorsOf_logs, flatMap_range_eq h.within fun m within other =>
    (h.spares_of_ne within other).errors, h.ends.errors]

theorem asksToExit_iff (h : s.Died p cause k ticks) :
    (∃ m < ticks, (s.after m).AsksToExit p.id) ↔ (s.after k).AsksToExit p.id := by
  constructor
  · rintro ⟨m, within, asks⟩
    by_cases same : m = k
    · exact same ▸ asks
    · exact ((h.spares_of_ne within same).stays asks).elim
  · exact fun asks => ⟨k, h.within, asks⟩

theorem getLast?_answers (h : s.Died p cause k ticks) :
    (s.answers p.id ticks).getLast? = (s.after k).answer? p.id := by
  obtain ⟨answer, answered, -⟩ := h.ends.answer
  -- A process that has exited never has the processor again, so it answers nothing more.
  have rest : (List.range' (k + 1) (ticks - (k + 1))).filterMap
      (fun m => (s.after m).answer? p.id) = [] := by
    refine List.filterMap_eq_nil_iff.2 fun m member => ?_
    rw [List.mem_range'_1] at member
    exact (h.ignores m (by omega) (by omega)).passes.answer?
  have split : s.answers p.id ticks =
      ((List.range k).filterMap fun m => (s.after m).answer? p.id) ++ [answer] := by
    rw [answers, range_eq_append_cons h.within, List.filterMap_append, List.filterMap_cons]
    simp only [answered, rest]
  rw [split, List.getLast?_concat, answered]

/-- The exit is recorded in its tick, and no event that is about the process comes after it. -/
theorem events (h : s.Died p cause k ticks) : ∃ before after,
    s.events ticks = before ++ .exited p.id cause (s.after k).step.1.tick :: after ∧
      ∀ event ∈ after, event.process ≠ p.id := by
  obtain ⟨before, events, -⟩ := h.ends.events
  refine ⟨((List.range k).flatMap fun m => (s.after m).step.1.events) ++ before,
    (List.range' (k + 1) (ticks - (k + 1))).flatMap fun m => (s.after m).step.1.events, ?_,
    fun event member => ?_⟩
  · rw [events_eq_flatMap, range_eq_append_cons h.within, List.flatMap_append, List.flatMap_cons,
      events]
    simp only [List.append_assoc, List.singleton_append]
  · obtain ⟨m, later, recorded⟩ := List.mem_flatMap.1 member
    rw [List.mem_range'_1] at later
    exact (h.ignores m (by omega) (by omega)).events event recorded

end Died

/-- The exit of a process is reported once, in the tick in which it happens, and never as one from
outside. No event and no line of the process comes after it. It is reported as a failure if the last
answer of the processor was a fault, and then one error of the process is logged and otherwise none;
and as normal if the process asked for it or is past its last instruction. Of a process that has not
exited neither an exit nor an error is reported. -/
theorem exits_reported_once (created : create scenario = .ok s) (ticks : Nat) :
    (∀ id tick, .exited id .terminated tick ∉ s.events ticks) ∧
    ∀ p ∈ (s.after ticks).kernel.table.processes,
      (¬ p.isExited →
        Event.exits p.id (s.events ticks) = [] ∧ Log.errorsOf p.id (s.logs ticks) = []) ∧
      (p.isExited → ∃ cause k, k < ticks ∧
        Event.exits p.id (s.events ticks) = [cause] ∧
        ¬ (s.after k).hasExited p.id ∧ (s.after (k + 1)).hasExited p.id ∧
        .exited p.id cause (s.after k).step.1.tick ∈ (s.after k).step.1.events ∧
        (∃ before after,
          s.events ticks = before ++ .exited p.id cause (s.after k).step.1.tick :: after ∧
            ∀ event ∈ after, event.process ≠ p.id) ∧
        (∀ m, k < m → m < ticks → ∀ line ∈ (s.after m).step.1.output, line.process ≠ p.id) ∧
        (cause = .failed ↔ ∃ fault, (s.answers p.id ticks).getLast? = some (.error fault)) ∧
        (cause = .normal ↔ (∃ m < ticks, (s.after m).AsksToExit p.id) ∨ p.cpu.isHalted) ∧
        (Log.errorsOf p.id (s.logs ticks)).length = if cause = .failed then 1 else 0) := by
  have hs := begins_of_create created
  refine ⟨fun id tick member => ?_, fun p hp => ?_⟩
  · rw [events_eq_flatMap] at member
    obtain ⟨m, -, recorded⟩ := List.mem_flatMap.1 member
    exact (hs.steady.after m).terminated_not_mem id tick recorded
  rcases lives_or_died created ticks hp with lives | ⟨cause, k, died⟩
  · exact ⟨fun _ => ⟨lives.exits, lives.errors⟩, fun exited => (lives.1 exited).elim⟩
  · refine ⟨fun alive => (alive died.exited).elim, fun _ => ⟨cause, k, died.within, died.exits,
      died.before, died.after, ?_, died.events, fun m later within =>
      (died.ignores m later within).output, ?_, ?_, died.errors⟩⟩
    · obtain ⟨before, events, -⟩ := died.ends.events
      rw [events]
      exact List.mem_append_right _ List.mem_cons_self
    · obtain ⟨answer, answered, failed⟩ := died.ends.answer
      rw [died.getLast?_answers, answered, failed]
      simp only [Option.some.injEq]
    · rw [died.asksToExit_iff]
      exact died.ends.normal

def endings : Scenario where
  quantum := 2
  maxTicks := 100
  logLevel := .error
  blockTicks := .standard
  inputs := []
  processes := [
    ⟨"faulty", 0, .bestEffort, .low, some ".code\nLOAD missing\nSYSCALL 0", none⟩,
    ⟨"short", 0, .bestEffort, .low, some ".code\nADD #1", none⟩]

theorem exits_reported_once_endings :
    ∃ s p q, create endings = .ok s ∧ (s.after 3).kernel.table.processes = [p, q] ∧
      Event.exits p.id (s.events 3) = [.failed] ∧
      (Log.errorsOf p.id (s.logs 3)).length = 1 ∧
      (∃ fault, (s.answers p.id 3).getLast? = some (.error fault)) ∧
      Event.exits q.id (s.events 3) = [.normal] ∧ Log.errorsOf q.id (s.logs 3) = [] := by
  obtain ⟨s, hs⟩ : ∃ s, create endings = .ok s := exists_ok (by decide +kernel)
  have recorded : ∀ s ∈ (create endings).toOption,
      Event.exits 1 (s.events 3) = [.failed] ∧ Event.exits 2 (s.events 3) = [.normal] ∧
      (s.after 3).kernel.table.processes.map (fun p => (p.id, p.isExited)) =
        [(1, true), (2, true)] := by decide +kernel
  rw [hs] at recorded
  obtain ⟨failed, normal, exited⟩ := recorded s rfl
  obtain ⟨p, rest, processes, first, others⟩ := List.map_eq_cons_iff.1 exited
  obtain ⟨q, rfl, second⟩ := List.map_eq_singleton_iff.1 others
  simp only [Prod.mk.injEq] at first second
  rw [← first.1] at failed
  rw [← second.1] at normal
  obtain ⟨-, each⟩ := exits_reported_once hs 3
  obtain ⟨cause, -, -, once, -, -, -, -, -, fault, -, errors⟩ :=
    (each p (by simp [processes])).2 first.2
  obtain ⟨cause', -, -, once', -, -, -, -, -, -, -, errors'⟩ :=
    (each q (by simp [processes])).2 second.2
  obtain rfl : cause = .failed := List.singleton_inj.1 (once.symm.trans failed)
  obtain rfl : cause' = .normal := List.singleton_inj.1 (once'.symm.trans normal)
  exact ⟨s, p, q, hs, processes, failed, errors, fault.1 rfl, normal,
    List.eq_nil_of_length_eq_zero errors'⟩

end Simulation

end Timeslice
