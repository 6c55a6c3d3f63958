import Timeslice.Proofs.Kernel.Trail
import Timeslice.Proofs.Simulation.Computation

/-! # The trail of a simulation

The events of all ticks together are one trail. What makes them so is that the selected process of a
simulation has never exited when a tick begins: an exit is recorded when it happens and takes the
selection with it, and input ends no process.
-/

namespace Timeslice

/-! ## Input ends no process -/

theorem Cpu.exit_not_mem_call_sentinelCode {cpu : Cpu Services} (clean : cpu.effects = []) :
    .exit ∉ (cpu.call sentinelCode).effects := by
  unfold call
  split
  · simp [clean]
  · simp [clean, serve, Services.answer]

/-- A number that is read may greet, but it never ends its reader. -/
theorem Cpu.exit_not_mem_read {cpu : Cpu Services} (clean : cpu.effects = []) (text : String)
    (number : Int32) : .exit ∉ (cpu.read text number).effects := by
  unfold read
  split
  · exact exit_not_mem_call_sentinelCode clean
  · exact clean ▸ List.not_mem_nil

theorem Process.isExited_intake {p : Process Services} (clean : p.cpu.effects = [])
    (now ticks : Nat) (text : String) : (p.intake now ticks text).isExited = p.isExited := by
  have received : (p.receive text).isExited = p.isExited ∧
      .exit ∉ (p.receive text).cpu.effects := by
    unfold receive
    split
    · rename_i supplied
      obtain ⟨-, number, -, rfl⟩ := Cpu.supply_eq_ok_true.1 supplied
      exact ⟨rfl, Cpu.exit_not_mem_read clean text number⟩
    · exact ⟨rfl, by simp [clean]⟩
  have spared : (p.receive text).cpu.effects.contains .exit = false :=
    Bool.eq_false_iff.2 fun ends => received.2 (List.contains_iff_mem.1 ends)
  rw [intake, isExited_feel, isExited_absorb, received.1, spared, Bool.or_false]
  exact Bool.or_false _

namespace Simulation

/-- The kernel in the next tick when time has passed. -/
def timed (s : Simulation) : Kernel Services := s.deliver.2.kernel.advance

def events (s : Simulation) (ticks : Nat) : List Event := (s.records ticks).flatMap (·.events)

variable {s : Simulation} {a : Option Pid} {id : Pid} {schedulingClass : SchedulingClass}

/-! ## Input and time -/

/-- Each process that is there when time has passed was there before the tick. It has not been put
on the processor since, and has not ended. -/
theorem exists_of_mem_timed (h : s.kernel.Coherent)
    (clean : ∀ p ∈ s.kernel.table.processes, p.cpu.effects = []) {q : Process Services}
    (hq : q ∈ s.timed.table.processes) :
    ∃ p ∈ s.kernel.table.processes, q.origin = p.origin ∧ (q.isRunning → p.isRunning) ∧
      q.isExited = p.isExited := by
  obtain ⟨r, hr, rfl⟩ := s.deliver.2.kernel.table.becomes_advance.mem hq
  rw [Process.origin_elapse, Process.isRunning_elapse, Process.isExited_elapse]
  obtain ⟨p, hp, -, rfl | ⟨text, cpu, -, -, rfl⟩⟩ := exists_of_mem_deliver h hr
  · exact ⟨r, hp, rfl, fun running => running, rfl⟩
  · exact ⟨p, hp, p.origin_intake _ _ _, Process.isRunning_of_intake,
      Process.isExited_intake (clean p hp) _ _ _⟩

theorem scheduler_timed (h : s.kernel.Coherent) : s.timed.scheduler = s.kernel.scheduler :=
  scheduler_deliver h

theorem selectsAlive_timed (h : s.kernel.Coherent)
    (clean : ∀ p ∈ s.kernel.table.processes, p.cpu.effects = [])
    (alive : s.kernel.SelectsAlive) : s.timed.SelectsAlive := by
  intro q hq current
  obtain ⟨p, hp, origin, -, same⟩ := exists_of_mem_timed h clean hq
  rw [scheduler_timed h, Process.id_eq_of_origin origin] at current
  rw [same]
  exact alive p hp current

theorem heldBy_timed (h : s.kernel.Coherent)
    (clean : ∀ p ∈ s.kernel.table.processes, p.cpu.effects = [])
    (held : s.kernel.HeldBy a) : s.timed.HeldBy a := by
  intro q hq running
  obtain ⟨p, hp, origin, started, -⟩ := exists_of_mem_timed h clean hq
  rw [Process.id_eq_of_origin origin]
  exact held p hp (started running)

theorem hasClass_of_origins {k l : Kernel Services}
    (origins : ∀ q ∈ l.table.processes, ∃ p ∈ k.table.processes, q.origin = p.origin)
    (h : l.table.HasClass id schedulingClass) : k.table.HasClass id schedulingClass := by
  obtain ⟨q, hq, hid, same⟩ := h
  obtain ⟨p, hp, origin⟩ := origins q hq
  have classes : q.schedulingClass = p.schedulingClass := congrArg Origin.schedulingClass origin
  exact ⟨p, hp, (Process.id_eq_of_origin origin).symm.trans hid, classes.symm.trans same⟩

theorem hasClass_timed (h : s.kernel.Coherent)
    (clean : ∀ p ∈ s.kernel.table.processes, p.cpu.effects = [])
    (known : s.timed.table.HasClass id schedulingClass) :
    s.kernel.table.HasClass id schedulingClass := by
  refine hasClass_of_origins (fun q hq => ?_) known
  obtain ⟨p, hp, origin, -⟩ := exists_of_mem_timed h clean hq
  exact ⟨p, hp, origin⟩

/-! ## One tick -/

theorem selectsAlive_step (h : s.kernel.Coherent) : s.step.2.kernel.SelectsAlive := by
  have poised := coherent_poised h
  have closed : s.closed.SelectsAlive := by
    refine poised.execute.selectsAlive_close (poised.selectsAlive_execute fun q hq current => ?_)
    exact (coherent_deliver h).advance.isRunning_of_selected hq current
  have ticks := ticks_step h
  unfold Kernel.SelectsAlive
  rw [ticks.processes, ticks.current]
  exact closed

theorem events_step (h : s.kernel.Coherent) (clear : s.kernel.scheduler.audit = []) :
    s.step.1.events = s.timed.switches ++ s.poised.turned ++ s.poised.execute.2.closings := by
  have poised := coherent_poised h
  have timed : s.timed.Coherent := (coherent_deliver h).advance
  have before : s.timed.scheduler.audit = [] := by
    rw [scheduler_timed h, clear]
  have chosen : s.poised.scheduler.audit = s.timed.scheduler.audit ++ s.timed.switches :=
    timed.audit_schedule
  rw [(ticks_step h).events, closed, poised.execute.audit_close, poised.audit_execute, chosen,
    before, List.nil_append]

theorem now_poised (h : s.kernel.Coherent) :
    s.timed.now = s.closed.now ∧ s.poised.now = s.closed.now ∧
      s.poised.execute.2.now = s.closed.now := by
  have poised := coherent_poised h
  obtain ⟨f, scheduled, -⟩ := (coherent_deliver h).advance.becomes_schedule
  have chosen : s.poised.now = s.timed.now := scheduled.now
  have executed : s.poised.execute.2.now = s.poised.now := poised.becomes_execute.now
  have closed : s.closed.now = s.poised.execute.2.now := poised.execute.becomes_close.now
  exact ⟨by rw [closed, executed, chosen], by rw [closed, executed], closed.symm⟩

theorem tick_step (s : Simulation) : s.step.1.tick = s.closed.now := by
  obtain ⟨log, selected, stepped⟩ := s.step_eq
  rw [stepped]
  rfl

theorem tick_of_mem_events (h : s.kernel.Coherent) (clear : s.kernel.scheduler.audit = [])
    {event : Event} (member : event ∈ s.step.1.events) : event.tick = s.step.1.tick := by
  obtain ⟨timed, poised, executed⟩ := now_poised h
  rw [tick_step]
  rw [events_step h clear, List.mem_append, List.mem_append] at member
  rcases member with (switched | turned) | closed
  · rw [← timed]
    exact Kernel.tick_of_mem_switches (coherent_deliver h).advance switched
  · rw [← poised]
    rcases Kernel.mem_turned turned with ⟨_, _, rfl⟩ | ⟨_, _, rfl⟩ <;> rfl
  · rw [← executed]
    obtain ⟨_, _, rfl⟩ := Kernel.mem_closings closed
    rfl

/-- A tick selects one process at most. -/
theorem length_selections_step (h : s.kernel.Coherent) (clear : s.kernel.scheduler.audit = []) :
    (s.step.1.events.filter (·.isSelection)).length ≤ 1 := by
  have turned : s.poised.turned.filter (·.isSelection) = [] := by
    refine List.filter_eq_nil_iff.2 fun event member => ?_
    rcases Kernel.mem_turned member with ⟨_, _, rfl⟩ | ⟨_, _, rfl⟩ <;> exact Bool.false_ne_true
  have closed : s.poised.execute.2.closings.filter (·.isSelection) = [] := by
    refine List.filter_eq_nil_iff.2 fun event member => ?_
    obtain ⟨_, _, rfl⟩ := Kernel.mem_closings member
    exact Bool.false_ne_true
  rw [events_step h clear, List.filter_append, List.filter_append, turned, closed,
    List.append_nil, List.append_nil]
  exact (coherent_deliver h).advance.length_selections

/-- A tick goes on with the trail. -/
theorem trail_step (h : s.kernel.Coherent) (clear : s.kernel.scheduler.audit = [])
    (clean : ∀ p ∈ s.kernel.table.processes, p.cpu.effects = []) (alive : s.kernel.SelectsAlive)
    (held : s.kernel.HeldBy a) :
    ∃ b, Event.Trail s.kernel.table.HasClass a s.step.1.events b ∧ s.step.2.kernel.HeldBy b := by
  have timed := (coherent_deliver h).advance
  have poised := coherent_poised h
  obtain ⟨b, switched, held⟩ :=
    timed.trail_switches (selectsAlive_timed h clean alive) (heldBy_timed h clean held)
  have switched := switched.mono fun _ _ => hasClass_timed h clean
  obtain ⟨c, turned, held⟩ := poised.trail_turned held s.kernel.table.HasClass
  obtain ⟨d, closed, held⟩ := poised.execute.trail_closings held s.kernel.table.HasClass
  refine ⟨d, ?_, ?_⟩
  · rw [events_step h clear]
    exact (switched.append turned).append closed
  · unfold Kernel.HeldBy
    rw [(ticks_step h).processes]
    exact held

/-! ## The clock -/

theorem now_deliver (h : s.kernel.Coherent) : s.deliver.2.now = s.now := by
  cases accepted : s.acceptance? with
  | none =>
      obtain ⟨log, same⟩ := deliver_of_no_acceptance h accepted
      rw [same]
      rfl
  | some given => exact (becomes_deliver h accepted).now

theorem now_closed (h : s.kernel.Coherent) : s.closed.now = Word.add s.now 1 := by
  rw [← (now_poised h).1, ← now_deliver h]
  rfl

theorem now_step (h : s.kernel.Coherent) : s.step.2.now = s.closed.now :=
  congrArg Clock.ticks (ticks_step h).clock

/-! ## Runs -/

theorem events_succ (s : Simulation) (ticks : Nat) :
    s.events (ticks + 1) = s.events ticks ++ (s.after ticks).step.1.events := by
  rw [events, records, List.flatMap_append, List.flatMap_singleton, events]

theorem mem_records {record : TickRecord} {ticks : Nat} (member : record ∈ s.records ticks) :
    ∃ m, record = (s.after m).step.1 := by
  induction ticks with
  | zero => contradiction
  | succ ticks ih =>
      rcases List.mem_append.1 member with earlier | last
      · exact ih earlier
      · exact ⟨ticks, List.mem_singleton.1 last⟩

namespace Begins

variable {scenario : Scenario}

theorem hasClass_after (hs : s.Begins scenario) (ticks : Nat)
    (known : (s.after ticks).kernel.table.HasClass id schedulingClass) :
    s.kernel.table.HasClass id schedulingClass := by
  induction ticks with
  | zero => exact known
  | succ ticks ih =>
      refine ih (hasClass_of_origins (fun q hq => ?_) known)
      obtain ⟨p, hp, origin, -⟩ :=
        exists_follows_step (coherent_after hs.coherent ticks) (hs.audit_after ticks) hq
      exact ⟨p, hp, origin⟩

/-- No effects are left between ticks. -/
theorem clean_after (hs : s.Begins scenario) (ticks : Nat) :
    ∀ p ∈ (s.after ticks).kernel.table.processes, p.cpu.effects = [] := by
  intro p hp
  obtain ⟨program, -, c, -, follows, -⟩ := hs.follows_after ⟨.standard⟩ ticks hp
  exact follows.clean

theorem selectsAlive_after (hs : s.Begins scenario) (ticks : Nat) :
    (s.after ticks).kernel.SelectsAlive := by
  cases ticks with
  | zero =>
      intro p _ current
      rw [after, hs.scheduler] at current
      contradiction
  | succ ticks => exact selectsAlive_step (coherent_after hs.coherent ticks)

theorem trail_after (hs : s.Begins scenario) (ticks : Nat) :
    ∃ b, Event.Trail s.kernel.table.HasClass none (s.events ticks) b ∧
      (s.after ticks).kernel.HeldBy b := by
  induction ticks with
  | zero =>
      refine ⟨none, .nil none, fun p hp running => ?_⟩
      have new := hs.state hp
      simp [Process.isRunning, new] at running
  | succ ticks ih =>
      obtain ⟨b, trail, held⟩ := ih
      obtain ⟨c, next, held'⟩ := trail_step (coherent_after hs.coherent ticks)
        (hs.audit_after ticks) (hs.clean_after ticks) (hs.selectsAlive_after ticks) held
      refine ⟨c, ?_, held'⟩
      rw [events_succ]
      exact trail.append (next.mono fun _ _ => hs.hasClass_after ticks)

theorem now_after (hs : s.Begins scenario) (ticks : Nat) :
    (s.after ticks).now = min ticks Word.limit := by
  induction ticks with
  | zero => exact congrArg Clock.ticks hs.clock
  | succ ticks ih =>
      have coherent := coherent_after hs.coherent ticks
      rw [after, now_step coherent, now_closed coherent, ih, Word.add]
      omega

theorem tick_after (hs : s.Begins scenario) (ticks : Nat) :
    (s.after ticks).step.1.tick = min (ticks + 1) Word.limit := by
  rw [tick_step, ← now_step (coherent_after hs.coherent ticks)]
  exact hs.now_after (ticks + 1)

theorem tick_of_mem (hs : s.Begins scenario) {ticks : Nat} {event : Event}
    (member : event ∈ (s.after ticks).step.1.events) : event.tick = min (ticks + 1) Word.limit := by
  rw [tick_of_mem_events (coherent_after hs.coherent ticks) (hs.audit_after ticks) member,
    hs.tick_after]

theorem tick_le_of_mem (hs : s.Begins scenario) {ticks : Nat} {event : Event}
    (member : event ∈ s.events ticks) : event.tick ≤ min ticks Word.limit := by
  induction ticks with
  | zero => contradiction
  | succ ticks ih =>
      rw [events_succ, List.mem_append] at member
      rcases member with earlier | last
      · have le := ih earlier
        omega
      · exact Nat.le_of_eq (hs.tick_of_mem last)

/-- Events are recorded in the order in which they happen. -/
theorem pairwise_events (hs : s.Begins scenario) (ticks : Nat) :
    (s.events ticks).Pairwise fun earlier later => earlier.tick ≤ later.tick := by
  induction ticks with
  | zero => exact .nil
  | succ ticks ih =>
      rw [events_succ, List.pairwise_append]
      refine ⟨ih, List.pairwise_of_forall_mem_list fun event he event' he' => ?_,
        fun event he event' he' => ?_⟩
      · exact Nat.le_of_eq ((hs.tick_of_mem he).trans (hs.tick_of_mem he').symm)
      · have le := hs.tick_le_of_mem he
        rw [hs.tick_of_mem he']
        omega

end Begins

/-! ## The trail -/

/-- The trail of a simulation is well formed: events carry the tick of the record they are in, and
later ones no earlier tick; the process that is sent back, ends or puts something out is the one
that was selected last; a process is only sent back for a realtime one, which is selected at once;
and a tick selects one process at most. -/
theorem trail_well_formed {scenario : Scenario} (created : create scenario = .ok s) (ticks : Nat) :
    (∀ record ∈ s.records ticks, ∀ event ∈ record.events, event.tick = record.tick) ∧
      (s.events ticks).Pairwise (fun earlier later => earlier.tick ≤ later.tick) ∧
      (∀ before event after, s.events ticks = before ++ event :: after → ¬ event.isSelection →
        ∃ tick, (before.filter (·.isTransition)).getLast? =
          some (.selected event.process tick)) ∧
      (∀ before id reason tick after,
        s.events ticks = before ++ .preempted id reason tick :: after →
        s.kernel.table.HasClass id reason.victim ∧ ∃ next,
          (after.filter (·.isTransition)).head? = some (.selected next tick) ∧
            s.kernel.table.HasClass next .realtime) ∧
      ∀ record ∈ s.records ticks, (record.events.filter (·.isSelection)).length ≤ 1 := by
  have hs := begins_of_create created
  obtain ⟨b, trail, -⟩ := hs.trail_after ticks
  refine ⟨fun record member event he => ?_, hs.pairwise_events ticks,
    fun before event after split other => ?_, fun before id reason tick after split => ?_,
    fun record member => ?_⟩
  · obtain ⟨m, rfl⟩ := mem_records member
    exact tick_of_mem_events (coherent_after hs.coherent m) (hs.audit_after m) he
  · exact Event.exists_selected_of_holder ((trail.of_append split other).eq_process other)
  · exact (trail.of_append split Bool.false_ne_true).of_preempted
  · obtain ⟨m, rfl⟩ := mem_records member
    exact length_selections_step (coherent_after hs.coherent m) (hs.audit_after m)

def arriving : Scenario where
  quantum := 2
  maxTicks := 100
  logLevel := .info
  blockTicks := .standard
  inputs := []
  processes := [
    ⟨"clock", 2, .realtime, .high, some ".code\nloop:\nADD #1\nBRANY loop", none⟩,
    ⟨"other", 0, .bestEffort, .low, some ".code\nloop:\nADD #1\nBRANY loop", none⟩]

theorem trail_well_formed_arriving :
    ∃ s, create arriving = .ok s ∧
      s.events 4 = [.selected 2 1, .preempted 2 .realtimeArrival 2, .selected 1 2,
        .preempted 1 .quantumExpired 4, .selected 1 4] ∧
      s.kernel.table.HasClass 2 .bestEffort ∧ s.kernel.table.HasClass 1 .realtime := by
  have recorded : ∀ s ∈ (create arriving).toOption,
      s.events 4 = [.selected 2 1, .preempted 2 .realtimeArrival 2, .selected 1 2,
        .preempted 1 .quantumExpired 4, .selected 1 4] := by decide +kernel
  obtain ⟨s, hs⟩ : ∃ s, create arriving = .ok s := exists_ok (by decide +kernel)
  rw [hs] at recorded
  have events := recorded s rfl
  obtain ⟨-, -, -, switched, -⟩ := trail_well_formed hs 4
  have arrival := switched [.selected 2 1] 2 .realtimeArrival 2 _ events
  have expiry := switched [.selected 2 1, .preempted 2 .realtimeArrival 2, .selected 1 2]
    1 .quantumExpired 4 _ events
  exact ⟨s, hs, events, arrival.1, expiry.1⟩

end Simulation

end Timeslice
