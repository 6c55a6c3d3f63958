import Timeslice.Proofs.Kernel.Policy
import Timeslice.Proofs.Kernel.Programs

/-! # The realtime core of a kernel

The core of a kernel has its realtime processes alone, with the selection and the records that are
about them. If no best-effort process waits for input, the kernel and its core stay in step: what is
left of any operation on the kernel is the same operation on the core.
-/

namespace Timeslice

variable {H : Type}

def Event.process : Event → Pid
  | .selected id _ | .preempted id _ _ | .exited id _ _ | .output id _ _ => id

theorem Process.process_of_turnEvents [SyscallHandler H] {now : Nat} {p : Process H} {event : Event}
    (h : event ∈ p.turnEvents now) : event.process = p.id := by
  rcases mem_turnEvents h with ⟨text, rfl⟩ | ⟨cause, rfl⟩ <;> rfl

namespace ProcessTable

def hasRealtime (table : ProcessTable H) (id : Pid) : Bool :=
  table.processes.any fun p => p.isRealtime && p.id = id

variable {table : ProcessTable H} {p : Process H}

theorem hasRealtime_eq_true {id : Pid} :
    table.hasRealtime id = true ↔ ∃ p ∈ table.processes, p.isRealtime ∧ p.id = id := by
  simp [hasRealtime]

theorem Distinct.hasRealtime_id (h : table.Distinct) (hp : p ∈ table.processes) :
    table.hasRealtime p.id = p.isRealtime := by
  rw [Bool.eq_iff_iff, hasRealtime_eq_true]
  constructor
  · rintro ⟨q, hq, realtime, hid⟩
    rwa [← h.eq_of_id hq hp hid]
  · intro realtime
    exact ⟨p, hp, realtime, rfl⟩

theorem Becomes.hasRealtime {after : ProcessTable H} {f : Process H → Process H}
    (h : table.Becomes f after) : after.hasRealtime = table.hasRealtime := by
  funext id
  rw [ProcessTable.hasRealtime, ProcessTable.hasRealtime, h.processes, List.any_map]
  congr 1
  funext q
  simp only [Function.comp_apply, Process.isRealtime_eq_of_origin (h.origin q),
    Process.id_eq_of_origin (h.origin q)]

end ProcessTable

namespace Kernel

def realtimeEvents (k : Kernel H) (events : List Event) : List Event :=
  events.filter fun event => k.table.hasRealtime event.process

theorem realtimeEvents_append (k : Kernel H) (events more : List Event) :
    k.realtimeEvents (events ++ more) = k.realtimeEvents events ++ k.realtimeEvents more :=
  List.filter_append ..

/-- Events about one process are left or dropped together. -/
theorem Coherent.realtimeEvents_of_process {k : Kernel H} (h : k.Coherent) {p : Process H}
    (hp : p ∈ k.table.processes) {events : List Event}
    (about : ∀ event ∈ events, event.process = p.id) :
    k.realtimeEvents events = if p.isRealtime then events else [] := by
  have same : ∀ event ∈ events, k.table.hasRealtime event.process = p.isRealtime :=
    fun event member => by rw [about event member, h.distinct.hasRealtime_id hp]
  rw [realtimeEvents, List.filter_congr same]
  cases p.isRealtime with
  | true => rw [List.filter_true, if_pos rfl]
  | false => rw [List.filter_false, if_neg Bool.false_ne_true]

/-- `k.Core v`: `v` is `k` without its best-effort processes, apart from the logs. -/
structure Core (k v : Kernel H) : Prop where
  processes : v.table.processes = k.table.processes.filter (·.isRealtime)
  clock : v.table.clock = k.table.clock
  settings : v.scheduler.settings = k.scheduler.settings
  current : v.scheduler.current = k.scheduler.current.filter k.table.hasRealtime
  audit : v.scheduler.audit = k.realtimeEvents k.scheduler.audit

def Unwaiting (k : Kernel H) : Prop := k.WaitsOnly fun origin => origin.schedulingClass.isRealtime

namespace Core

variable {k v l w : Kernel H} {p : Process H}

theorem mem (c : k.Core v) : p ∈ v.table.processes ↔ p ∈ k.table.processes ∧ p.isRealtime := by
  rw [c.processes, List.mem_filter]

theorem now (c : k.Core v) : v.now = k.now := congrArg Clock.ticks c.clock

/-- Operations that do the same to each realtime process keep kernels in step. -/
theorem becomes (c : k.Core v) {f g : Process H → Process H} (hk : k.table.Becomes f l.table)
    (hv : v.table.Becomes g w.table) (agree : ∀ p ∈ v.table.processes, g p = f p)
    (settings : w.scheduler.settings = l.scheduler.settings)
    (current : w.scheduler.current = l.scheduler.current.filter k.table.hasRealtime)
    (audit : w.scheduler.audit = k.realtimeEvents l.scheduler.audit) : l.Core w where
  processes := by
    rw [hv.processes, List.map_congr_left agree, c.processes, hk.filter_realtime]
  clock := by rw [hv.clock, hk.clock, c.clock]
  settings := settings
  current := by rw [current, hk.hasRealtime]
  audit := by rw [audit, realtimeEvents, realtimeEvents, hk.hasRealtime]

theorem advance (c : k.Core v) : k.advance.Core v.advance := by
  have clock : v.table.clock.tick = k.table.clock.tick := by rw [c.clock]
  have ticked : Core { k with table := { k.table with clock := k.table.clock.tick } }
      { v with table := { v.table with clock := v.table.clock.tick } } :=
    ⟨c.processes, clock, c.settings, c.current, c.audit⟩
  refine ticked.becomes k.table.becomes_advance v.table.becomes_advance (fun p _ => ?_) c.settings
    c.current c.audit
  have now : v.table.advance.now = k.table.advance.now := congrArg Clock.ticks clock
  rw [now]

/-! ## Scheduling -/

theorem running? (c : k.Core v) (hk : k.Coherent) (hv : v.Coherent) :
    v.table.running? = k.table.running?.filter (·.isRealtime) := by
  refine Option.ext fun p => ?_
  rw [Option.filter_eq_some_iff, hk.running?_eq_some, hv.running?_eq_some, c.mem]
  exact and_right_comm

theorem find? (c : k.Core v) (hk : k.Coherent) (hv : v.Coherent) {id : Pid}
    (about : k.table.hasRealtime id) : v.table.find? id = k.table.find? id := by
  obtain ⟨p, hp, realtime, rfl⟩ := ProcessTable.hasRealtime_eq_true.1 about
  rw [hk.distinct.find?_of_mem hp, hv.distinct.find?_of_mem (c.mem.2 ⟨hp, realtime⟩)]

theorem candidates (c : k.Core v) : v.candidates = k.candidates.filter (·.isRealtime) := by
  rw [Kernel.candidates, Kernel.candidates, c.processes, List.filter_filter, List.filter_filter]
  exact List.filter_congr fun p _ => Bool.and_comm _ _

theorem granted (c : k.Core v) (p : Process H) : v.granted p = k.granted p := by
  simp only [Kernel.granted, Scheduler.quantum, c.settings]

/-- The best-effort process that runs is not the selection of the core. -/
theorem current_of_effort (c : k.Core v) (hk : k.Coherent) {r : Process H}
    (hr : k.table.running? = some r) (effort : ¬ r.isRealtime) : v.scheduler.current = none := by
  obtain ⟨hp, running⟩ := hk.running?_eq_some.1 hr
  rw [c.current, hk.selected r hp running]
  simp [Option.filter, hk.distinct.hasRealtime_id hp, effort]

theorem partings (c : k.Core v) (hk : k.Coherent) (hv : v.Coherent) :
    v.partings = k.realtimeEvents k.partings := by
  have running := c.running? hk hv
  cases hr : k.table.running? with
  | some r =>
      obtain ⟨hp, -⟩ := hk.running?_eq_some.1 hr
      have about := hk.distinct.hasRealtime_id hp
      cases realtime : r.isRealtime with
      | true =>
          rw [hr, Option.filter_some, realtime, if_pos rfl] at running
          simp [Kernel.partings, realtimeEvents, hr, running, realtime, Event.process, about, c.now]
      | false =>
          rw [hr, Option.filter_some, realtime, if_neg (by decide)] at running
          have current := c.current_of_effort hk hr (by simp [realtime])
          simp [Kernel.partings, realtimeEvents, hr, running, realtime, Event.process, about,
            current]
  | none =>
      rw [hr, Option.filter_none] at running
      cases current : k.scheduler.current with
      | none =>
          have current' : v.scheduler.current = none := by rw [c.current, current]; rfl
          simp [Kernel.partings, realtimeEvents, hr, running, current, current']
      | some id =>
          cases realtime : k.table.hasRealtime id with
          | true =>
              have current' : v.scheduler.current = some id := by
                rw [c.current, current, Option.filter_some, realtime, if_pos rfl]
              have found := c.find? hk hv realtime
              simp only [Kernel.partings, realtimeEvents, hr, running, current, current', found,
                c.now]
              split
              · simp [Event.process, realtime]
              · rfl
          | false =>
              have current' : v.scheduler.current = none := by
                rw [c.current, current, Option.filter_some, realtime]
                rfl
              simp only [Kernel.partings, realtimeEvents, hr, running, current, current']
              split
              · simp [Event.process, realtime]
              · rfl

theorem schedule_of_retains (c : k.Core v) (hk : k.Coherent) (hv : v.Coherent) {r : Process H}
    (hr : k.table.running? = some r) (kept : k.Retains r) (realtime : r.isRealtime) :
    k.schedule.2.Core v.schedule.2 := by
  have running : v.table.running? = some r := by
    rw [c.running? hk hv, hr, Option.filter_some, realtime, if_pos rfl]
  have kept' : v.Retains r := by
    rcases kept with quantum | ⟨effort, -⟩ | ⟨effort, -⟩
    · exact .inl quantum
    · exact (effort realtime).elim
    · exact (effort realtime).elim
  rw [hk.schedule_of_retains hr kept, hv.schedule_of_retains running kept']
  exact c

theorem becomes_of_chooses (chooses : k.Chooses p l) : k.table.Becomes (k.handOver p) l.table :=
  chooses.table ▸ k.table.becomes_mapped (k.origin_handOver p)

theorem schedule_of_chooses (c : k.Core v) (hk : k.Coherent) (hv : v.Coherent)
    (given : ∀ r, k.table.running? = some r → ¬ k.Retains r) (chooses : k.Chooses p k.schedule.2)
    (realtime : p.isRealtime) : k.schedule.2.Core v.schedule.2 := by
  have about := hk.distinct.hasRealtime_id (mem_candidates.1 chooses.first.mem).1
  have given' : ∀ r, v.table.running? = some r → ¬ v.Retains r := by
    intro r hr kept
    rw [c.running? hk hv, Option.filter_eq_some_iff] at hr
    rcases kept with quantum | ⟨effort, -⟩ | ⟨effort, -⟩
    · exact given r hr.1 (.inl quantum)
    · exact effort hr.2
    · exact effort hr.2
  have first : p.IsFirst v.candidates := by
    rw [c.candidates]
    refine ⟨List.mem_filter.2 ⟨chooses.first.mem, realtime⟩, fun _ _ _ => realtime, ?_⟩
    exact fun q hq => chooses.first.least q (List.mem_filter.1 hq).1
  have chooses' := (hv.chooses_of_isFirst given' first).2
  refine c.becomes (becomes_of_chooses chooses) (becomes_of_chooses chooses') (fun q _ => ?_)
    ?_ ?_ ?_
  · simp only [handOver, c.granted]
  · rw [chooses'.settings, chooses.settings, c.settings]
  · rw [chooses'.current, chooses.current, Option.filter_some, about, realtime, if_pos rfl]
  · rw [chooses'.audit, chooses.audit, c.audit, c.partings hk hv, c.now]
    simp [realtimeEvents, Event.process, about, realtime]

/-- With no realtime candidate the core rests, whatever the best-effort processes do. -/
theorem schedule_of_effort (c : k.Core v) (hk : k.Coherent) (hv : v.Coherent)
    (effort : ∀ p ∈ k.candidates, ¬ p.isRealtime) : k.schedule.2.Core v.schedule.2 := by
  have rests : v.Rests v.schedule.2 := by
    refine hv.rests_of_candidates ?_
    rw [c.candidates]
    exact List.filter_eq_nil_iff.2 effort
  have stays : v.table.Becomes (fun q => q) v.schedule.2.table := .of_eq rests.table
  have same (l : Kernel H) (settled : l.scheduler.settings = k.scheduler.settings) :
      v.schedule.2.scheduler.settings = l.scheduler.settings := by
    rw [rests.settings, settled, c.settings]
  rcases hk.schedule_cases with ⟨r, hr, -, kept⟩ | ⟨-, ⟨p, -, chooses⟩ | ⟨-, rests'⟩⟩
  · obtain ⟨hp, running⟩ := hk.running?_eq_some.1 hr
    have low := effort r (mem_candidates.2 ⟨hp, .inr running⟩)
    have parting : k.realtimeEvents k.partings = [] := by
      simp [realtimeEvents, Kernel.partings, hr, Event.process, hk.distinct.hasRealtime_id hp, low]
    rw [kept]
    refine c.becomes (.refl k.table) stays (fun _ _ => rfl) (same k rfl) ?_ ?_
    · rw [rests.current, ← c.current, c.current_of_effort hk hr low]
    · rw [rests.audit, c.partings hk hv, parting, List.append_nil, c.audit]
  · have hp := (mem_candidates.1 chooses.first.mem).1
    have low := effort p chooses.first.mem
    have about := hk.distinct.hasRealtime_id hp
    refine c.becomes (becomes_of_chooses chooses) stays (fun q hq => ?_) (same _ chooses.settings)
      ?_ ?_
    · obtain ⟨hq, realtime⟩ := c.mem.1 hq
      have other : q.id ≠ p.id := fun hid => low (hk.distinct.eq_of_id hq hp hid ▸ realtime)
      have idle : ¬ q.isRunning := fun running =>
        effort q (mem_candidates.2 ⟨hq, .inr running⟩) realtime
      rw [handOver, if_neg other, if_neg idle]
    · simp [rests.current, chooses.current, Option.filter_some, about, low]
    · rw [rests.audit, chooses.audit, c.audit, c.partings hk hv]
      simp [realtimeEvents, Event.process, about, low]
  · refine c.becomes (.of_eq rests'.table) stays (fun _ _ => rfl) (same _ rests'.settings) ?_ ?_
    · rw [rests.current, rests'.current, Option.filter_none]
    · rw [rests.audit, rests'.audit, c.audit, c.partings hk hv, realtimeEvents, realtimeEvents,
        realtimeEvents, List.filter_append]

theorem schedule (c : k.Core v) (hk : k.Coherent) (hv : v.Coherent) (unwaiting : k.Unwaiting) :
    k.schedule.2.Core v.schedule.2 := by
  -- What counts is whether a realtime process is a candidate, not which case the kernel is in.
  rcases hk.schedule_cases with ⟨r, hr, kept, -⟩ | ⟨given, ⟨p, -, chooses⟩ | ⟨-, rests⟩⟩
  · by_cases realtime : r.isRealtime
    · exact c.schedule_of_retains hk hv hr kept realtime
    · obtain ⟨hp, running⟩ := hk.running?_eq_some.1 hr
      refine c.schedule_of_effort hk hv fun p member => ?_
      obtain ⟨hp', ready | running'⟩ := mem_candidates.1 member
      · rcases kept with ⟨realtime', -⟩ | ⟨-, waits⟩ | ⟨-, alone⟩
        · exact (realtime realtime').elim
        · exact (realtime (unwaiting r hp waits)).elim
        · exact alone p hp' ready
      · rwa [hk.eq_of_running hp' hp running' running]
  · by_cases realtime : p.isRealtime
    · exact c.schedule_of_chooses hk hv given chooses realtime
    · exact c.schedule_of_effort hk hv fun q member realtime' =>
        realtime (chooses.first.realtime q member realtime')
  · refine c.schedule_of_effort hk hv fun p member => ?_
    rw [rests.candidates] at member
    contradiction

/-! ## Executing -/

theorem find?_of_current (c : k.Core v) (hk : k.Coherent) (hv : v.Coherent) {id : Pid}
    (current : v.scheduler.current = some id) : v.table.find? id ≠ none := by
  rw [c.current, Option.filter_eq_some_iff] at current
  obtain ⟨p, hp, -, hid⟩ := ProcessTable.hasRealtime_eq_true.1 current.2
  rw [c.find? hk hv current.2, ← hid, hk.distinct.find?_of_mem hp]
  nofun

section Executing

variable [SyscallHandler H]

theorem execute_of_idle (c : k.Core v) (hk : k.Coherent) (hv : v.Coherent)
    (idle : v.table.running? = none) : v.execute.2 = v := by
  obtain ⟨-, table, same | ⟨-, id, current, missing⟩⟩ := hv.execute_of_idle idle
  · calc v.execute.2 = ⟨v.execute.2.table, v.execute.2.scheduler⟩ := rfl
      _ = v := by rw [table, same]
  · exact (c.find?_of_current hk hv current missing).elim

theorem execute (c : k.Core v) (hk : k.Coherent) (hv : v.Coherent) :
    k.execute.2.Core v.execute.2 := by
  have running := c.running? hk hv
  cases hr : k.table.running? with
  | some p =>
      have turns := hk.turns_execute hr
      obtain ⟨hp, runs⟩ := hk.running?_eq_some.1 hr
      have about := hk.distinct.hasRealtime_id hp
      by_cases realtime : p.isRealtime
      · rw [hr, Option.filter_some, if_pos realtime] at running
        have turns' := hv.turns_execute running
        refine c.becomes turns.table turns'.table (fun _ _ => by rw [c.now]) ?_ ?_ ?_
        · rw [turns'.settings, turns.settings, c.settings]
        · rw [turns'.current, turns.current, c.now]
          split
          · rfl
          · rw [Option.filter_some, about, if_pos realtime]
        · rw [turns'.audit, turns.audit, realtimeEvents_append, ← c.audit,
            hk.realtimeEvents_of_process hp fun _ => Process.process_of_turnEvents,
            if_pos realtime, c.now]
      · rw [hr, Option.filter_some, if_neg realtime] at running
        rw [c.execute_of_idle hk hv running]
        refine c.becomes turns.table (.refl v.table) (fun q hq => ?_) ?_ ?_ ?_
        · obtain ⟨hq, realtime'⟩ := c.mem.1 hq
          have idle : ¬ q.isRunning := fun runs' =>
            realtime (hk.eq_of_running hq hp runs' runs ▸ realtime')
          rw [if_neg idle]
        · rw [turns.settings, c.settings]
        · rw [c.current_of_effort hk hr realtime, turns.current]
          split
          · rfl
          · rw [Option.filter_some, about, if_neg realtime]
        · rw [turns.audit, realtimeEvents_append, ← c.audit,
            hk.realtimeEvents_of_process hp fun _ => Process.process_of_turnEvents,
            if_neg realtime, List.append_nil]
  | none =>
      rw [hr, Option.filter_none] at running
      rw [c.execute_of_idle hk hv running]
      obtain ⟨-, table, dropped⟩ := hk.execute_of_idle hr
      refine c.becomes (.of_eq table) (.refl v.table) (fun _ _ => rfl) ?_ ?_ ?_
      · rcases dropped with same | ⟨same, -⟩
        · rw [same, c.settings]
        · rw [same, c.settings]
          rfl
      · rcases dropped with same | ⟨same, id, current, missing⟩
        · rw [same, c.current]
        · have absent : ¬ k.table.hasRealtime id := fun about => by
            obtain ⟨p, hp, -, hid⟩ := ProcessTable.hasRealtime_eq_true.1 about
            exact ProcessTable.ne_of_find?_none missing hp hid
          rw [same, c.current, current, Option.filter_some, if_neg absent]
          rfl
      · rcases dropped with same | ⟨same, -⟩
        · rw [same, c.audit]
        · rw [same, c.audit]
          rfl

end Executing

/-! ## Closing -/

theorem finished? (c : k.Core v) (hk : k.Coherent) (hv : v.Coherent) :
    v.finished? = k.finished?.filter (·.isRealtime) := by
  refine Option.ext fun p => ?_
  rw [Option.filter_eq_some_iff, finished?_eq_some, finished?_eq_some, c.running? hk hv,
    Option.filter_eq_some_iff]
  exact and_right_comm

theorem close (c : k.Core v) (hk : k.Coherent) (hv : v.Coherent) : k.close.Core v.close := by
  have finished := c.finished? hk hv
  have becomes := c.becomes hk.becomes_close hv.becomes_close fun _ _ => rfl
  cases hf : k.finished? with
  | some p =>
      obtain ⟨hr, -⟩ := finished?_eq_some.1 hf
      obtain ⟨hp, -⟩ := hk.running?_eq_some.1 hr
      have about := hk.distinct.hasRealtime_id hp
      have scheduler := hk.scheduler_close hf
      by_cases realtime : p.isRealtime
      · rw [hf, Option.filter_some, if_pos realtime] at finished
        have scheduler' := hv.scheduler_close finished
        refine becomes ?_ ?_ ?_
        · rw [scheduler', scheduler]
          exact c.settings
        · rw [scheduler', scheduler]
          rfl
        · rw [scheduler', scheduler, Scheduler.record, Scheduler.record, realtimeEvents_append,
            c.now]
          simp [Scheduler.select, c.audit, realtimeEvents, Event.process, about, realtime]
      · rw [hf, Option.filter_some, if_neg realtime] at finished
        have same : v.close = v := by simp only [Kernel.close, finished]
        refine becomes ?_ ?_ ?_
        · rw [same, scheduler]
          exact c.settings
        · rw [same, scheduler, c.current_of_effort hk hr realtime]
          rfl
        · rw [same, scheduler, Scheduler.record, realtimeEvents_append]
          simp [Scheduler.select, c.audit, realtimeEvents, Event.process, about, realtime]
  | none =>
      rw [hf, Option.filter_none] at finished
      have same : k.close = k := by simp only [Kernel.close, hf]
      have same' : v.close = v := by simp only [Kernel.close, finished]
      rw [same, same']
      exact c

end Core

end Kernel

end Timeslice
