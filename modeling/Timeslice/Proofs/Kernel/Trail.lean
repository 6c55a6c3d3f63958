import Mathlib.Data.List.Induction
import Timeslice.Proofs.Kernel.Realtime

/-! # The trail of events

The events of a kernel follow a grammar: a process that is sent back, ends or puts something out is
the one that was selected last, and a process is only sent back for a realtime one. Each phase of a
tick goes on with the trail where the one before it left off.
-/

namespace Timeslice

variable {H : Type}

/-- The class of the processes that are sent back for a reason. -/
def Preemption.victim : Preemption → SchedulingClass
  | quantumExpired => .realtime
  | realtimeArrival => .bestEffort

namespace Event

def tick : Event → Nat
  | selected _ tick | preempted _ _ tick | exited _ _ tick | output _ _ tick => tick

def isSelection : Event → Bool
  | selected .. => true
  | _ => false

def isTransition : Event → Bool
  | output .. => false
  | _ => true

def attend (holder : Option Pid) : Event → Option Pid
  | selected id _ => some id
  | output .. => holder
  | _ => none

/-- The process on the processor after events, where `first` is the one before them. -/
def holder (first : Option Pid) (events : List Event) : Option Pid := events.foldl attend first

/-- `Trail classed a events b`: the events begin with process `a` on the processor and end with
process `b` on it, and processes are switched as their classes allow. -/
inductive Trail (classed : Pid → SchedulingClass → Prop) :
    Option Pid → List Event → Option Pid → Prop
  | nil (a : Option Pid) : Trail classed a [] a
  | selected {a b : Option Pid} {id : Pid} {tick : Nat} {events : List Event}
      (rest : Trail classed (some id) events b) : Trail classed a (.selected id tick :: events) b
  | switched {b : Option Pid} {id next : Pid} {reason : Preemption} {tick : Nat}
      {events : List Event} (victim : classed id reason.victim) (winner : classed next .realtime)
      (rest : Trail classed (some next) events b) :
      Trail classed (some id) (.preempted id reason tick :: .selected next tick :: events) b
  | exited {b : Option Pid} {id : Pid} {reason : ExitCause} {tick : Nat} {events : List Event}
      (rest : Trail classed none events b) :
      Trail classed (some id) (.exited id reason tick :: events) b
  | output {b : Option Pid} {id : Pid} {text : String} {tick : Nat} {events : List Event}
      (rest : Trail classed (some id) events b) :
      Trail classed (some id) (.output id text tick :: events) b

/-- A process holds the processor if it is selected last. -/
theorem exists_selected_of_holder {events : List Event} {id : Pid}
    (h : holder none events = some id) :
    ∃ tick, (events.filter (·.isTransition)).getLast? = some (.selected id tick) := by
  induction events using List.reverseRecOn with
  | nil => contradiction
  | append_singleton events event ih =>
      rw [holder, List.foldl_append] at h
      rw [List.filter_append]
      cases event with
      | selected id tick =>
          cases h
          exact ⟨tick, List.getLast?_concat⟩
      | output id text tick =>
          obtain ⟨tick, last⟩ := ih h
          refine ⟨tick, ?_⟩
          rw [← last]
          exact congrArg List.getLast? (List.append_nil _)
      | preempted id reason tick => contradiction
      | exited id reason tick => contradiction

namespace Trail

variable {classed : Pid → SchedulingClass → Prop} {a b c : Option Pid} {events more : List Event}

theorem append (h : Trail classed a events b) (h' : Trail classed b more c) :
    Trail classed a (events ++ more) c := by
  induction h with
  | nil a => exact h'
  | selected rest ih => exact .selected (ih h')
  | switched victim winner rest ih => exact .switched victim winner (ih h')
  | exited rest ih => exact .exited (ih h')
  | output rest ih => exact .output (ih h')

theorem mono {other : Pid → SchedulingClass → Prop}
    (known : ∀ id schedulingClass, classed id schedulingClass → other id schedulingClass)
    (h : Trail classed a events b) : Trail other a events b := by
  induction h with
  | nil a => exact .nil a
  | selected rest ih => exact .selected ih
  | switched victim winner rest ih => exact .switched (known _ _ victim) (known _ _ winner) ih
  | exited rest ih => exact .exited ih
  | output rest ih => exact .output ih

/-- A trail can be taken up at any event that is not a selection. -/
theorem of_append (h : Trail classed a events b) {before after : List Event} {event : Event}
    (split : events = before ++ event :: after) (other : ¬ event.isSelection) :
    Trail classed (holder a before) (event :: after) b := by
  induction h generalizing before with
  | nil a => simp at split
  | selected rest ih =>
      rcases List.cons_eq_append_iff.1 split with ⟨rfl, same⟩ | ⟨before, rfl, tail⟩
      · cases same
        exact (other rfl).elim
      · exact ih tail
  | switched victim winner rest ih =>
      rcases List.cons_eq_append_iff.1 split with ⟨rfl, same⟩ | ⟨before, rfl, tail⟩
      · cases same
        exact .switched victim winner rest
      · rcases List.cons_eq_append_iff.1 tail with ⟨rfl, same⟩ | ⟨before, rfl, rest⟩
        · cases same
          exact (other rfl).elim
        · exact ih rest
  | exited rest ih =>
      rcases List.cons_eq_append_iff.1 split with ⟨rfl, same⟩ | ⟨before, rfl, tail⟩
      · cases same
        exact .exited rest
      · exact ih tail
  | output rest ih =>
      rcases List.cons_eq_append_iff.1 split with ⟨rfl, same⟩ | ⟨before, rfl, tail⟩
      · cases same
        exact .output rest
      · exact (ih tail :)

/-- Only the process on the processor is sent back, ends or puts something out. -/
theorem eq_process {event : Event} (h : Trail classed a (event :: events) b)
    (other : ¬ event.isSelection) : a = some event.process := by
  cases h with
  | selected rest => exact (other rfl).elim
  | switched victim winner rest => rfl
  | exited rest => rfl
  | output rest => rfl

/-- A process is only sent back for a realtime one, which is selected at once. -/
theorem of_preempted {id : Pid} {reason : Preemption} {tick : Nat}
    (h : Trail classed a (.preempted id reason tick :: events) b) :
    classed id reason.victim ∧ ∃ next,
      (events.filter (·.isTransition)).head? = some (.selected next tick) ∧
        classed next .realtime := by
  cases h with
  | switched victim winner rest => exact ⟨victim, _, rfl, winner⟩

theorem outputs {id : Pid} {tick : Nat} (rest : Trail classed (some id) more b)
    (texts : List String) :
    Trail classed (some id) (texts.map (fun text => .output id text tick) ++ more) b := by
  induction texts with
  | nil => exact rest
  | cons text texts ih => exact .output ih

end Trail

end Event

/-! ## Classes -/

def ProcessTable.HasClass (table : ProcessTable H) (id : Pid)
    (schedulingClass : SchedulingClass) : Prop :=
  ∃ p ∈ table.processes, p.id = id ∧ p.schedulingClass = schedulingClass

namespace Process

variable {p : Process H}

theorem schedulingClass_of_isRealtime (realtime : p.isRealtime) :
    p.schedulingClass = .realtime := by
  unfold isRealtime at realtime
  cases same : p.schedulingClass with
  | realtime => rfl
  | bestEffort => simp [same, SchedulingClass.isRealtime] at realtime

/-- A process is sent back for the reason that its class gives. -/
theorem schedulingClass_eq_victim (p : Process H) : p.schedulingClass =
    (if p.isRealtime then Preemption.quantumExpired else .realtimeArrival).victim := by
  unfold isRealtime
  cases p.schedulingClass <;> rfl

end Process

namespace Kernel

/-! ## The process that holds the processor -/

/-- `k.HeldBy a`: if a process runs, it is `a`. -/
def HeldBy (k : Kernel H) (holder : Option Pid) : Prop :=
  ∀ p ∈ k.table.processes, p.isRunning → holder = some p.id

def SelectsAlive (k : Kernel H) : Prop :=
  ∀ p ∈ k.table.processes, k.scheduler.current = some p.id → ¬ p.isExited

variable {k l : Kernel H} {a b : Option Pid} {p q : Process H}

theorem HeldBy.of_idle (idle : ∀ p ∈ k.table.processes, ¬ p.isRunning) : k.HeldBy a :=
  fun p hp running => (idle p hp running).elim

/-! ## Scheduling -/

/-- With a live selection, vacating an idle processor records nothing. -/
theorem SelectsAlive.partings_of_idle (alive : k.SelectsAlive) (idle : k.table.running? = none) :
    k.partings = [] := by
  refine List.eq_nil_iff_forall_not_mem.2 fun event member => ?_
  rcases mem_partings member with ⟨r, hr, -⟩ | ⟨-, id, current, ⟨p, found, exited⟩, -⟩
  · rw [idle] at hr
    contradiction
  · refine alive p (ProcessTable.mem_of_find? found) ?_ exited
    rw [current, ProcessTable.find?_id found]

/-- What takes the place of the process that is not retained is realtime. -/
theorem Coherent.isRealtime_of_first (h : k.Coherent) {r : Process H}
    (hr : k.table.running? = some r) (given : ¬ k.Retains r) (first : p.IsFirst k.candidates) :
    p.isRealtime := by
  obtain ⟨hp, running⟩ := h.running?_eq_some.1 hr
  by_cases realtime : r.isRealtime
  · exact first.realtime r (mem_candidates.2 ⟨hp, .inr running⟩) realtime
  · refine Decidable.byContradiction fun effort => given (.inr (.inr ⟨realtime, ?_⟩))
    intro q hq ready realtime'
    exact effort (first.realtime q (mem_candidates.2 ⟨hq, .inl ready⟩) realtime')

theorem Coherent.trail_switches (h : k.Coherent) (alive : k.SelectsAlive) (held : k.HeldBy a) :
    ∃ b, Event.Trail k.table.HasClass a k.switches b ∧ k.schedule.2.HeldBy b := by
  rcases h.schedule_cases with ⟨r, -, -, kept⟩ | ⟨given, ⟨p, -, chooses⟩ | ⟨-, rests⟩⟩
  · rw [switches_of_kept kept, kept]
    exact ⟨a, .nil a, held⟩
  · refine ⟨some p.id, ?_, fun q hq running => ?_⟩
    · have hp := (mem_candidates.1 chooses.first.mem).1
      rw [chooses.switches]
      cases hr : k.table.running? with
      | none =>
          rw [alive.partings_of_idle hr]
          exact .selected (.nil _)
      | some r =>
          obtain ⟨hr', running⟩ := h.running?_eq_some.1 hr
          have winner := h.isRealtime_of_first hr (given r hr) chooses.first
          rw [held r hr' running]
          simp only [partings, hr]
          exact .switched ⟨r, hr', rfl, r.schedulingClass_eq_victim⟩
            ⟨p, hp, rfl, Process.schedulingClass_of_isRealtime winner⟩ (.nil _)
    · rw [← chooses.current]
      exact h.schedule.selected q hq running
  · have idle : ∀ p ∈ k.table.processes, ¬ p.isRunning := fun p hp running => by
      have member : p ∈ k.candidates := mem_candidates.2 ⟨hp, .inr running⟩
      rw [rests.candidates] at member
      contradiction
    rw [rests.switches, alive.partings_of_idle (List.find?_eq_none.2 idle)]
    refine ⟨a, .nil a, HeldBy.of_idle ?_⟩
    rwa [rests.table]

/-- Scheduling selects one process at most. -/
theorem Coherent.length_selections (h : k.Coherent) :
    (k.switches.filter (·.isSelection)).length ≤ 1 := by
  have none_parts : k.partings.filter (·.isSelection) = [] := by
    refine List.filter_eq_nil_iff.2 fun event member => ?_
    rcases mem_partings member with ⟨r, -, rfl⟩ | ⟨-, _, -, -, rfl⟩ <;> exact Bool.false_ne_true
  rcases h.schedule_cases with ⟨r, -, -, kept⟩ | ⟨-, ⟨p, -, chooses⟩ | ⟨-, rests⟩⟩
  · rw [switches_of_kept kept]
    exact Nat.zero_le 1
  · rw [chooses.switches, List.filter_append, none_parts]
    exact Nat.le_refl 1
  · rw [rests.switches, none_parts]
    exact Nat.zero_le 1

theorem tick_of_mem_switches (h : k.Coherent) {event : Event} (member : event ∈ k.switches) :
    event.tick = k.now := by
  rcases h.mem_switches member with ⟨-, parted⟩ | ⟨p, rfl, -⟩
  · rcases mem_partings parted with ⟨r, -, rfl⟩ | ⟨-, _, -, -, rfl⟩ <;> rfl
  · rfl

/-- After scheduling the selected process runs. -/
theorem Coherent.isRunning_of_selected (h : k.Coherent) (hq : q ∈ k.schedule.2.table.processes)
    (current : k.schedule.2.scheduler.current = some q.id) : q.isRunning := by
  rcases h.schedule_cases with ⟨r, hr, -, kept⟩ | ⟨-, ⟨p, -, chooses⟩ | ⟨-, rests⟩⟩
  · obtain ⟨hr', running⟩ := h.running?_eq_some.1 hr
    rw [kept] at hq current
    rw [h.selected r hr' running] at current
    rwa [← h.distinct.eq_of_id hr' hq (Option.some.inj current)]
  · rw [chooses.current] at current
    rw [chooses.table] at hq
    obtain ⟨r, -, rfl⟩ := List.mem_map.1 hq
    have same : r.id = p.id :=
      (Process.id_eq_of_origin (k.origin_handOver p r)).symm.trans (Option.some.inj current).symm
    rw [handOver, if_pos same]
    rfl
  · rw [rests.current] at current
    contradiction

/-! ## Executing and closing -/

section Executing

variable [SyscallHandler H]

theorem Coherent.trail_turned (h : k.Coherent) (held : k.HeldBy a)
    (classed : Pid → SchedulingClass → Prop) :
    ∃ b, Event.Trail classed a k.turned b ∧ k.execute.2.HeldBy b := by
  unfold turned
  cases hr : k.table.running? with
  | none =>
      have idle : ∀ p ∈ k.table.processes, ¬ p.isRunning := List.find?_eq_none.1 hr
      refine ⟨a, .nil a, HeldBy.of_idle ?_⟩
      rwa [(h.execute_of_idle hr).2.1]
  | some p =>
      obtain ⟨hp, running⟩ := h.running?_eq_some.1 hr
      have turns := h.turns_execute hr
      rw [held p hp running]
      -- After the turn the process runs, or none does.
      have held' : k.execute.2.HeldBy (if (p.turn k.now).isExited then none else some p.id) := by
        intro q hq running'
        rw [← turns.current]
        exact h.execute.selected q hq running'
      refine ⟨_, ?_, held'⟩
      show Event.Trail classed (some p.id) (p.turnEvents k.now) _
      unfold Process.turnEvents
      split
      · refine .outputs ?_ _
        split
        · exact .exited (.nil _)
        · exact .nil _
      · rename_i failed
        have exited : (p.turn k.now).isExited := by
          simp only [Process.turn, failed]
          rfl
        rw [if_pos exited]
        exact .exited (.nil _)

theorem Coherent.selectsAlive_execute (h : k.Coherent)
    (running : ∀ p ∈ k.table.processes, k.scheduler.current = some p.id → p.isRunning) :
    k.execute.2.SelectsAlive := by
  intro q hq current
  cases hr : k.table.running? with
  | none =>
      obtain ⟨-, table, same | ⟨same, -⟩⟩ := h.execute_of_idle hr
      · rw [table] at hq
        rw [same] at current
        exact Process.not_isExited_of_isRunning (running q hq current)
      · rw [same] at current
        contradiction
  | some p =>
      have turns := h.turns_execute hr
      rw [turns.current] at current
      split at current
      · contradiction
      · rename_i alive
        obtain ⟨r, hr', rfl⟩ := turns.table.mem hq
        obtain ⟨hp, running'⟩ := h.running?_eq_some.1 hr
        have same := Process.id_eq_of_origin (turns.table.origin r)
        have equal := h.distinct.eq_of_id hp hr' ((Option.some.inj current).trans same)
        subst equal
        rwa [if_pos running']

end Executing

theorem Coherent.trail_closings (h : k.Coherent) (held : k.HeldBy a)
    (classed : Pid → SchedulingClass → Prop) :
    ∃ b, Event.Trail classed a k.closings b ∧ k.close.HeldBy b := by
  unfold closings
  cases hf : k.finished? with
  | none =>
      have same : k.close = k := by simp only [Kernel.close, hf]
      rw [same]
      exact ⟨a, .nil a, held⟩
  | some p =>
      obtain ⟨hr, -⟩ := finished?_eq_some.1 hf
      obtain ⟨hp, running⟩ := h.running?_eq_some.1 hr
      rw [held p hp running]
      refine ⟨none, .exited (.nil _), fun q hq running' => ?_⟩
      have current := h.close.selected q hq running'
      rwa [h.scheduler_close hf] at current

theorem Coherent.selectsAlive_close (h : k.Coherent) (alive : k.SelectsAlive) :
    k.close.SelectsAlive := by
  cases hf : k.finished? with
  | none =>
      have same : k.close = k := by simp only [Kernel.close, hf]
      rwa [same]
  | some p =>
      intro q _ current
      rw [h.scheduler_close hf] at current
      contradiction

end Kernel

end Timeslice
