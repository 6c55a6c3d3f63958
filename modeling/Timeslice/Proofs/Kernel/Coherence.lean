import Timeslice.Kernel.Basic
import Timeslice.Proofs.Process.Table

/-! # Coherent kernels

The table and the scheduler are tied by one invariant: a process that runs is the selected one. The
converse fails, since blocking and ending a process leave the selection as it was. Running a turn is
described here in full; choosing the process that runs it has a module of its own.
-/

namespace Timeslice

variable {H : Type}

namespace Kernel

structure Coherent (k : Kernel H) : Prop where
  distinct : k.table.Distinct
  selected : ∀ p ∈ k.table.processes, p.isRunning → k.scheduler.current = some p.id

theorem coherent_reset (k : Kernel H) : Coherent { k with table := k.table.reset } where
  distinct := ⟨List.nodup_nil, fun _ hp => (List.not_mem_nil hp).elim⟩
  selected _ hp := (List.not_mem_nil hp).elim

theorem coherent_empty (minimum : Log.Level) : (empty minimum : Kernel H).Coherent :=
  coherent_reset (empty minimum)

namespace Coherent

variable {k l : Kernel H}

theorem eq_of_running (h : k.Coherent) {p q : Process H} (hp : p ∈ k.table.processes)
    (hq : q ∈ k.table.processes) (running : p.isRunning) (running' : q.isRunning) : p = q := by
  have hid : some p.id = some q.id :=
    (h.selected p hp running).symm.trans (h.selected q hq running')
  exact h.distinct.eq_of_id hp hq (Option.some.inj hid)

theorem running?_eq_some (h : k.Coherent) {p : Process H} :
    k.table.running? = some p ↔ p ∈ k.table.processes ∧ p.isRunning := by
  constructor
  · intro hr
    exact ⟨List.mem_of_find?_eq_some hr, List.find?_some hr⟩
  · rintro ⟨hp, running⟩
    cases hr : k.table.running? with
    | none => exact absurd running (List.find?_eq_none.1 hr p hp)
    | some q =>
        rw [h.eq_of_running (List.mem_of_find?_eq_some hr) hp (List.find?_some hr) running]

theorem running?_of_selected (h : k.Coherent) {p : Process H} {id : Pid}
    (hp : k.table.find? id = some p) (running : p.isRunning) : k.table.running? = some p :=
  h.running?_eq_some.2 ⟨ProcessTable.mem_of_find? hp, running⟩

theorem inState_running (h : k.Coherent) {p : Process H} (hp : p ∈ k.table.processes)
    (running : p.isRunning) : k.table.inState .running = [p] := by
  have nodup : (k.table.inState .running).Nodup := h.distinct.nodup.of_map.filter _
  have member : p ∈ k.table.inState .running := List.mem_filter.2 ⟨hp, running⟩
  have all : ∀ q ∈ k.table.inState .running, q = p := fun q hq =>
    h.eq_of_running (List.mem_filter.1 hq).1 hp (List.mem_filter.1 hq).2 running
  rw [List.eq_replicate_of_mem all, List.nodup_replicate] at nodup
  have length : (k.table.inState .running).length = 1 :=
    Nat.le_antisymm nodup (List.length_pos_of_mem member)
  rw [List.eq_replicate_of_mem all, length]
  rfl

theorem length_running (h : k.Coherent) : (k.table.inState .running).length ≤ 1 := by
  cases hl : k.table.inState .running with
  | nil => exact Nat.zero_le 1
  | cons p rest =>
      have member : p ∈ k.table.inState .running := by simp [hl]
      obtain ⟨hp, running⟩ := List.mem_filter.1 member
      rw [← hl, h.inState_running hp running]
      exact Nat.le_refl 1

/-- While one process runs, a function on the running process is one on its id. -/
theorem only_running (h : k.Coherent) {p : Process H} (hr : k.table.running? = some p)
    (f : Process H → Process H) {q : Process H} (hq : q ∈ k.table.processes) :
    Process.only p.id f q = if q.isRunning then f q else q := by
  obtain ⟨hp, running⟩ := h.running?_eq_some.1 hr
  by_cases hid : q.id = p.id
  · rw [Process.only_of_eq f hid, h.distinct.eq_of_id hq hp hid, if_pos running]
  · have idle : ¬ q.isRunning := fun hq' => hid (congrArg _ (h.eq_of_running hq hp hq' running))
    rw [Process.only_of_ne f hid, if_neg idle]

/-- Operations keep a kernel coherent that leave the selection to every process they leave
running. -/
theorem becomes (h : k.Coherent) {f : Process H → Process H} (ht : k.table.Becomes f l.table)
    (kept : ∀ p ∈ k.table.processes, (f p).isRunning → l.scheduler.current = some p.id) :
    l.Coherent where
  distinct := ht.distinct h.distinct
  selected q hq running := by
    obtain ⟨p, hp, rfl⟩ := ht.mem hq
    rw [kept p hp running, Process.id_eq_of_origin (ht.origin p)]

/-- The same for operations on the table alone, which start no process. -/
theorem table_becomes (h : k.Coherent) {f : Process H → Process H} {table : ProcessTable H}
    (ht : k.table.Becomes f table) (started : ∀ p, (f p).isRunning → p.isRunning) :
    Coherent { k with table } :=
  h.becomes ht fun p hp running => h.selected p hp (started p running)

end Coherent

theorem isRunning_of_only {id : Pid} {f : Process H → Process H}
    (hf : ∀ p, (f p).isRunning → p.isRunning) {p : Process H}
    (h : (Process.only id f p).isRunning) : p.isRunning := by
  unfold Process.only at h
  split at h
  · exact hf p h
  · exact h

/-! ## Operations on the table -/

namespace Coherent

variable {k : Kernel H}

theorem advance (h : k.Coherent) : k.advance.Coherent where
  distinct := (k.table.becomes_advance).distinct ⟨h.distinct.nodup, h.distinct.below⟩
  selected q hq running := by
    obtain ⟨p, hp, rfl⟩ := (k.table.becomes_advance).mem hq
    rw [Process.isRunning_elapse] at running
    rw [Process.id_eq_of_origin (Process.origin_elapse p _)]
    exact h.selected p hp running

theorem create (h : k.Coherent) (name source : String) (arrivalTime : Nat)
    (schedulingClass : SchedulingClass) (priority : Priority) :
    Coherent { k with
      table := (k.table.create name source arrivalTime schedulingClass priority).2 } where
  distinct := h.distinct.create name source arrivalTime schedulingClass priority
  selected q hq running := by
    unfold ProcessTable.create at hq
    split at hq
    · exact h.selected q hq running
    · rename_i p created
      obtain ⟨program, -, rfl⟩ := Process.eq_of_create created
      rcases List.mem_append.1 hq with hq | hq
      · exact h.selected q hq running
      · rw [List.mem_singleton.1 hq] at running
        simp [Process.isRunning] at running

theorem block (h : k.Coherent) (id : Pid) (duration : Nat) :
    Coherent { k with table := (k.table.block id duration).2 } :=
  h.table_becomes (h.distinct.becomes_block id duration) fun _ =>
    isRunning_of_only fun _ => Process.isRunning_of_feel

theorem terminateTable (h : k.Coherent) (id : Pid) :
    Coherent { k with table := (k.table.terminate id).2 } :=
  h.table_becomes (k.table.becomes_terminate id) fun _ =>
    isRunning_of_only fun p running => (p.not_isRunning_terminate running).elim

theorem applyEffects (h : k.Coherent) (id : Pid) :
    Coherent { k with table := (k.table.applyEffects id).2 } :=
  h.table_becomes (h.distinct.becomes_applyEffects id) fun _ =>
    isRunning_of_only fun _ => Process.isRunning_of_absorb

theorem setHandler (h : k.Coherent) (id : Pid) (handler : H) :
    Coherent { k with table := (k.table.setHandler id handler).2 } :=
  h.table_becomes (k.table.becomes_setHandler id handler) fun p running => by
    unfold Process.only at running
    split at running <;> exact running

theorem supply [SyscallHandler H] (h : k.Coherent) (id : Pid) (text : String) :
    Coherent { k with table := (k.table.supply id text).2 } :=
  h.table_becomes (h.distinct.becomes_supply id text) fun _ =>
    isRunning_of_only fun p running => Process.isRunning_receive text p ▸ running

end Coherent

/-! ## Ending a process -/

theorem table_terminate (k : Kernel H) (id : Pid) (reason : ExitCause) :
    (k.terminate id reason).2.table = (k.table.terminate id).2 := by
  unfold terminate ProcessTable.terminate
  cases k.table.find? id <;> rfl

theorem terminate_of_find? {k : Kernel H} {id : Pid} {p : Process H}
    (h : k.table.find? id = some p) (reason : ExitCause) :
    (k.terminate id reason).2.scheduler =
      (k.scheduler.deselect id).record (.exited id reason k.now) := by
  simp only [terminate, ProcessTable.terminate, h]
  rfl

theorem current_deselect (s : Scheduler) (id : Pid) :
    (s.deselect id).current = s.current.filter (· ≠ id) := by
  unfold Scheduler.deselect
  cases hc : s.current with
  | none => simp [hc]
  | some current => by_cases hid : current = id <;> simp [hid, hc, Option.filter]

theorem Coherent.terminate {k : Kernel H} (h : k.Coherent) (id : Pid) (reason : ExitCause) :
    (k.terminate id reason).2.Coherent := by
  have ht := k.table.becomes_terminate id
  rw [← table_terminate k id reason] at ht
  refine h.becomes ht fun p hp running => ?_
  have hid : p.id ≠ id := fun hid => by
    rw [Process.only_of_eq _ hid] at running
    exact p.not_isRunning_terminate running
  rw [Process.only_of_ne _ hid] at running
  have current := h.selected p hp running
  unfold Kernel.terminate
  split
  · exact current
  · rw [recordExit, Scheduler.record, current_deselect, current]
    simp [hid]

theorem table_collect (k : Kernel H) (id : Pid) :
    (k.collect id).table = (k.table.applyEffects id).2 := by
  simp only [collect]
  split <;> rfl

theorem scheduler_collect {k : Kernel H} {id : Pid} {p : Process H} (h : k.table.Distinct)
    (hp : k.table.find? id = some p) :
    (k.collect id).scheduler =
      if (p.absorb k.now).isExited then
        ((k.scheduler.recordAll (p.cpu.texts.map fun text => .output id text k.now)).select
          none).record (.exited id .normal k.now)
      else k.scheduler.recordAll (p.cpu.texts.map fun text => .output id text k.now) := by
  have applied := h.becomes_applyEffects id
  have found : (k.table.applyEffects id).2.find? id = some (p.absorb k.now) := by
    rw [applied.find?, hp, Option.map_some, Process.only_of_eq _ (ProcessTable.find?_id hp)]
    rfl
  simp only [collect, found, Option.any_some, ProcessTable.texts_applyEffects hp]
  split
  · simp only [recordExit, now, applied.now]
  · rfl

end Kernel

/-! ## One turn on the processor -/

def Process.turnEvents [SyscallHandler H] (now : Nat) (p : Process H) : List Event :=
  match p.cpu.step with
  | (.ok _, cpu) =>
    cpu.texts.map (fun text => .output p.id text now)
      ++ if (p.turn now).isExited then [.exited p.id .normal now] else []
  | (.error _, _) => [.exited p.id .failed now]

/-- A turn puts texts out and may end. -/
theorem Process.mem_turnEvents [SyscallHandler H] {now : Nat} {p : Process H} {event : Event}
    (member : event ∈ p.turnEvents now) :
    (∃ text, event = .output p.id text now) ∨ ∃ cause, event = .exited p.id cause now := by
  unfold turnEvents at member
  split at member
  · rcases List.mem_append.1 member with output | exit
    · obtain ⟨text, -, rfl⟩ := List.mem_map.1 output
      exact .inl ⟨text, rfl⟩
    · split at exit
      · exact .inr ⟨_, List.mem_singleton.1 exit⟩
      · contradiction
  · exact .inr ⟨_, List.mem_singleton.1 member⟩

namespace Kernel

variable [SyscallHandler H]

/-- `k.Turns p l`: `l` is `k` after process `p`, which was running, has had one turn. -/
structure Turns (k : Kernel H) (p : Process H) (l : Kernel H) : Prop where
  table : k.table.Becomes (fun q => if q.isRunning then q.turn k.now else q) l.table
  settings : l.scheduler.settings = k.scheduler.settings
  current : l.scheduler.current = if (p.turn k.now).isExited then none else some p.id
  audit : l.scheduler.audit = k.scheduler.audit ++ p.turnEvents k.now

variable {k : Kernel H} {p : Process H}

/-- What is done to the process on the processor is a turn if it is one for that process. -/
theorem Coherent.becomes_turn (h : k.Coherent) (hr : k.table.running? = some p)
    {f : Process H → Process H} {table : ProcessTable H}
    (ht : k.table.Becomes (Process.only p.id f) table) (hf : f p = p.turn k.now) :
    k.table.Becomes (fun q => if q.isRunning then q.turn k.now else q) table := by
  have found := h.distinct.find?_of_mem (h.running?_eq_some.1 hr).1
  refine (ht.congr_only h.distinct found (Process.origin_turn k.now) hf).congr (fun q => ?_)
    fun q hq => h.only_running hr _ hq
  split
  · exact Process.origin_turn k.now q
  · rfl

theorem Coherent.turns_of_ok (h : k.Coherent) (hr : k.table.running? = some p)
    {executed : Bool} {cpu : Cpu H} (stepped : p.cpu.step = (.ok executed, cpu)) :
    k.Turns p (collect ⟨k.table.update p.id (·.withCpu cpu), k.scheduler⟩ p.id) := by
  obtain ⟨hp, running⟩ := h.running?_eq_some.1 hr
  have stored := k.table.becomes_update p.id (f := (·.withCpu cpu)) fun _ => rfl
  have distinct := stored.distinct h.distinct
  have applied := distinct.becomes_applyEffects p.id
  have found : (k.table.update p.id (·.withCpu cpu)).find? p.id = some (p.withCpu cpu) := by
    rw [stored.find?, h.distinct.find?_of_mem hp, Option.map_some, Process.only_of_eq _ rfl]
  have turn : (p.withCpu cpu).absorb k.now = p.turn k.now := by
    simp only [Process.turn, stepped]
  have time : now ⟨k.table.update p.id (·.withCpu cpu), k.scheduler⟩ = k.now := stored.now
  have scheduler := scheduler_collect
    (k := ⟨k.table.update p.id (·.withCpu cpu), k.scheduler⟩) distinct found
  rw [time, turn] at scheduler
  constructor
  · rw [table_collect]
    refine h.becomes_turn hr (stored.trans_only applied (fun _ => rfl)
      (Process.origin_absorb _)) ?_
    rw [stored.now]
    exact turn
  · rw [scheduler]
    split <;> rfl
  · rw [scheduler]
    split
    · rfl
    · exact h.selected p hp running
  · rw [scheduler]
    simp only [Process.turnEvents, stepped]
    split
    · exact List.append_assoc _ _ _
    · rw [List.append_nil]
      rfl

theorem Coherent.turns_of_error (h : k.Coherent) (hr : k.table.running? = some p)
    {fault : Fault} {cpu : Cpu H} (failed : p.cpu.step = (.error fault, cpu)) :
    k.Turns p (k.fail p fault) := by
  obtain ⟨hp, running⟩ := h.running?_eq_some.1 hr
  have found := h.distinct.find?_of_mem hp
  have turn : p.terminate = p.turn k.now := by simp only [Process.turn, failed]
  have scheduler (s : Scheduler) :=
    terminate_of_find? (k := ⟨k.table, s⟩) found .failed
  have exited : (p.turn k.now).isExited := by rw [← turn]; rfl
  simp only [fail]
  constructor
  · rw [table_terminate]
    exact h.becomes_turn hr (k.table.becomes_terminate p.id) turn
  · rw [scheduler, Scheduler.record, Scheduler.deselect]
    split <;> rfl
  · rw [scheduler, Scheduler.record, current_deselect, if_pos exited]
    simp [Scheduler.note, h.selected p hp running, Option.filter]
  · rw [scheduler, Scheduler.record, Scheduler.deselect]
    simp only [Process.turnEvents, failed]
    split <;> rfl

theorem Coherent.turns_execute (h : k.Coherent) (hr : k.table.running? = some p) :
    k.Turns p k.execute.2 := by
  obtain ⟨hp, running⟩ := h.running?_eq_some.1 hr
  simp only [execute, h.selected p hp running, h.distinct.find?_of_mem hp, running, if_true]
  split
  · exact h.turns_of_ok hr ‹_›
  · exact h.turns_of_error hr ‹_›

theorem Coherent.execute_of_idle (h : k.Coherent) (hr : k.table.running? = none) :
    k.execute.1 = false ∧ k.execute.2.table = k.table ∧
      (k.execute.2.scheduler = k.scheduler ∨
        k.execute.2.scheduler = k.scheduler.select none ∧
          ∃ id, k.scheduler.current = some id ∧ k.table.find? id = none) := by
  unfold execute
  split
  · exact ⟨rfl, rfl, .inl rfl⟩
  · rename_i id current
    split
    · rename_i missing
      exact ⟨rfl, rfl, .inr ⟨rfl, id, current, missing⟩⟩
    · rename_i p found
      split
      · rename_i running
        rw [h.running?_of_selected found running] at hr
        contradiction
      · exact ⟨rfl, rfl, .inl rfl⟩

def turned (k : Kernel H) : List Event :=
  match k.table.running? with
  | some p => p.turnEvents k.now
  | none => []

theorem mem_turned {event : Event} (member : event ∈ k.turned) :
    (∃ id text, event = .output id text k.now) ∨ ∃ id cause, event = .exited id cause k.now := by
  unfold turned at member
  split at member
  · exact (Process.mem_turnEvents member).imp (.intro _) (.intro _)
  · contradiction

theorem Coherent.audit_execute (h : k.Coherent) :
    k.execute.2.scheduler.audit = k.scheduler.audit ++ k.turned := by
  unfold turned
  cases hr : k.table.running? with
  | none =>
      obtain ⟨-, -, kept | ⟨kept, -⟩⟩ := h.execute_of_idle hr
      · rw [kept, List.append_nil]
      · rw [kept, Scheduler.select, List.append_nil]
  | some p => exact (h.turns_execute hr).audit

/-- Executing gives every running process one turn, whether there is one or not. -/
theorem Coherent.becomes_execute (h : k.Coherent) :
    k.table.Becomes (fun q => if q.isRunning then q.turn k.now else q) k.execute.2.table := by
  cases hr : k.table.running? with
  | none =>
      obtain ⟨-, table, -⟩ := h.execute_of_idle hr
      have idle : ∀ p ∈ k.table.processes, ¬ p.isRunning := List.find?_eq_none.1 hr
      rw [table]
      refine (ProcessTable.Becomes.refl k.table).congr (fun q => ?_) fun q hq => ?_
      · split
        · exact Process.origin_turn k.now q
        · rfl
      · rw [if_neg (idle q hq)]
  | some p => exact (h.turns_execute hr).table

theorem Coherent.mem_execute (h : k.Coherent) {p : Process H} (hp : p ∈ k.table.processes)
    (idle : ¬ p.isRunning) : p ∈ k.execute.2.table.processes := by
  have member := h.becomes_execute.mem_of_mem hp
  rwa [if_neg idle] at member

theorem Coherent.execute (h : k.Coherent) : k.execute.2.Coherent := by
  refine h.becomes h.becomes_execute fun q hq running => ?_
  have running' : q.isRunning := by
    split at running
    · assumption
    · exact running
  have hr := h.running?_eq_some.2 ⟨hq, running'⟩
  rw [if_pos running'] at running
  rw [(h.turns_execute hr).current, if_neg (Process.not_isExited_of_isRunning running)]

end Kernel

end Timeslice
