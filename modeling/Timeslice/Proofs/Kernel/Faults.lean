import Timeslice.Proofs.Kernel.Scheduling

/-! # Faults on record

An instruction that fails leaves an error in the log of the scheduler. Nothing else that a kernel
does is logged as an error, and errors are kept at every level.
-/

namespace Timeslice

variable {H : Type}

namespace Log

def Entry.isError (entry : Entry) : Bool := entry.level = .error

def errors (log : Log) : List Entry := log.entries.filter (·.isError)

/-- No minimum level is above that of errors. -/
theorem keeps_of_isError (log : Log) {entry : Entry} (error : entry.isError) : log.keeps entry := by
  have level : entry.level = .error := of_decide_eq_true error
  rw [keeps, level]
  cases log.minimum <;> rfl

theorem errors_add (log : Log) (entry : Entry) :
    (log.add entry).errors = log.errors ++ [entry].filter (·.isError) := by
  rw [errors, errors, entries_add, List.filter_append, List.filter_filter]
  congr 1
  refine List.filter_congr fun e _ => ?_
  cases error : e.isError with
  | false => rfl
  | true => rw [log.keeps_of_isError error, Bool.true_and]

theorem errors_add_of_harmless (log : Log) {entry : Entry} (harmless : ¬ entry.isError) :
    (log.add entry).errors = log.errors := by
  have none_added : [entry].filter (·.isError) = [] :=
    List.filter_eq_nil_iff.2 fun e member => List.mem_singleton.1 member ▸ harmless
  rw [errors_add, none_added, List.append_nil]

theorem errors_addAll (log : Log) {entries : List Entry}
    (harmless : ∀ entry ∈ entries, ¬ entry.isError) : (log.addAll entries).errors = log.errors := by
  have none_added : (entries.filter log.keeps).filter (·.isError) = [] :=
    List.filter_eq_nil_iff.2 fun entry member => harmless entry (List.mem_filter.1 member).1
  rw [errors, addAll_eq, List.filter_append, none_added, List.append_nil]
  rfl

end Log

namespace ProcessTable

variable {table : ProcessTable H}

theorem errors_note {level : Log.Level} (harmless : level ≠ .error) (id : Pid) (message : String)
    (fields : List (String × String)) :
    (table.note level id message fields).log.errors = table.log.errors :=
  Log.errors_add_of_harmless _ fun error => harmless (of_decide_eq_true error)

theorem errors_advance (table : ProcessTable H) : table.advance.log.errors = table.log.errors := by
  refine Log.errors_addAll _ fun entry member => ?_
  rcases List.mem_append.1 member with arrival | waking
  · obtain ⟨p, -, rfl⟩ := List.mem_map.1 arrival
    exact Bool.false_ne_true
  · obtain ⟨p, -, rfl⟩ := List.mem_map.1 waking
    exact Bool.false_ne_true

theorem errors_block (table : ProcessTable H) (id : Pid) (duration : Nat) :
    (table.block id duration).2.log.errors = table.log.errors := by
  unfold block
  split
  · rfl
  · split
    · exact errors_note (by decide) _ _ _
    · rfl

theorem errors_terminate (table : ProcessTable H) (id : Pid) :
    (table.terminate id).2.log.errors = table.log.errors := by
  unfold terminate
  split
  · rfl
  · exact errors_note (by decide) _ _ _

theorem errors_foldl_apply (id : Pid) (effects : List Effect) (table : ProcessTable H) :
    (effects.foldl (apply id) table).log.errors = table.log.errors := by
  induction effects generalizing table with
  | nil => rfl
  | cons effect rest ih =>
      rw [List.foldl_cons, ih]
      cases effect with
      | exit => exact table.errors_terminate id
      | block ticks => exact table.errors_block id ticks
      | output text => rfl

theorem errors_applyEffects (table : ProcessTable H) (id : Pid) :
    (table.applyEffects id).2.log.errors = table.log.errors := by
  unfold applyEffects
  split
  · rfl
  · exact errors_foldl_apply id _ _

theorem errors_supply [SyscallHandler H] (table : ProcessTable H) (id : Pid) (text : String) :
    (table.supply id text).2.log.errors = table.log.errors := by
  unfold supply
  split
  · rfl
  · split
    · exact errors_note (by decide) _ _ _
    · rfl

theorem errors_create (table : ProcessTable H) (name source : String) (arrivalTime : Nat)
    (schedulingClass : SchedulingClass) (priority : Priority) :
    (table.create name source arrivalTime schedulingClass priority).2.log.errors =
      table.log.errors := by
  unfold create
  split
  · rfl
  · exact errors_note (by decide) _ _ _

end ProcessTable

namespace Kernel

/-! ## What is no error -/

structure Calm (k l : Kernel H) : Prop where
  table : l.table.log.errors = k.table.log.errors
  scheduler : l.scheduler.log.errors = k.scheduler.log.errors

variable {k l m : Kernel H}

theorem Calm.refl (k : Kernel H) : k.Calm k := ⟨rfl, rfl⟩

theorem Calm.trans (h : k.Calm l) (h' : l.Calm m) : k.Calm m :=
  ⟨h'.table.trans h.table, h'.scheduler.trans h.scheduler⟩

theorem log_deselect (s : Scheduler) (id : Pid) : (s.deselect id).log = s.log := by
  unfold Scheduler.deselect
  split <;> rfl

theorem calm_preempt (k : Kernel H) (id : Pid) (reason : Preemption) :
    k.Calm (k.preempt id reason) where
  table := rfl
  scheduler := by
    rw [← log_deselect k.scheduler id]
    exact Log.errors_add_of_harmless _ Bool.false_ne_true

theorem calm_dispatch (k : Kernel H) (p : Process H) : k.Calm (k.dispatch p) where
  table := rfl
  scheduler := Log.errors_add_of_harmless _ Bool.false_ne_true

theorem calm_dropStale (k : Kernel H) : k.Calm k.dropStale := by
  unfold dropStale
  split
  · exact .refl k
  · split <;> exact ⟨rfl, rfl⟩

theorem calm_fill (k : Kernel H) : k.Calm k.fill := by
  unfold fill
  split
  · exact .refl k
  · split
    · exact k.calm_dispatch _
    · exact .refl k

theorem calm_vacated (k : Kernel H) : k.Calm k.vacated := by
  unfold vacated
  split
  · exact k.calm_preempt _ _
  · exact k.calm_dropStale

theorem Coherent.calm_schedule (h : k.Coherent) : k.Calm k.schedule.2 := by
  by_cases kept : ∃ r, k.table.running? = some r ∧ k.Retains r
  · obtain ⟨r, hr, kept⟩ := kept
    rw [h.schedule_of_retains hr kept]
    exact .refl k
  · rw [h.schedule_of_given fun r hr held => kept ⟨r, hr, held⟩]
    exact k.calm_vacated.trans k.vacated.calm_fill

theorem calm_advance (k : Kernel H) : k.Calm k.advance := ⟨k.table.errors_advance, rfl⟩

theorem calm_terminate (k : Kernel H) (id : Pid) (reason : ExitCause) :
    k.Calm (k.terminate id reason).2 := by
  refine ⟨?_, ?_⟩
  · rw [table_terminate]
    exact k.table.errors_terminate id
  · unfold terminate
    split
    · rfl
    · exact congrArg Log.errors (log_deselect k.scheduler id)

theorem calm_collect (k : Kernel H) (id : Pid) : k.Calm (k.collect id) := by
  refine ⟨?_, ?_⟩
  · rw [table_collect]
    exact k.table.errors_applyEffects id
  · simp only [collect]
    split <;> rfl

end Kernel

/-! ## Errors -/

def Process.faults [SyscallHandler H] (now : Nat) (p : Process H) : List Log.Entry :=
  match p.cpu.step with
  | (.ok _, _) => []
  | (.error fault, _) => [.of .error p.id now fault.message [
      ("pc", Text.decimal p.cpu.programCounter),
      ("instruction", (p.cpu.current?.map (·.text)).getD "")]]

theorem Process.length_faults [SyscallHandler H] (p : Process H) (now : Nat) :
    (p.faults now).length = if p.cpu.step.1.isOk then 0 else 1 := by
  unfold faults
  split <;> rename_i stepped <;> rw [stepped] <;> rfl

namespace Kernel

variable [SyscallHandler H] {k : Kernel H}

def faults (k : Kernel H) : List Log.Entry :=
  match k.table.running? with
  | some p => p.faults k.now
  | none => []

theorem source_of_faults {entry : Log.Entry} (member : entry ∈ k.faults) :
    ∃ p, k.table.running? = some p ∧ entry.source = some p.id := by
  unfold faults at member
  split at member
  · rename_i p hr
    refine ⟨p, hr, ?_⟩
    unfold Process.faults at member
    split at member
    · contradiction
    · rw [List.mem_singleton.1 member]
      rfl
  · contradiction

theorem errors_fail (k : Kernel H) {p : Process H} {fault : Fault} {cpu : Cpu H}
    (failed : p.cpu.step = (.error fault, cpu)) :
    (k.fail p fault).table.log.errors = k.table.log.errors ∧
      (k.fail p fault).scheduler.log.errors = k.scheduler.log.errors ++ p.faults k.now := by
  have calm (k : Kernel H) := k.calm_terminate p.id .failed
  simp only [fail, Process.faults, failed]
  refine ⟨(calm _).table, (calm _).scheduler.trans ?_⟩
  rw [Scheduler.note, Log.errors_add]
  rfl

theorem Coherent.errors_execute (h : k.Coherent) :
    k.execute.2.table.log.errors = k.table.log.errors ∧
      k.execute.2.scheduler.log.errors = k.scheduler.log.errors ++ k.faults := by
  unfold faults
  cases hr : k.table.running? with
  | none =>
      obtain ⟨-, table, kept⟩ := h.execute_of_idle hr
      rw [table, List.append_nil]
      refine ⟨rfl, ?_⟩
      rcases kept with kept | ⟨kept, -⟩ <;> rw [kept]
      rfl
  | some p =>
      obtain ⟨hp, running⟩ := h.running?_eq_some.1 hr
      simp only [Kernel.execute, h.selected p hp running, h.distinct.find?_of_mem hp, running,
        if_true]
      split
      · rename_i executed cpu stepped
        have calm := calm_collect
          ({ k with table := k.table.update p.id (·.withCpu cpu) } : Kernel H) p.id
        simp only [Process.faults, stepped, List.append_nil]
        exact ⟨calm.table, calm.scheduler⟩
      · rename_i failed
        exact k.errors_fail failed

end Kernel

end Timeslice
