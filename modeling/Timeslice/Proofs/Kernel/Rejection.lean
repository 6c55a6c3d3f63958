import Timeslice.Proofs.Kernel.InPlace
import Timeslice.Proofs.Kernel.Operation
import Timeslice.Services

/-! # Requests that are rejected

Whatever refuses a request gives back what it was asked to change as it was, and that includes the
routines that change a processor or a process in place.
-/

namespace Timeslice

/-- A refusal comes with the state as it was. -/
def Traceless {S α : Type} (refusal : α → Prop) (s : S) (result : α × S) : Prop :=
  refusal result.1 → result.2 = s

variable {H : Type}

namespace Cpu

variable [SyscallHandler H] (cpu : Cpu H)

theorem traceless_step : Traceless (¬ ·.isOk) cpu cpu.step := by
  intro refused
  have steps := cpu.steps_step
  generalize cpu.step.1 = answer, cpu.step.2 = after at steps refused ⊢
  cases steps with
  | held suspended => rfl
  | ended awake past => exact absurd rfl refused
  | executed awake current done executes => exact absurd rfl refused
  | failed awake current fault => rfl

theorem traceless_supply (text : String) : Traceless (· ≠ .ok true) cpu (cpu.supply text) := by
  intro refused
  have takes := cpu.takes_supply text
  generalize (cpu.supply text).1 = answer, (cpu.supply text).2 = after at takes refused ⊢
  cases takes with
  | unasked busy => rfl
  | unread waits parsed => rfl
  | taken waits parsed => exact absurd rfl refused

end Cpu

namespace ProcessTable

variable (table : ProcessTable H)

theorem traceless_create (name source : String) (arrivalTime : Nat)
    (schedulingClass : SchedulingClass) (priority : Priority) :
    Traceless (¬ ·.isOk) table
      (table.create name source arrivalTime schedulingClass priority) := by
  unfold create
  split
  · exact fun _ => rfl
  · exact fun refused => absurd rfl refused

theorem traceless_block (id : Pid) (duration : Nat) :
    Traceless (· = false) table (table.block id duration) := by
  unfold block
  split
  · exact fun _ => rfl
  · split
    · exact fun refused => nomatch refused
    · exact fun _ => rfl

theorem traceless_terminate (id : Pid) : Traceless (· = false) table (table.terminate id) := by
  unfold terminate
  split
  · exact fun _ => rfl
  · exact fun refused => nomatch refused

variable [SyscallHandler H]

theorem traceless_supply (id : Pid) (text : String) :
    Traceless (· ≠ .ok true) table (table.supply id text) := by
  unfold supply
  split
  · exact fun _ => rfl
  · split
    · exact fun refused => absurd rfl refused
    · exact fun _ => rfl

theorem traceless_supplyInPlace (id : Pid) (text : String) :
    Traceless (· ≠ .ok true) table (table.supplyInPlace id text) := by
  unfold supplyInPlace
  cases found : table.find? id with
  | none => exact fun _ => rfl
  | some p =>
      have kept := p.cpu.traceless_supply text
      simp only [Routine.on_supply]
      generalize p.cpu.supply text = given at kept ⊢
      obtain ⟨answer, cpu⟩ := given
      split
      · exact fun refused => absurd rfl refused
      · intro refused
        exact amend_eq_self found (congrArg p.withCpu (kept refused))

end ProcessTable

theorem Scheduler.select_eq_self {s : Scheduler} {id : Option Pid} (current : s.current = id) :
    s.select id = s := by
  rw [select, ← current]

namespace Kernel

def selected? (k : Kernel H) : Option (Process H) := k.scheduler.current.bind k.table.find?

def dropUnknown (k : Kernel H) : Kernel H :=
  { k with
    scheduler := k.scheduler.select
      (k.scheduler.current.filter fun id => (k.table.find? id).isSome) }

/-- Executing does nothing with a selected process that does not run. -/
theorem execute_of_not_running [SyscallHandler H] {k : Kernel H}
    (idle : ∀ p, k.selected? = some p → ¬ p.isRunning) : k.execute = (false, k.dropUnknown) := by
  unfold execute dropUnknown
  cases current : k.scheduler.current with
  | none => rw [Option.filter_none, Scheduler.select_eq_self current]
  | some id =>
      cases found : k.table.find? id with
      | none =>
          simp only [found, Option.filter_some, Option.isSome_none, Bool.false_eq_true, if_false]
      | some p =>
          have selected : k.selected? = some p := by
            rw [selected?, current, Option.bind_some, found]
          simp only [found, Option.filter_some, Option.isSome_some, if_true, idle p selected,
            if_false, Bool.false_eq_true, Scheduler.select_eq_self current]

end Kernel

/-- A request that is rejected has changed nothing in a processor, in a table or in its log, and
where things are changed in place, nothing had to be put back. Executing a selected process that
does not run drops a selection that no process answers to, and does nothing else. -/
theorem rejections_leave_no_trace [SyscallHandler H] :
    (∀ cpu : Cpu H, Routine.step.on cpu = cpu.step ∧ Traceless (¬ ·.isOk) cpu cpu.step) ∧
    (∀ (cpu : Cpu H) text, (Routine.supply text).on cpu = cpu.supply text ∧
      Traceless (· ≠ .ok true) cpu (cpu.supply text)) ∧
    (∀ (table : ProcessTable H) name source arrivalTime schedulingClass priority,
      Traceless (¬ ·.isOk) table
        (table.create name source arrivalTime schedulingClass priority)) ∧
    (∀ (table : ProcessTable H) id duration,
      Traceless (· = false) table (table.block id duration)) ∧
    (∀ (table : ProcessTable H) id, Traceless (· = false) table (table.terminate id)) ∧
    (∀ (table : ProcessTable H) id text,
      (table.Distinct → table.supplyInPlace id text = table.supply id text) ∧
        Traceless (· ≠ .ok true) table (table.supply id text) ∧
          Traceless (· ≠ .ok true) table (table.supplyInPlace id text)) ∧
    ∀ k : Kernel H, (∀ p, k.selected? = some p → ¬ p.isRunning) →
      k.execute = (false, k.dropUnknown) :=
  ⟨fun cpu => ⟨Routine.on_step cpu, cpu.traceless_step⟩,
    fun cpu text => ⟨Routine.on_supply text cpu, cpu.traceless_supply text⟩,
    ProcessTable.traceless_create, ProcessTable.traceless_block, ProcessTable.traceless_terminate,
    fun table id text => ⟨fun distinct => distinct.supplyInPlace_eq text,
      table.traceless_supply id text, table.traceless_supplyInPlace id text⟩,
    fun _ => Kernel.execute_of_not_running⟩

def Program.dividing : Program where
  instructions := [.syscall (.immediate Services.readCode), .arithmetic .div (.immediate 0)]
  labels := []
  data := .empty

theorem rejections_leave_no_trace_dividing :
    let reading : Cpu Services := (Cpu.fresh .dividing (some ⟨.standard⟩)).step.2
    let dividing : Cpu Services := (reading.supply "6").2
    let k : Kernel Services := (Kernel.empty .debug).performAll
      [.create "" "" 0 .realtime .high, .advance, .schedule, .terminateUnrecorded 1]
    (¬ (reading.supply "six").1.isOk ∧ ((Routine.supply "six").on reading).2 = reading) ∧
    (¬ dividing.step.1.isOk ∧ (Routine.step.on dividing).2 = dividing) ∧
    (¬ (k.table.create "" ".data\nx six" 0 .realtime .high).1.isOk ∧
      (k.table.create "" ".data\nx six" 0 .realtime .high).2 = k.table) ∧
    ((k.table.block 1 5).1 = false ∧ (k.table.block 1 5).2 = k.table) ∧
    ((k.table.terminate 2).1 = false ∧ (k.table.terminate 2).2 = k.table) ∧
    ((k.table.supplyInPlace 1 "6").1 ≠ .ok true ∧ (k.table.supplyInPlace 1 "6").2 = k.table) ∧
    k.execute = (false, k.dropUnknown) := by
  intro reading dividing k
  obtain ⟨steps, supplies, creates, blocks, terminates, inputs, executes⟩ :=
    rejections_leave_no_trace (H := Services)
  have unread : ¬ (reading.supply "six").1.isOk := by decide +kernel
  have unaccepted : (reading.supply "six").1 ≠ .ok true := fun ok => unread (by rw [ok]; rfl)
  have faulty : ¬ dividing.step.1.isOk := by decide +kernel
  have unloaded : ¬ (k.table.create "" ".data\nx six" 0 .realtime .high).1.isOk := by
    decide +kernel
  have unblocked : (k.table.block 1 5).1 = false := by decide +kernel
  have unknown : (k.table.terminate 2).1 = false := by decide +kernel
  have told : (k.table.supplyInPlace 1 "6").1.toOption = some false := by decide +kernel
  have unasked : (k.table.supplyInPlace 1 "6").1 ≠ .ok true := by
    intro ok
    rw [ok] at told
    cases told
  refine ⟨⟨unread, ?_⟩, ⟨faulty, ?_⟩, ⟨unloaded, creates _ _ _ _ _ _ unloaded⟩,
    ⟨unblocked, blocks _ _ _ unblocked⟩, ⟨unknown, terminates _ _ unknown⟩,
    ⟨unasked, (inputs _ _ _).2.2 unasked⟩, executes k ?_⟩
  · rw [(supplies _ _).1]
    exact (supplies _ _).2 unaccepted
  · rw [(steps _).1]
    exact (steps _).2 faulty
  · intro p selected running
    have stopped : ¬ k.selected?.any (·.isRunning) := by decide +kernel
    rw [selected] at stopped
    exact stopped running

end Timeslice
