import Timeslice.Proofs.Kernel.Coherence
import Timeslice.Proofs.Machine.InPlace
import Timeslice.Proofs.Machine.Stimuli

/-! # Processes changed in place

A table stores the processor of a process after it stepped or was given a text, and stores none
where that failed. Here the processor is changed where it stands, in the first process of the id,
and a failure puts nothing back. It comes to the same, since a processor that fails is unchanged.
-/

namespace Timeslice

variable {H : Type}

namespace ProcessTable

variable {table : ProcessTable H} {id : Pid} {f : Process H → Process H}

def amend (table : ProcessTable H) (id : Pid) (f : Process H → Process H) : ProcessTable H :=
  { table with processes := table.processes.modify (table.processes.findIdx (·.id = id)) f }

theorem getElem?_findIdx (table : ProcessTable H) (id : Pid) :
    table.processes[table.processes.findIdx (·.id = id)]? = table.find? id :=
  List.find?_eq_getElem?_findIdx.symm

theorem amend_eq_self {p : Process H} (found : table.find? id = some p) (fixed : f p = p) :
    table.amend id f = table := by
  have kept : table.processes.modify (table.processes.findIdx (·.id = id)) f =
      table.processes := by
    refine List.ext_getElem? fun i => ?_
    rw [List.getElem?_modify]
    by_cases here : table.processes.findIdx (·.id = id) = i
    · rw [← here, getElem?_findIdx, found]
      simp [fixed]
    · simp [here]
  rw [amend, kept]

/-- An id denotes at most one process, which is the first. -/
theorem Distinct.amend_eq_update (h : table.Distinct) : table.amend id f = table.update id f := by
  have same : table.processes.modify (table.processes.findIdx (·.id = id)) f =
      table.processes.map fun p => if p.id = id then f p else p := by
    refine List.ext_getElem? fun i => ?_
    rw [List.getElem?_modify, List.getElem?_map]
    cases stands : table.processes[i]? with
    | none => rfl
    | some p =>
        have here : table.processes.findIdx (·.id = id) = i ↔ p.id = id := by
          constructor
          · rintro rfl
            rw [getElem?_findIdx] at stands
            exact find?_id stands
          · rintro rfl
            have found := table.getElem?_findIdx p.id
            rw [h.find?_of_mem (List.mem_of_getElem? stands), ← stands] at found
            have inside := (List.getElem?_eq_some_iff.1 stands).1
            exact ((List.getElem?_inj inside h.nodup.of_map).1 found.symm).symm
        simp [here]
  rw [amend, same, update]

variable [SyscallHandler H]

def supplyInPlace (table : ProcessTable H) (id : Pid) (text : String) :
    Except Fault Bool × ProcessTable H :=
  match table.find? id with
  | none => (.ok false, table)
  | some p =>
    let (answer, cpu) := (Routine.supply text).on p.cpu
    let table := table.amend id (·.withCpu cpu)
    match answer with
    | .ok true =>
      (.ok true, table.note .debug id "input delivered"
        [("value", String.ofList (Text.trim text.toList))])
    | answer => (answer, table)

theorem Distinct.supplyInPlace_eq (h : table.Distinct) (text : String) :
    table.supplyInPlace id text = table.supply id text := by
  unfold supplyInPlace supply
  cases found : table.find? id with
  | none => rfl
  | some p =>
      have takes := p.cpu.takes_supply text
      simp only [Routine.on_supply]
      generalize p.cpu.supply text = given at takes ⊢
      obtain ⟨answer, cpu⟩ := given
      cases takes with
      | unasked busy => rw [amend_eq_self found rfl]
      | unread waits parsed => rw [amend_eq_self found rfl]
      | taken waits parsed => rw [h.amend_eq_update]

end ProcessTable

namespace Kernel

variable [SyscallHandler H]

def executeInPlace (k : Kernel H) : Bool × Kernel H :=
  match k.scheduler.current with
  | none => (false, k)
  | some id =>
    match k.table.find? id with
    | none => (false, { k with scheduler := k.scheduler.select none })
    | some p =>
      if p.isRunning then
        let (answer, cpu) := Routine.step.on p.cpu
        let l := { k with table := k.table.amend id (·.withCpu cpu) }
        match answer with
        | .ok executed => (executed, l.collect id)
        | .error fault => (false, l.fail p fault)
      else (false, k)

theorem Coherent.executeInPlace_eq {k : Kernel H} (h : k.Coherent) :
    k.executeInPlace = k.execute := by
  simp only [executeInPlace, Kernel.execute, Routine.on_step]
  cases k.scheduler.current with
  | none => rfl
  | some id =>
      cases found : k.table.find? id with
      | none => simp only [found]
      | some p =>
          rcases stepped : p.cpu.step with ⟨fault | executed, cpu⟩
          · cases Cpu.steps_of_step stepped
            simp only [found, stepped,
              ProcessTable.amend_eq_self (f := (·.withCpu p.cpu)) found rfl]
          · simp only [found, stepped, h.distinct.amend_eq_update]

end Kernel

end Timeslice
