import Timeslice.Proofs.Kernel.Operation
import Timeslice.Proofs.Process.Lifecycle

/-! # What an operation does to each process

`Change` lists all that one operation can do to one process, together with the blocks that it puts
the process under; `Coherent.evolves` shows that nothing else happens. What operations keep is
proved from the list, and no operation is opened again for it.
-/

namespace Timeslice

variable {H : Type}

/-- A block that a process was put under at `since`. -/
structure Stay where
  process : Pid
  since : Nat
  duration : Nat
  deriving DecidableEq

theorem Stay.filter_map_mk (id : Pid) (now : Nat) (durations : List Nat) (other : Pid) :
    (durations.map (Stay.mk id now)).filter (·.process = other) =
      if id = other then durations.map (Stay.mk id now) else [] := by
  by_cases same : id = other
  · rw [if_pos same]
    refine List.filter_eq_self.2 fun stay member => ?_
    obtain ⟨duration, -, rfl⟩ := List.mem_map.1 member
    exact decide_eq_true same
  · rw [if_neg same]
    refine List.filter_eq_nil_iff.2 fun stay member => ?_
    obtain ⟨duration, -, rfl⟩ := List.mem_map.1 member
    exact fun equal => same (of_decide_eq_true equal)

structure Birth where
  process : Pid
  now : Nat
  arrivalTime : Nat
  deriving DecidableEq

namespace Operation

def isReset : Operation H → Bool
  | reset => true
  | _ => false

def mayBlock : Operation H → Bool
  | execute | block .. | applyEffects _ => true
  | _ => false

def mayEnd : Operation H → Bool
  | execute | terminateUnrecorded _ | terminate .. | applyEffects _ => true
  | _ => false

def replaces : Operation H → Bool
  | replaceCpu .. => true
  | _ => false

def enters : Operation H → Bool
  | supply .. | replaceCpu .. => true
  | _ => false

/-- Whether an operation may write what the program of process `p` computes with. -/
def writes (operation : Operation H) (p : Process H) : Bool :=
  match operation with
  | execute => p.isRunning
  | operation => operation.enters

end Operation

namespace Kernel

def births (k : Kernel H) : Operation H → List Birth
  | .create name source arrivalTime schedulingClass priority =>
    match (k.table.create name source arrivalTime schedulingClass priority).1 with
    | .ok id => [⟨id, k.now, arrivalTime⟩]
    | .error _ => []
  | _ => []

/-- `k.Change operation p stays q`: the operation on `k` can turn process `p` into `q`, after it has
put the process under the blocks of `stays`. -/
inductive Change (k : Kernel H) (operation : Operation H) (p : Process H) :
    List Stay → Process H → Prop
  | elapsed (due : operation = .advance) : k.Change operation p [] (p.elapse k.advance.now)
  | dispatched (due : operation = .schedule) (able : p.isReady ∨ p.isRunning) :
      k.Change operation p [] (p.dispatch (k.granted p))
  | sentBack (due : operation = .schedule) (running : p.isRunning) :
      k.Change operation p [] p.sendBack
  | spared (untimed : operation ≠ .advance) {cpu : Cpu H}
      (goes : operation.replaces ∨ p.cpu.Continues cpu) : k.Change operation p [] (p.withCpu cpu)
  | blocked (may : operation.mayBlock) (running : p.isRunning) (duration : Nat) {cpu : Cpu H}
      (goes : (p.block k.now duration).cpu.Continues cpu) :
      k.Change operation p [⟨p.id, k.now, duration⟩] ((p.block k.now duration).withCpu cpu)
  | ended (may : operation.mayEnd) (cpu : Cpu H) :
      k.Change operation p [] (p.terminate.withCpu cpu)
  | cutShort (mayBlock : operation.mayBlock) (mayEnd : operation.mayEnd) (running : p.isRunning)
      (duration : Nat) (cpu : Cpu H) : k.Change operation p [⟨p.id, k.now, duration⟩]
        ((p.block k.now duration).terminate.withCpu cpu)

variable {k : Kernel H} {operation : Operation H} {p q : Process H}

theorem change_of_suffers {durations : List Nat} (h : p.Suffers k.now durations q)
    (mayBlock : operation.mayBlock) (mayEnd : operation.mayEnd) :
    k.Change operation p (durations.map (Stay.mk p.id k.now)) q := by
  cases h with
  | spared goes =>
      refine .spared (fun timed => ?_) (.inr goes)
      subst timed
      contradiction
  | blocked running duration goes => exact .blocked mayBlock running duration goes
  | ended cpu => exact .ended mayEnd cpu
  | cutShort running duration cpu => exact .cutShort mayBlock mayEnd running duration cpu

theorem Change.unchanged (untimed : operation ≠ .advance) : k.Change operation p [] p :=
  .spared untimed (.inr (.refl p.cpu))

/-- A tick lets every process elapse. -/
theorem Change.of_advance {stays : List Stay} (h : k.Change .advance p stays q) :
    stays = [] ∧ q = p.elapse k.advance.now := by
  cases h with
  | elapsed due => exact ⟨rfl, rfl⟩
  | spared untimed _ => exact (untimed rfl).elim
  | _ => contradiction

section Changes

variable [SyscallHandler H]

def executionStays (k : Kernel H) : List Stay :=
  match k.scheduler.current with
  | none => []
  | some id =>
    match k.table.find? id with
    | none => []
    | some p =>
      if p.isRunning then
        match p.cpu.step with
        | (.ok _, cpu) =>
          ((k.table.update id (·.withCpu cpu)).effectStays id).map (Stay.mk id k.now)
        | (.error _, _) => []
      else []

/-- The blocks that an operation puts processes under, in their order: every call that blocks a
process and succeeds, whether from outside or to apply an effect. -/
def stays (k : Kernel H) : Operation H → List Stay
  | .block id duration => if (k.table.block id duration).1 then [⟨id, k.now, duration⟩] else []
  | .applyEffects id => (k.table.effectStays id).map (Stay.mk id k.now)
  | .execute => k.executionStays
  | _ => []

/-- `k.Evolves operation f created`: the operation turns each process `p` of `k` into `f p` and adds
the process that it creates, if it does. -/
structure Evolves (k : Kernel H) (operation : Operation H) (f : Process H → Process H)
    (created : Option (Process H)) : Prop where
  processes : (k.perform operation).table.processes = k.table.processes.map f ++ created.toList
  origin : ∀ p, (f p).origin = p.origin
  now : operation ≠ .advance → (k.perform operation).now = k.now
  change : ∀ p ∈ k.table.processes,
    k.Change operation p ((k.stays operation).filter (·.process = p.id)) (f p)
  contents : ∀ p ∈ k.table.processes, ¬ operation.writes p →
    (f p).cpu.contents = p.cpu.contents
  fresh : ∀ p ∈ created, ∃ id name source arrivalTime schedulingClass priority,
    Process.create id name source arrivalTime schedulingClass priority = .ok p
  births : k.births operation = created.toList.map fun p => ⟨p.id, k.now, p.arrivalTime⟩

variable {f : Process H → Process H}

namespace Evolves

theorem mem_of_mem {created : Option (Process H)} (e : k.Evolves operation f created)
    (hp : p ∈ k.table.processes) : f p ∈ (k.perform operation).table.processes := by
  rw [e.processes]
  exact List.mem_append_left _ (List.mem_map_of_mem hp)

/-- An operation that only turns each process into another. -/
theorem of_becomes (becomes : k.table.Becomes f (k.perform operation).table)
    (unborn : k.births operation = [])
    (change : ∀ p ∈ k.table.processes,
      k.Change operation p ((k.stays operation).filter (·.process = p.id)) (f p))
    (contents : ∀ p ∈ k.table.processes, ¬ operation.writes p →
      (f p).cpu.contents = p.cpu.contents) : k.Evolves operation f none where
  processes := by rw [becomes.processes, Option.toList_none, List.append_nil]
  origin := becomes.origin
  now _ := becomes.now
  change := change
  contents := contents
  fresh _ member := nomatch member
  births := unborn

/-- An operation on one process, which no other process has to do with. -/
theorem of_only {id : Pid} (durations : List Nat) (untimed : operation ≠ .advance)
    (becomes : k.table.Becomes (Process.only id f) (k.perform operation).table)
    (unborn : k.births operation = [])
    (stays : k.stays operation = durations.map (Stay.mk id k.now))
    (change : ∀ p ∈ k.table.processes, p.id = id →
      k.Change operation p (durations.map (Stay.mk p.id k.now)) (f p))
    (contents : ∀ p, ¬ operation.writes p → (f p).cpu.contents = p.cpu.contents) :
    k.Evolves operation (Process.only id f) none := by
  refine of_becomes becomes unborn (fun p hp => ?_) fun p _ unwritten => ?_
  · rw [stays, Stay.filter_map_mk]
    by_cases hid : p.id = id
    · rw [if_pos hid.symm, Process.only_of_eq f hid, ← hid]
      exact change p hp hid
    · rw [if_neg (Ne.symm hid), Process.only_of_ne f hid]
      exact .unchanged untimed
  · by_cases hid : p.id = id
    · rw [Process.only_of_eq f hid]
      exact contents p unwritten
    · rw [Process.only_of_ne f hid]

/-- An operation that no process has to do with. -/
theorem of_eq (untimed : operation ≠ .advance)
    (same : (k.perform operation).table.processes = k.table.processes)
    (now : (k.perform operation).now = k.now) (unborn : k.births operation = [])
    (unstayed : k.stays operation = []) : k.Evolves operation (fun p => p) none where
  processes := by rw [same, List.map_id', Option.toList_none, List.append_nil]
  origin _ := rfl
  now _ := now
  change p _ := by
    rw [unstayed]
    exact .unchanged untimed
  contents _ _ _ := rfl
  fresh _ member := nomatch member
  births := unborn

end Evolves

/-! ## The operations -/

theorem exists_evolves_create (k : Kernel H) (name source : String) (arrivalTime : Nat)
    (schedulingClass : SchedulingClass) (priority : Priority) :
    ∃ created, k.Evolves (.create name source arrivalTime schedulingClass priority) (fun p => p)
      created := by
  rcases made : k.table.create name source arrivalTime schedulingClass priority with
    ⟨reason | id, after⟩
  · have unmade : after = k.table := by
      unfold ProcessTable.create at made
      split at made
      · exact (congrArg Prod.snd made).symm
      · simp at made
    subst unmade
    refine ⟨none, .of_eq (by nofun) ?_ ?_ ?_ rfl⟩
    · simp only [perform, made]
    · simp only [perform, made, now]
    · simp only [births, made]
  · obtain ⟨p, created, rfl, processes, clock⟩ := ProcessTable.eq_of_create made
    have newest := Process.id_of_create created
    have arrival : p.arrivalTime = arrivalTime := by
      obtain ⟨program, -, rfl⟩ := Process.eq_of_create created
      rfl
    refine ⟨some p, ?_, fun _ => rfl, fun _ => ?_, fun q _ => .unchanged (by nofun),
      fun _ _ _ => rfl, ?_, ?_⟩
    · simp only [perform, made, processes, List.map_id', Option.toList_some]
    · simp only [perform, made, now, ProcessTable.now, clock]
    · intro q member
      cases member
      exact ⟨_, _, _, _, _, _, created⟩
    · simp only [births, made, Option.toList_some, List.map_cons, List.map_nil, newest, arrival]

theorem evolves_advance (k : Kernel H) :
    k.Evolves .advance (Process.elapse · k.advance.now) none where
  processes := by
    rw [Option.toList_none, List.append_nil]
    rfl
  origin p := p.origin_elapse k.advance.now
  now other := (other rfl).elim
  change _ _ := .elapsed rfl
  contents p _ _ := Cpu.contents_eq_of_freed (p.freed_elapse k.advance.now)
  fresh _ member := nomatch member
  births := rfl

theorem evolves_terminate {id : Pid}
    (ends : (k.perform operation).table = (k.table.terminate id).2)
    (unborn : k.births operation = []) (unstayed : k.stays operation = [])
    (may : operation.mayEnd) : k.Evolves operation (Process.only id Process.terminate) none := by
  have becomes := k.table.becomes_terminate id
  rw [← ends] at becomes
  have stays : k.stays operation = [].map (Stay.mk id k.now) := unstayed
  have untimed : operation ≠ .advance := fun timed => by
    subst timed
    contradiction
  refine .of_only [] untimed becomes unborn stays (fun p _ _ => ?_) fun p _ => rfl
  exact .ended may p.terminate.cpu

namespace Coherent

theorem exists_evolves_schedule (h : k.Coherent) : ∃ f, k.Evolves .schedule f none := by
  rcases h.schedule_cases with ⟨r, -, -, kept⟩ | ⟨-, ⟨p, -, chooses⟩ | ⟨-, rests⟩⟩
  · have same : k.perform .schedule = k := congrArg Prod.snd kept
    exact ⟨_, .of_eq (by nofun) (by rw [same]) (by rw [same]) rfl rfl⟩
  · have becomes : k.table.Becomes (k.handOver p) (k.perform .schedule).table :=
      chooses.table ▸ k.table.becomes_mapped (k.origin_handOver p)
    refine ⟨k.handOver p, .of_becomes becomes rfl (fun q hq => ?_) fun q _ _ => ?_⟩
    · obtain ⟨hp, able⟩ := mem_candidates.1 chooses.first.mem
      unfold handOver
      split
      · rename_i hid
        rw [h.distinct.eq_of_id hq hp hid]
        exact .dispatched rfl able
      · split
        · exact .sentBack rfl ‹_›
        · exact .unchanged (by nofun)
    · rw [cpu_handOver]
  · have same : (k.perform .schedule).table = k.table := rests.table
    exact ⟨_, .of_eq (by nofun) (by rw [same]) (by rw [now, same]; rfl) rfl rfl⟩

theorem evolves_block (h : k.Coherent) (id : Pid) (duration : Nat) :
    k.Evolves (.block id duration)
      (Process.only id fun p => p.feel k.now (.block duration)) none := by
  have untimed : (.block id duration : Operation H) ≠ .advance := by simp
  have stays : k.stays (.block id duration) =
      (k.table.staysOf id (.block duration)).map (Stay.mk id k.now) := by
    simp only [stays, ProcessTable.staysOf]
    split <;> rfl
  refine .of_only _ untimed (h.distinct.becomes_block id duration) rfl stays
    (fun p hp hid => ?_) fun p _ => Cpu.contents_eq_of_freed (p.freed_feel k.now _)
  have found : k.table.find? id = some p := hid ▸ h.distinct.find?_of_mem hp
  simp only [ProcessTable.staysOf, ProcessTable.fst_block, found, Option.any_some, Process.feel]
  split
  · rename_i running
    exact .blocked rfl running duration (.refl (p.block k.now duration).cpu)
  · exact .unchanged untimed

theorem evolves_applyEffects (h : k.Coherent) (id : Pid) :
    k.Evolves (.applyEffects id) (Process.only id (Process.absorb k.now)) none := by
  refine .of_only _ (by nofun) (h.distinct.becomes_applyEffects id) rfl rfl (fun p hp hid => ?_)
    fun p _ => p.contents_absorb k.now
  have found : k.table.find? id = some p := hid ▸ h.distinct.find?_of_mem hp
  rw [h.distinct.effectStays_eq found]
  exact change_of_suffers (p.suffers_absorb k.now) rfl rfl

/-- The blocks that executing puts the running process under are those of its effects. -/
theorem executionStays_eq (h : k.Coherent) (hr : k.table.running? = some p) {executed : Bool}
    {cpu : Cpu H} (stepped : p.cpu.step = (.ok executed, cpu)) :
    k.executionStays =
      (((p.withCpu cpu).withCpu cpu.withoutEffects).stays k.now cpu.effects).map
        (Stay.mk p.id k.now) := by
  obtain ⟨hp, running⟩ := h.running?_eq_some.1 hr
  have stored := k.table.becomes_update p.id (f := (·.withCpu cpu)) fun _ => rfl
  have found : (k.table.update p.id (·.withCpu cpu)).find? p.id = some (p.withCpu cpu) := by
    rw [stored.find?, h.distinct.find?_of_mem hp, Option.map_some, Process.only_of_eq _ rfl]
  have same := (stored.distinct h.distinct).effectStays_eq found
  rw [stored.now] at same
  simp only [executionStays, h.selected p hp running, h.distinct.find?_of_mem hp, running, if_true,
    stepped, same]
  rfl

theorem executionStays_of_fault (h : k.Coherent) (hr : k.table.running? = some p) {fault : Fault}
    {cpu : Cpu H} (failed : p.cpu.step = (.error fault, cpu)) : k.executionStays = [] := by
  obtain ⟨hp, running⟩ := h.running?_eq_some.1 hr
  simp only [executionStays, h.selected p hp running, h.distinct.find?_of_mem hp, running, if_true,
    failed]

theorem executionStays_of_idle (hr : k.table.running? = none) : k.executionStays = [] := by
  have idle : ∀ p ∈ k.table.processes, ¬ p.isRunning := List.find?_eq_none.1 hr
  unfold executionStays
  split
  · rfl
  · split
    · rfl
    · rename_i p found
      rw [if_neg (idle p (ProcessTable.mem_of_find? found))]

theorem change_of_turn (h : k.Coherent) (hr : k.table.running? = some p) :
    k.Change .execute p (k.executionStays.filter (·.process = p.id)) (p.turn k.now) := by
  rcases stepped : p.cpu.step with ⟨fault | executed, cpu⟩
  · rw [h.executionStays_of_fault hr stepped]
    simp only [Process.turn, stepped]
    exact .ended rfl p.terminate.cpu
  · have suffers :=
      ((p.withCpu cpu).suffers_absorb k.now).of_withCpu (Cpu.continues_step stepped)
    rw [h.executionStays_eq hr stepped, Stay.filter_map_mk, if_pos rfl]
    simp only [Process.turn, stepped]
    exact change_of_suffers suffers rfl rfl

theorem evolves_execute (h : k.Coherent) :
    k.Evolves .execute (fun p => if p.isRunning then p.turn k.now else p) none := by
  refine .of_becomes h.becomes_execute rfl (fun q hq => ?_) fun q _ unwritten => ?_
  · by_cases running : q.isRunning
    · rw [if_pos running]
      exact h.change_of_turn (h.running?_eq_some.2 ⟨hq, running⟩)
    · rw [if_neg running]
      -- The stays are those of the process that runs, which is another one.
      have unstayed : k.executionStays.filter (·.process = q.id) = [] := by
        cases hr : k.table.running? with
        | none => rw [executionStays_of_idle hr, List.filter_nil]
        | some p =>
            obtain ⟨hp, running'⟩ := h.running?_eq_some.1 hr
            have other : p.id ≠ q.id := fun hid =>
              running (h.distinct.eq_of_id hp hq hid ▸ running')
            rcases stepped : p.cpu.step with ⟨fault | executed, cpu⟩
            · rw [h.executionStays_of_fault hr stepped, List.filter_nil]
            · rw [h.executionStays_eq hr stepped, Stay.filter_map_mk, if_neg other]
      have unchanged : k.Change .execute q [] q := .unchanged (by nofun)
      exact unstayed ▸ unchanged
  · have idle : ¬ q.isRunning := unwritten
    rw [if_neg idle]

/-- Every operation but a reset turns each process into one that `Change` lists, and adds the
processes that it creates. -/
theorem evolves (h : k.Coherent) (operation : Operation H) (kept : ¬ operation.isReset) :
    ∃ f created, k.Evolves operation f created := by
  cases operation with
  | create name source arrivalTime schedulingClass priority =>
      obtain ⟨created, evolves⟩ :=
        k.exists_evolves_create name source arrivalTime schedulingClass priority
      exact ⟨_, created, evolves⟩
  | setHandler id handler =>
      refine ⟨_, _, .of_only [] (by nofun) (k.table.becomes_setHandler id handler) rfl rfl
        (fun p _ _ => ?_) fun p _ => rfl⟩
      exact .spared (by nofun) (.inr ⟨rfl, fun goes => goes⟩)
  | advance => exact ⟨_, _, k.evolves_advance⟩
  | schedule =>
      obtain ⟨f, evolves⟩ := h.exists_evolves_schedule
      exact ⟨f, _, evolves⟩
  | execute => exact ⟨_, _, h.evolves_execute⟩
  | block id duration => exact ⟨_, _, h.evolves_block id duration⟩
  | terminateUnrecorded id => exact ⟨_, _, evolves_terminate rfl rfl rfl rfl⟩
  | terminate id reason =>
      exact ⟨_, _, evolves_terminate (k.table_terminate id reason) rfl rfl rfl⟩
  | supply id text =>
      refine ⟨_, _, .of_only [] (by nofun) (h.distinct.becomes_supply id text) rfl rfl
        (fun p _ _ => ?_) fun p unwritten => (unwritten rfl).elim⟩
      unfold Process.receive
      split
      · rename_i supplied
        obtain ⟨-, number, -, rfl⟩ := Cpu.supply_eq_ok_true.1 supplied
        exact .spared (by nofun) (.inr (p.cpu.continues_read text number))
      · exact .unchanged (by nofun)
  | applyEffects id => exact ⟨_, _, h.evolves_applyEffects id⟩
  | setQuantum quantum => exact ⟨_, _, .of_eq (by nofun) rfl rfl rfl rfl⟩
  | replaceCpu id cpu =>
      refine ⟨_, _, .of_only [] (by nofun)
        (k.table.becomes_update id (f := (·.withCpu cpu)) fun _ => rfl) rfl rfl
        (fun p _ _ => .spared (by nofun) (.inl rfl)) fun p unwritten => (unwritten rfl).elim⟩
  | replaceTableLog log => exact ⟨_, _, .of_eq (by nofun) rfl rfl rfl rfl⟩
  | replaceSchedulerLog log => exact ⟨_, _, .of_eq (by nofun) rfl rfl rfl rfl⟩
  | clearAudit => exact ⟨_, _, .of_eq (by nofun) rfl rfl rfl rfl⟩
  | reset => exact (kept rfl).elim

end Coherent

end Changes

end Kernel

end Timeslice
