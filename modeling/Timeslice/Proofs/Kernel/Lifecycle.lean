import Timeslice.Proofs.Kernel.Change

/-! # The lifecycle of a process

Whatever operation is done to a kernel, the state of each process stays or goes along an edge of the
lifecycle, and only some operations go along each edge. Processes are kept in their order for good,
and one that has exited stays as it was.
-/

namespace Timeslice

variable {H : Type}

namespace Operation

/-- `operation.Moves s t`: the operation can move a process from state `s` to state `t`. -/
inductive Moves (operation : Operation H) : ProcessState → ProcessState → Prop
  | stays (s : ProcessState) : operation.Moves s s
  | arrives (due : operation = .advance) : operation.Moves .new .ready
  | wakes (due : operation = .advance) : operation.Moves .blocked .ready
  | dispatched (due : operation = .schedule) : operation.Moves .ready .running
  | sentBack (due : operation = .schedule) : operation.Moves .running .ready
  | blocked (may : operation.mayBlock) : operation.Moves .running .blocked
  | ended (may : operation.mayEnd) (s : ProcessState) : operation.Moves s .exit

variable {operation : Operation H}

theorem moves_of_elapses (due : operation = .advance) {now : Nat} {p q : Process H}
    (h : p.Elapses now q) : operation.Moves p.state q.state := by
  cases h with
  | early state early => exact .stays p.state
  | arrived state arrived =>
      rw [state]
      exact .arrives due
  | waited state => exact .stays p.state
  | ran state => exact .stays p.state
  | stayed state early => exact .stays p.state
  | woke state passed =>
      rw [state]
      exact .wakes due
  | ended state => exact .stays p.state

theorem not_writes_of_exited {p : Process H} (exited : p.isExited) (outside : ¬ operation.enters) :
    ¬ operation.writes p := by
  cases operation with
  | execute => exact fun running => Process.not_isExited_of_isRunning running exited
  | _ => exact outside

end Operation

namespace Kernel

variable {k : Kernel H} {operation : Operation H} {p q : Process H} {stays : List Stay}

namespace Change

/-- The edges of the lifecycle are all that a change can go along. -/
theorem moves (h : k.Change operation p stays q) : operation.Moves p.state q.state := by
  cases h with
  | elapsed due => exact Operation.moves_of_elapses due (p.elapses k.advance.now)
  | dispatched due able =>
      rcases able with ready | running
      · have state : p.state = .ready := of_decide_eq_true ready
        rw [state]
        exact .dispatched due
      · have state : p.state = .running := of_decide_eq_true running
        rw [state]
        exact .stays .running
  | sentBack due running =>
      have state : p.state = .running := of_decide_eq_true running
      rw [state]
      exact .sentBack due
  | spared untimed _ => exact .stays p.state
  | blocked may running duration _ =>
      have state : p.state = .running := of_decide_eq_true running
      rw [state]
      exact .blocked may
  | ended may cpu => exact .ended may p.state
  | cutShort mayBlock mayEnd running duration cpu => exact .ended mayEnd p.state

/-- A process that has exited changes in its processor at most. -/
theorem eq_withCpu_of_exited (h : k.Change operation p stays q) (exited : p.isExited) :
    q = p.withCpu q.cpu := by
  have state : p.state = .exit := of_decide_eq_true exited
  have idle : ¬ p.isRunning := fun running => Process.not_isExited_of_isRunning running exited
  cases h with
  | elapsed due =>
      have elapses := p.elapses k.advance.now
      generalize p.elapse k.advance.now = q at elapses
      cases elapses with
      | ended _ => rfl
      | _ => simp_all
  | dispatched due able =>
      rcases able with ready | running
      · exact (Process.not_isExited_of_isReady ready exited).elim
      · exact (idle running).elim
  | sentBack due running => exact (idle running).elim
  | spared untimed _ => rfl
  | blocked may running duration _ => exact (idle running).elim
  | ended may cpu =>
      show { p with state := .exit, cpu } = { p with cpu }
      rw [← state]
  | cutShort mayBlock mayEnd running duration cpu => exact (idle running).elim

end Change

variable [SyscallHandler H]

/-- Over a run, processes stay in their order, and a process that has exited changes in its
processor at most, and there in nothing that its program computes with unless the run has written to
the processor. -/
theorem Coherent.exists_performAll (h : k.Coherent) (later : List (Operation H))
    (kept : ∀ operation ∈ later, ¬ operation.isReset) :
    ∃ f created, (k.performAll later).table.processes = k.table.processes.map f ++ created ∧
      ∀ p ∈ k.table.processes, (f p).origin = p.origin ∧
        (p.isExited → f p = p.withCpu (f p).cpu ∧
          ((∀ operation ∈ later, ¬ operation.enters) →
            (f p).cpu.contents = p.cpu.contents)) := by
  induction later generalizing k with
  | nil =>
      refine ⟨fun p => p, [], ?_, fun p _ => ⟨rfl, fun _ => ⟨rfl, fun _ => rfl⟩⟩⟩
      rw [List.append_nil, List.map_id']
      rfl
  | cons operation rest ih =>
      obtain ⟨f, created, evolves⟩ := h.evolves operation (kept operation List.mem_cons_self)
      obtain ⟨g, added, processes, lasting⟩ :=
        ih (h.perform operation) fun next member => kept next (List.mem_cons_of_mem _ member)
      refine ⟨fun p => g (f p), created.toList.map g ++ added, ?_, fun p hp => ?_⟩
      · show ((k.perform operation).performAll rest).table.processes = _
        rw [processes, evolves.processes, List.map_append, List.map_map, List.append_assoc]
        rfl
      · obtain ⟨origin, frozen⟩ := lasting (f p) (evolves.mem_of_mem hp)
        refine ⟨origin.trans (evolves.origin p), fun exited => ?_⟩
        have first := (evolves.change p hp).eq_withCpu_of_exited exited
        have exited' : (f p).isExited := by
          rw [first]
          exact exited
        obtain ⟨second, contents⟩ := frozen exited'
        refine ⟨?_, fun outside => ?_⟩
        · calc g (f p) = (f p).withCpu (g (f p)).cpu := second
            _ = (p.withCpu (f p).cpu).withCpu (g (f p)).cpu :=
              congrArg (·.withCpu (g (f p)).cpu) first
            _ = p.withCpu (g (f p)).cpu := rfl
        · have unwritten := Operation.not_writes_of_exited exited
            (outside operation List.mem_cons_self)
          rw [contents fun next member => outside next (List.mem_cons_of_mem _ member)]
          exact evolves.contents p hp unwritten

/-- In every kernel that operations can make, one more operation keeps the processes in their order
and moves each along the lifecycle, and over any run a process that has exited stays exited and as
it was: at most its processor is changed, and nothing there that its program computes with unless
the run writes to the processor from outside. -/
theorem states_follow_lifecycle (minimum : Log.Level) (operations : List (Operation H)) :
    let k := (empty minimum).performAll operations
    (∀ operation : Operation H, ¬ operation.isReset → ∃ f created,
      (k.perform operation).table.processes = k.table.processes.map f ++ created ∧
        (∀ p ∈ k.table.processes, (f p).origin = p.origin ∧
          operation.Moves p.state (f p).state) ∧
        ∀ p ∈ created, p.state = .new) ∧
    ∀ later : List (Operation H), (∀ operation ∈ later, ¬ operation.isReset) → ∃ f created,
      (k.performAll later).table.processes = k.table.processes.map f ++ created ∧
        ∀ p ∈ k.table.processes, (f p).origin = p.origin ∧
          (p.state = .exit → (f p).state = .exit ∧ f p = p.withCpu (f p).cpu ∧
            ((∀ operation ∈ later, ¬ operation.enters) →
              (f p).cpu.contents = p.cpu.contents)) := by
  intro k
  have h : k.Coherent := coherent_performAll minimum operations
  constructor
  · intro operation kept
    obtain ⟨f, created, evolves⟩ := h.evolves operation kept
    refine ⟨f, created.toList, evolves.processes, fun p hp => ?_, fun p member => ?_⟩
    · exact ⟨evolves.origin p, (evolves.change p hp).moves⟩
    · obtain ⟨_, _, _, _, _, _, made⟩ := evolves.fresh p (Option.mem_toList.1 member)
      obtain ⟨program, -, rfl⟩ := Process.eq_of_create made
      rfl
  · intro later kept
    obtain ⟨f, created, processes, lasting⟩ := h.exists_performAll later kept
    refine ⟨f, created, processes, fun p hp => ?_⟩
    obtain ⟨origin, frozen⟩ := lasting p hp
    refine ⟨origin, fun exited => ?_⟩
    obtain ⟨same, contents⟩ := frozen (decide_eq_true exited)
    refine ⟨?_, same, contents⟩
    rw [same]
    exact exited

end Kernel

end Timeslice
