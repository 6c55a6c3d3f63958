import Mathlib.Data.List.Forall2
import Timeslice.Proofs.Kernel.Programs
import Timeslice.Simulation.Basic

/-! # The start of a simulation

What creating a simulation makes of a scenario: one new process for each specification, in their
order, and nothing selected or recorded.
-/

namespace Timeslice

/-- `entry.Starts range p`: `p` is what a specification and its place come to at the start. -/
def ProcessSpec.Starts (range : BlockRange) (entry : ProcessSpec × Nat)
    (p : Process Services) : Prop :=
  ∃ source program, entry.1.source = .ok source ∧ Program.parse source = .ok program ∧
    p = {
      id := entry.2 + 1
      name := entry.1.name
      source
      arrivalTime := entry.1.arrivalTime
      schedulingClass := entry.1.schedulingClass
      priority := entry.1.priority
      state := .new
      cpu := { (Cpu.load program : Cpu Services) with handler := some ⟨.of range entry.2⟩ }
      blockEnd := 0
      quantumLeft := 0
      executionTime := 0
      waitingTime := 0 }

theorem ProcessSpec.Starts.unique {range : BlockRange} {entry : ProcessSpec × Nat}
    {p q : Process Services} (hp : Starts range entry p) (hq : Starts range entry q) : p = q := by
  obtain ⟨source, program, given, parsed, rfl⟩ := hp
  obtain ⟨source', program', given', parsed', rfl⟩ := hq
  cases given.symm.trans given'
  cases parsed.symm.trans parsed'
  rfl

theorem ProcessSpec.Starts.isRealtime {range : BlockRange} {entry : ProcessSpec × Nat}
    {p : Process Services} (h : Starts range entry p) :
    p.isRealtime = entry.1.schedulingClass.isRealtime := by
  obtain ⟨source, program, -, -, rfl⟩ := h
  rfl

namespace Simulation

structure Populates (range : BlockRange) (entries : List (ProcessSpec × Nat))
    (start k : Kernel Services) : Prop where
  processes : List.Forall₂ (ProcessSpec.Starts range) entries k.table.processes
  numbered : k.table.Numbered
  clock : k.table.clock = start.table.clock
  scheduler : k.scheduler = start.scheduler

variable {range : BlockRange} {entries : List (ProcessSpec × Nat)} {start k l : Kernel Services}

theorem Populates.length (h : Populates range entries start k) :
    entries.length = k.table.processes.length := h.processes.length_eq

/-- Adding a process leaves those that are there alone. -/
theorem Populates.add (h : Populates range entries start k) {spec : ProcessSpec}
    (added : addProcess range k spec entries.length = .ok l) :
    Populates range (entries ++ [(spec, entries.length)]) start l := by
  cases given : spec.source with
  | error e => simp [addProcess, given, bind, Except.bind] at added
  | ok source =>
      simp only [addProcess, given, bind, Except.bind] at added
      split at added
      · contradiction
      · rename_i id table created
        cases added
        obtain ⟨p, made, rfl, grown, clock⟩ := ProcessTable.eq_of_create created
        have numbered := h.numbered.create spec.name source spec.arrivalTime spec.schedulingClass
          spec.priority
        rw [created] at numbered
        have handled := table.becomes_setHandler k.table.nextId ⟨.of range entries.length⟩
        refine ⟨?_, handled.numbered numbered, handled.clock.trans (clock.trans h.clock),
          h.scheduler⟩
        have older : ∀ q ∈ k.table.processes, Process.only k.table.nextId
            (Process.handledBy ⟨.of range entries.length⟩) q = q := fun q hq =>
          Process.only_of_ne _ (Nat.ne_of_lt (h.numbered.distinct.below q hq))
        have newest := Process.only_of_eq
          (Process.handledBy (⟨.of range entries.length⟩ : Services)) (Process.id_of_create made)
        rw [handled.processes, grown, List.map_append, List.map_congr_left older, List.map_id',
          List.map_cons, List.map_nil, newest]
        obtain ⟨program, parsed, rfl⟩ := Process.eq_of_create made
        refine List.rel_append h.processes (.cons ⟨source, program, given, parsed, ?_⟩ .nil)
        rw [h.numbered.nextId, ← h.length]
        rfl

theorem Populates.addAll (h : Populates range entries start k) (specs : List ProcessSpec)
    (added : (specs.zipIdx entries.length).foldlM
      (fun kernel entry => addProcess range kernel entry.1 entry.2) k = .ok l) :
    Populates range (entries ++ specs.zipIdx entries.length) start l := by
  induction specs generalizing entries k with
  | nil =>
      cases added
      rwa [List.zipIdx_nil, List.append_nil]
  | cons spec rest ih =>
      rw [List.zipIdx_cons, List.foldlM_cons] at added
      cases first : addProcess range k spec entries.length with
      | error e => simp [first, bind, Except.bind] at added
      | ok middle =>
          simp only [first, bind, Except.bind] at added
          have grown := h.add first
          have length : (entries ++ [(spec, entries.length)]).length = entries.length + 1 := by
            rw [List.length_append, List.length_singleton]
          have all := ih grown (by rwa [length])
          rw [length, List.append_assoc] at all
          rwa [List.zipIdx_cons]

theorem exists_ok {ε α : Type} {x : Except ε α} (h : x.toOption.isSome) : ∃ a, x = .ok a := by
  cases x with
  | error e => contradiction
  | ok a => exact ⟨a, rfl⟩

structure Begins (s : Simulation) (scenario : Scenario) : Prop where
  processes : List.Forall₂ (ProcessSpec.Starts scenario.blockTicks) scenario.processes.zipIdx
    s.kernel.table.processes
  numbered : s.kernel.table.Numbered
  clock : s.kernel.table.clock = .zero
  scheduler : s.kernel.scheduler = (Scheduler.idle scenario.logLevel).setQuantum scenario.quantum
  inputs : s.inputs = scenario.inputs
  inputRotation : s.inputRotation = .of scenario.blockTicks 0
  output : s.output = []

theorem begins_of_create {scenario : Scenario} {s : Simulation} (h : create scenario = .ok s) :
    s.Begins scenario := by
  have empty : Populates scenario.blockTicks []
      ((Kernel.empty scenario.logLevel).setQuantum scenario.quantum)
      ((Kernel.empty scenario.logLevel).setQuantum scenario.quantum) :=
    ⟨.nil, ⟨rfl, rfl⟩, rfl, rfl⟩
  unfold create at h
  cases added : scenario.processes.zipIdx.foldlM
      (fun kernel entry => addProcess scenario.blockTicks kernel entry.1 entry.2)
      ((Kernel.empty scenario.logLevel).setQuantum scenario.quantum) with
  | error e => simp [added, bind, Except.bind] at h
  | ok kernel =>
      simp only [added, bind, Except.bind, pure, Except.pure, Except.ok.injEq] at h
      obtain ⟨processes, numbered, clock, scheduler⟩ := empty.addAll scenario.processes added
      subst h
      exact ⟨processes, numbered, clock, scheduler, rfl, rfl, rfl⟩

namespace Begins

variable {s : Simulation} {scenario : Scenario}

/-- Every process comes from an entry of the scenario. -/
theorem starts (h : s.Begins scenario) {p : Process Services}
    (hp : p ∈ s.kernel.table.processes) :
    ∃ entry ∈ scenario.processes.zipIdx, ProcessSpec.Starts scenario.blockTicks entry p := by
  obtain ⟨i, rfl⟩ := List.get_of_mem hp
  have place : i.1 < scenario.processes.zipIdx.length := by
    rw [h.processes.length_eq]
    exact i.2
  exact ⟨_, List.get_mem _ ⟨i, place⟩, h.processes.get place i.2⟩

theorem state (h : s.Begins scenario) {p : Process Services}
    (hp : p ∈ s.kernel.table.processes) : p.state = .new := by
  obtain ⟨entry, -, starts⟩ := h.starts hp
  obtain ⟨source, program, -, -, rfl⟩ := starts
  rfl

theorem coherent (h : s.Begins scenario) : s.kernel.Coherent where
  distinct := h.numbered.distinct
  selected p hp running := by
    have new := h.state hp
    simp [Process.isRunning, new] at running

theorem waitsOnly (h : s.Begins scenario) (who : Origin → Prop) : s.kernel.WaitsOnly who := by
  intro p hp waits
  obtain ⟨entry, -, source, program, -, -, rfl⟩ := h.starts hp
  contradiction

end Begins

end Simulation

end Timeslice
