import Timeslice.Proofs.Machine.Grammar
import Timeslice.Simulation.Basic

/-! # What keeps a simulation from being created

Processes are created in the order of their specifications, and the first one at fault ends the
creation. A specification is at fault if it has no program, or one with data that is not a number.
-/

namespace Timeslice

namespace ProcessSpec

/-- What keeps a process from being created: it has no program, or a data line of its program is
refused. -/
def fault? (spec : ProcessSpec) : Option SetupError :=
  match spec.program with
  | none => some (.missingProgram spec.name)
  | some source =>
    ((Program.dataLines source).findSome? Program.refusal?).map (.badProgram spec.name)

theorem source_eq_ok_iff {spec : ProcessSpec} {source : String} :
    spec.source = .ok source ↔ spec.program = some source := by
  unfold ProcessSpec.source
  cases spec.program <;> simp

theorem fault?_eq_none_iff {spec : ProcessSpec} :
    spec.fault? = none ↔ ∃ source, spec.program = some source ∧
      ∀ line ∈ Program.dataLines source, Program.refusal? line = none := by
  unfold fault?
  cases spec.program with
  | none => simp
  | some source => simp

def withoutPath (spec : ProcessSpec) : ProcessSpec := { spec with programPath := none }

end ProcessSpec

def Scenario.withoutPaths (scenario : Scenario) : Scenario :=
  { scenario with processes := scenario.processes.map (·.withoutPath) }

namespace Simulation

/-- A process is created, or else the fault of its specification is told. -/
theorem addProcess_cases (range : BlockRange) (k : Kernel Services) (spec : ProcessSpec)
    (index : Nat) :
    (∃ e, spec.fault? = some e ∧ addProcess range k spec index = .error e) ∨
      (spec.fault? = none ∧ ∃ l, addProcess range k spec index = .ok l) := by
  cases given : spec.program with
  | none =>
      refine .inl ⟨.missingProgram spec.name, ?_, ?_⟩
      · simp [ProcessSpec.fault?, given]
      · simp [addProcess, ProcessSpec.source, given, bind, Except.bind]
  | some source =>
      cases parsed : Program.parse source with
      | error reason =>
          refine .inl ⟨.badProgram spec.name reason, ?_, ?_⟩
          · simp [ProcessSpec.fault?, given, Program.parse_eq_error_iff.1 parsed]
          · simp [addProcess, ProcessSpec.source, given, bind, Except.bind, ProcessTable.create,
              Process.create, parsed]
      | ok program =>
          have valid := Program.exists_parse_iff.1 ⟨program, parsed⟩
          refine .inr ⟨ProcessSpec.fault?_eq_none_iff.2 ⟨source, given, valid⟩, ?_⟩
          simp [addProcess, ProcessSpec.source, given, bind, Except.bind, ProcessTable.create,
            Process.create, parsed, pure, Except.pure]

/-- Creation ends at the first specification at fault. -/
theorem addAll_cases (range : BlockRange) (k : Kernel Services) (specs : List ProcessSpec)
    (first : Nat) :
    let added := (specs.zipIdx first).foldlM
      (fun kernel entry => addProcess range kernel entry.1 entry.2) k
    (∃ e, specs.findSome? ProcessSpec.fault? = some e ∧ added = .error e) ∨
      (specs.findSome? ProcessSpec.fault? = none ∧ ∃ l, added = .ok l) := by
  induction specs generalizing k first with
  | nil => exact .inr ⟨rfl, k, rfl⟩
  | cons spec rest ih =>
      simp only [List.zipIdx_cons, List.foldlM_cons, List.findSome?_cons]
      rcases addProcess_cases range k spec first with ⟨e, fault, failed⟩ | ⟨sound, l, created⟩
      · rw [fault, failed]
        exact .inl ⟨e, rfl, rfl⟩
      · rw [sound, created]
        exact ih l (first + 1)

theorem create_cases (scenario : Scenario) :
    (∃ e, scenario.processes.findSome? ProcessSpec.fault? = some e ∧
        create scenario = .error e) ∨
      (scenario.processes.findSome? ProcessSpec.fault? = none ∧
        ∃ s, create scenario = .ok s) := by
  unfold create
  dsimp only
  rcases addAll_cases scenario.blockTicks ((Kernel.empty scenario.logLevel).setQuantum
    scenario.quantum) scenario.processes 0 with ⟨e, fault, failed⟩ | ⟨sound, l, created⟩
  · exact .inl ⟨e, fault, by rw [failed]; rfl⟩
  · exact .inr ⟨sound, _, by rw [created]; rfl⟩

theorem create_eq_error_iff {scenario : Scenario} {e : SetupError} :
    create scenario = .error e ↔
      scenario.processes.findSome? ProcessSpec.fault? = some e := by
  rcases create_cases scenario with ⟨other, fault, failed⟩ | ⟨sound, s, created⟩
  · simp [fault, failed]
  · simp [sound, created]

theorem exists_create_iff {scenario : Scenario} :
    (∃ s, create scenario = .ok s) ↔ ∀ spec ∈ scenario.processes, spec.fault? = none := by
  rw [← List.findSome?_eq_none_iff]
  rcases create_cases scenario with ⟨other, fault, failed⟩ | ⟨sound, s, created⟩
  · simp [fault, failed]
  · simp [sound, created]

/-- The path of a program has no bearing on the process. -/
theorem create_withoutPaths (scenario : Scenario) :
    create scenario.withoutPaths = create scenario := by
  have zipped : (scenario.processes.map (·.withoutPath)).zipIdx =
      scenario.processes.zipIdx.map fun entry => (entry.1.withoutPath, entry.2) := by
    rw [List.zipIdx_map]
    rfl
  have added (k : Kernel Services) (entries : List (ProcessSpec × Nat)) :
      (entries.map fun entry => (entry.1.withoutPath, entry.2)).foldlM
        (fun kernel entry => addProcess scenario.blockTicks kernel entry.1 entry.2) k =
      entries.foldlM
        (fun kernel entry => addProcess scenario.blockTicks kernel entry.1 entry.2) k := by
    rw [List.foldlM_map]
    rfl
  unfold create Scenario.withoutPaths
  simp only [zipped, added]

end Simulation

end Timeslice
