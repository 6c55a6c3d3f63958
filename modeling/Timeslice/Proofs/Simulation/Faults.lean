import Timeslice.Proofs.Kernel.Faults
import Timeslice.Proofs.Simulation.Run

/-! # Faults of a simulation

Between ticks no error is left in the logs of a simulation, so the errors that a tick logs are those
of the instruction that is executed in it.
-/

namespace Timeslice

namespace Simulation

variable {s : Simulation}

structure Faultless (s : Simulation) : Prop where
  log : s.log.errors = []
  table : s.kernel.table.log.errors = []
  scheduler : s.kernel.scheduler.log.errors = []

/-! ## One tick -/

theorem calm_offer (s : Simulation) (id : Pid) (input : String) :
    (s.offer id input).2.log.errors = s.log.errors ∧ s.kernel.Calm (s.offer id input).2.kernel := by
  have supplied := s.kernel.table.errors_supply id input
  unfold offer
  split
  · rename_i table given
    rw [given] at supplied
    have applied := table.errors_applyEffects id
    have blocked := (table.applyEffects id).2.errors_block id s.inputRotation.next.1
    exact ⟨rfl, blocked.trans (applied.trans supplied), rfl⟩
  · exact ⟨rfl, .refl _⟩
  · rename_i fault _ _
    exact ⟨Log.errors_add_of_harmless _ Bool.false_ne_true, .refl _⟩

theorem calm_deliver (s : Simulation) :
    s.deliver.2.log.errors = s.log.errors ∧ s.kernel.Calm s.deliver.2.kernel := by
  unfold deliver
  split
  · rename_i p input rest _ _
    exact { s with inputs := rest }.calm_offer p.id input
  · exact ⟨rfl, .refl _⟩

theorem calm_finishHalted (s : Simulation) :
    s.finishHalted.log.errors = s.log.errors ∧ s.kernel.Calm s.finishHalted.kernel := by
  unfold finishHalted
  split
  · exact ⟨rfl, .refl _⟩
  · split
    · exact ⟨Log.errors_add_of_harmless _ Bool.false_ne_true, s.kernel.calm_terminate _ _⟩
    · exact ⟨rfl, .refl _⟩

theorem errors_conclude (s : Simulation) (selected : Option Pid) (given : List (Pid × String)) :
    (s.conclude selected given).1.logs.filter (·.isError) =
      s.log.errors ++ s.kernel.table.log.errors ++ s.kernel.scheduler.log.errors := by
  simp only [conclude, List.filter_append, Log.errors]

theorem faultless_step (s : Simulation) : s.step.2.Faultless := ⟨rfl, rfl, rfl⟩

/-- The errors that a tick logs are those of executing. -/
theorem errors_step (h : s.kernel.Coherent) (faultless : s.Faultless) :
    s.step.1.logs.filter (·.isError) = s.poised.faults := by
  have delivered := s.calm_deliver
  have scheduled := s.deliver.2.kernel.calm_advance.trans
    (coherent_deliver h).advance.calm_schedule
  have calm : s.kernel.Calm s.poised := delivered.2.trans scheduled
  have executed := (coherent_poised h).errors_execute
  have finished := calm_finishHalted { s.deliver.2 with kernel := s.poised.execute.2 }
  have stepped := errors_conclude
    ({ s.deliver.2 with kernel := s.poised.execute.2 } : Simulation).finishHalted
    s.deliver.2.kernel.advance.schedule.1 s.deliver.1
  refine stepped.trans ?_
  rw [finished.1, finished.2.table, finished.2.scheduler, executed.1, executed.2, calm.table,
    calm.scheduler, delivered.1, faultless.log, faultless.table, faultless.scheduler]
  rfl

/-! ## The start -/

theorem calm_addProcess {range : BlockRange} {k l : Kernel Services} {spec : ProcessSpec}
    {index : Nat} (added : addProcess range k spec index = .ok l) : k.Calm l := by
  cases given : spec.source with
  | error e => simp [addProcess, given, bind, Except.bind] at added
  | ok source =>
      have created := k.table.errors_create spec.name source spec.arrivalTime spec.schedulingClass
        spec.priority
      simp only [addProcess, given, bind, Except.bind] at added
      split at added
      · contradiction
      · rename_i made
        rw [made] at created
        cases added
        exact ⟨created, rfl⟩

theorem calm_addAll {range : BlockRange} {k l : Kernel Services}
    (entries : List (ProcessSpec × Nat)) (added : entries.foldlM
      (fun kernel entry => addProcess range kernel entry.1 entry.2) k = .ok l) : k.Calm l := by
  induction entries generalizing k with
  | nil =>
      cases added
      exact .refl _
  | cons entry rest ih =>
      rw [List.foldlM_cons] at added
      cases first : addProcess range k entry.1 entry.2 with
      | error e => simp [first, bind, Except.bind] at added
      | ok middle =>
          simp only [first, bind, Except.bind] at added
          exact (calm_addProcess first).trans (ih added)

theorem faultless_of_create {scenario : Scenario} (created : create scenario = .ok s) :
    s.Faultless := by
  unfold create at created
  cases added : scenario.processes.zipIdx.foldlM
      (fun kernel entry => addProcess scenario.blockTicks kernel entry.1 entry.2)
      ((Kernel.empty scenario.logLevel).setQuantum scenario.quantum) with
  | error e => simp [added, bind, Except.bind] at created
  | ok kernel =>
      simp only [added, bind, Except.bind, pure, Except.pure, Except.ok.injEq] at created
      have calm := calm_addAll _ added
      subst created
      exact ⟨rfl, calm.table, calm.scheduler⟩

end Simulation

end Timeslice
