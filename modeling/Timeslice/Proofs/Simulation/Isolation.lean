import Mathlib.Data.List.Find
import Timeslice.Proofs.Kernel.Realtime
import Timeslice.Proofs.Simulation.Reading
import Timeslice.Proofs.Simulation.Start

/-! # Realtime work is isolated

As long as no best-effort process reads input, a simulation stays in step with its realtime core.
Two simulations with one core therefore do the same realtime work.
-/

namespace Timeslice

namespace Simulation

def realtimeLines (s : Simulation) (lines : List Output) : List Output :=
  lines.filter fun line => s.kernel.table.hasRealtime line.process

/-- `s.Core v`: `v` is `s` without its best-effort processes, apart from the logs. -/
structure Core (s v : Simulation) : Prop where
  kernel : s.kernel.Core v.kernel
  inputs : v.inputs = s.inputs
  inputRotation : v.inputRotation = s.inputRotation
  output : v.output = s.realtimeLines s.output

def Quiet (s : Simulation) : Prop :=
  s.ReadsOnly fun origin => origin.schedulingClass.isRealtime

instance (s : Simulation) : Decidable s.Quiet :=
  inferInstanceAs (Decidable (∀ given ∈ s.execution?, given.2.isRead → given.1.isRealtime))

namespace Core

variable {s v : Simulation}

/-! ## Delivering -/

theorem waiting? (c : s.Core v) (unwaiting : s.kernel.Unwaiting) : v.waiting? = s.waiting? := by
  rw [Simulation.waiting?, Simulation.waiting?, c.kernel.processes, List.find?_filter]
  refine List.find?_congr fun p hp => ?_
  have realtime : p.cpu.waitingForInput → p.isRealtime := unwaiting p hp
  cases waits : p.cpu.waitingForInput with
  | true => simp [realtime waits]
  | false => simp

theorem acceptance? (c : s.Core v) (unwaiting : s.kernel.Unwaiting) :
    v.acceptance? = s.acceptance? := by
  simp only [Simulation.acceptance?, c.waiting? unwaiting, c.inputs]

theorem deliver (c : s.Core v) (hs : s.kernel.Coherent) (hv : v.kernel.Coherent)
    (unwaiting : s.kernel.Unwaiting) : s.deliver.2.Core v.deliver.2 := by
  have accepted := c.acceptance? unwaiting
  have inputs : v.deliver.2.inputs = s.deliver.2.inputs := by
    rw [inputs_deliver hv, inputs_deliver hs, c.waiting? unwaiting, c.inputs]
  cases ha : s.acceptance? with
  | some given =>
      obtain ⟨p, text⟩ := given
      rw [ha] at accepted
      have becomes := becomes_deliver hs ha
      have becomes' := becomes_deliver hv accepted
      have now : v.now = s.now := c.kernel.now
      rw [now, c.inputRotation] at becomes'
      have kernel := c.kernel.becomes becomes becomes' (fun _ _ => rfl)
        (by rw [scheduler_deliver hs, scheduler_deliver hv, c.kernel.settings])
        (by rw [scheduler_deliver hs, scheduler_deliver hv, c.kernel.current])
        (by rw [scheduler_deliver hs, scheduler_deliver hv, c.kernel.audit])
      refine ⟨kernel, inputs, ?_, ?_⟩
      · rw [deliver_of_acceptance hs ha, deliver_of_acceptance hv accepted, c.inputRotation]
      · rw [output_deliver hs, output_deliver hv, c.output, realtimeLines, realtimeLines,
          becomes.hasRealtime]
  | none =>
      rw [ha] at accepted
      obtain ⟨log, same⟩ := deliver_of_no_acceptance hs ha
      obtain ⟨log', same'⟩ := deliver_of_no_acceptance hv accepted
      rw [same, same'] at inputs ⊢
      exact ⟨c.kernel, inputs, c.inputRotation, c.output⟩

end Core

/-! ## Runs -/

variable {s : Simulation}

theorem hasRealtime_closed (h : s.kernel.Coherent) :
    s.closed.table.hasRealtime = s.kernel.table.hasRealtime := by
  have poised := coherent_poised h
  obtain ⟨f, scheduled, -⟩ := (coherent_deliver h).advance.becomes_schedule
  have delivered : s.deliver.2.kernel.table.hasRealtime = s.kernel.table.hasRealtime := by
    cases accepted : s.acceptance? with
    | some given => exact (becomes_deliver h accepted).hasRealtime
    | none =>
        obtain ⟨log, same⟩ := deliver_of_no_acceptance h accepted
        rw [same]
  calc s.closed.table.hasRealtime
      = s.poised.execute.2.table.hasRealtime := poised.execute.becomes_close.hasRealtime
    _ = s.poised.table.hasRealtime := poised.becomes_execute.hasRealtime
    _ = s.deliver.2.kernel.advance.table.hasRealtime := scheduled.hasRealtime
    _ = s.deliver.2.kernel.table.hasRealtime :=
        s.deliver.2.kernel.table.becomes_advance.hasRealtime
    _ = s.kernel.table.hasRealtime := delivered

theorem hasRealtime_step (h : s.kernel.Coherent) :
    s.step.2.kernel.table.hasRealtime = s.kernel.table.hasRealtime := by
  rw [← hasRealtime_closed h]
  unfold ProcessTable.hasRealtime
  rw [(ticks_step h).processes]

namespace Core

variable {v : Simulation}

theorem fst_deliver (c : s.Core v) (hs : s.kernel.Coherent) (hv : v.kernel.Coherent)
    (unwaiting : s.kernel.Unwaiting) : v.deliver.1 = s.deliver.1 ∧
      ∀ given ∈ s.deliver.1, s.kernel.table.hasRealtime given.1 := by
  have accepted := c.acceptance? unwaiting
  cases ha : s.acceptance? with
  | some given =>
      rw [ha] at accepted
      obtain ⟨hp, -, waits⟩ := waiting?_eq_some (acceptance?_eq_some ha).1
      rw [deliver_of_acceptance hs ha, deliver_of_acceptance hv accepted]
      refine ⟨rfl, fun written member => ?_⟩
      obtain ⟨text, -, rfl⟩ := List.mem_map.1 member
      rw [hs.distinct.hasRealtime_id hp]
      exact unwaiting _ hp waits
  | none =>
      rw [ha] at accepted
      obtain ⟨log, same⟩ := deliver_of_no_acceptance hs ha
      obtain ⟨log', same'⟩ := deliver_of_no_acceptance hv accepted
      rw [same, same']
      exact ⟨rfl, fun _ member => (List.not_mem_nil member).elim⟩

theorem closed (c : s.Core v) (hs : s.kernel.Coherent) (hv : v.kernel.Coherent)
    (unwaiting : s.kernel.Unwaiting) : s.closed.Core v.closed := by
  have delivered := c.deliver hs hv unwaiting
  have scheduled := delivered.kernel.advance.schedule (coherent_deliver hs).advance
    (coherent_deliver hv).advance (waitsOnly_advance hs unwaiting)
  exact (scheduled.execute (coherent_poised hs) (coherent_poised hv)).close
    (coherent_poised hs).execute (coherent_poised hv).execute

theorem filter_line? (table : ProcessTable Services) (tick : Nat) (events : List Event) :
    (events.filterMap (line? tick)).filter (fun line => table.hasRealtime line.process) =
      (events.filter fun event => table.hasRealtime event.process).filterMap (line? tick) := by
  rw [List.filter_filterMap, List.filterMap_filter]
  refine List.filterMap_congr fun event _ => ?_
  cases event with
  | output id text written =>
      simp only [line?, Event.process, Option.filter_some]
      rfl
  | _ => simp [line?]

/-- The records of a tick that are about realtime processes are those of the core. -/
theorem records_step (c : s.Core v) (hs : s.kernel.Coherent) (hv : v.kernel.Coherent)
    (unwaiting : s.kernel.Unwaiting) :
    v.step.1.output = s.realtimeLines s.step.1.output ∧
      v.step.1.events = s.kernel.realtimeEvents s.step.1.events := by
  have closed := c.closed hs hv unwaiting
  have ticks := ticks_step hs
  have ticks' := ticks_step hv
  have events : v.closed.scheduler.audit = s.kernel.realtimeEvents s.closed.scheduler.audit := by
    rw [closed.audit, Kernel.realtimeEvents, hasRealtime_closed hs]
    rfl
  obtain ⟨given, realtime⟩ := c.fst_deliver hs hv unwaiting
  constructor
  · rw [ticks.lines, ticks'.lines, events, closed.now, given, realtimeLines, List.filter_append,
      filter_line?]
    congr 1
    refine (List.filter_eq_self.2 fun line member => ?_).symm
    obtain ⟨written, made, rfl⟩ := List.mem_map.1 member
    exact realtime written made
  · rw [ticks'.events, ticks.events, events]

theorem step (c : s.Core v) (hs : s.kernel.Coherent) (hv : v.kernel.Coherent)
    (unwaiting : s.kernel.Unwaiting) : s.step.2.Core v.step.2 := by
  have closed := c.closed hs hv unwaiting
  have delivered := c.deliver hs hv unwaiting
  have ticks := ticks_step hs
  have ticks' := ticks_step hv
  have same : s.step.2.kernel.table.hasRealtime = s.closed.table.hasRealtime := by
    rw [hasRealtime_step hs, hasRealtime_closed hs]
  refine ⟨⟨?_, ?_, ?_, ?_, ?_⟩, ?_, ?_, ?_⟩
  · rw [ticks'.processes, ticks.processes, closed.processes]
  · rw [ticks'.clock, ticks.clock, closed.clock]
  · rw [ticks'.settings, ticks.settings, closed.settings]
  · rw [ticks'.current, ticks.current, closed.current, same]
  · rw [ticks'.audit, ticks.audit]
    rfl
  · rw [ticks'.inputs, ticks.inputs, delivered.inputs]
  · rw [ticks'.inputRotation, ticks.inputRotation, delivered.inputRotation]
  · rw [ticks'.output, ticks.output, c.output, (c.records_step hs hv unwaiting).1, realtimeLines,
      realtimeLines, realtimeLines, hasRealtime_step hs, List.filter_append]

end Core

theorem hasRealtime_after (h : s.kernel.Coherent) (ticks : Nat) :
    (s.after ticks).kernel.table.hasRealtime = s.kernel.table.hasRealtime := by
  induction ticks with
  | zero => rfl
  | succ ticks ih => exact (hasRealtime_step (coherent_after h ticks)).trans ih

def realtimeRecords (s : Simulation) (ticks : Nat) : List (List Output × List Event) :=
  (s.records ticks).map fun record =>
    (s.realtimeLines record.output, s.kernel.realtimeEvents record.events)

namespace Core

variable {v : Simulation}

/-- A simulation and its core stay in step for any number of ticks. -/
theorem after (c : s.Core v) (hs : s.kernel.Coherent) (hv : v.kernel.Coherent)
    (unwaiting : s.kernel.Unwaiting) (ticks : Nat) (quiet : ∀ m < ticks, (s.after m).Quiet) :
    (s.after ticks).Core (v.after ticks) ∧
      s.realtimeRecords ticks =
        (v.records ticks).map fun record => (record.output, record.events) := by
  induction ticks with
  | zero => exact ⟨c, rfl⟩
  | succ ticks ih =>
      have before := fun m hm => quiet m (Nat.lt_succ_of_lt hm)
      obtain ⟨core, records⟩ := ih before
      have unwaiting' := waitsOnly_after hs unwaiting ticks before
      have hs' := coherent_after hs ticks
      have hv' := coherent_after hv ticks
      obtain ⟨output, events⟩ := core.records_step hs' hv' unwaiting'
      refine ⟨core.step hs' hv' unwaiting', ?_⟩
      rw [realtimeRecords, Simulation.records, Simulation.records, List.map_append,
        List.map_append, List.map_singleton, List.map_singleton, output, events, ← records,
        realtimeRecords, realtimeLines, realtimeLines, Kernel.realtimeEvents,
        Kernel.realtimeEvents, hasRealtime_after hs]

end Core

end Simulation

/-! ## Scenarios with the same realtime work -/

/-- Specifications of one class, which are the same if they are realtime. -/
def ProcessSpec.SameRealtime (spec other : ProcessSpec) : Prop :=
  spec.schedulingClass = other.schedulingClass ∧
    (spec.schedulingClass = .realtime → spec = other)

instance (spec other : ProcessSpec) : Decidable (spec.SameRealtime other) :=
  inferInstanceAs (Decidable (_ ∧ _))

/-- `a.SameRealtime b`: the scenarios differ in their best-effort entries at most, and those have
the same places. The levels of their logs and their last ticks do not count. -/
structure Scenario.SameRealtime (a b : Scenario) : Prop where
  quantum : a.quantum = b.quantum
  blockTicks : a.blockTicks = b.blockTicks
  inputs : a.inputs = b.inputs
  processes : List.Forall₂ ProcessSpec.SameRealtime a.processes b.processes

theorem Scenario.SameRealtime.refl (a : Scenario) : a.SameRealtime a :=
  ⟨rfl, rfl, rfl, List.forall₂_same.2 fun _ _ => ⟨rfl, fun _ => rfl⟩⟩

namespace Simulation

theorem filter_isRealtime_eq {range : BlockRange} {specs others : List ProcessSpec}
    (same : List.Forall₂ ProcessSpec.SameRealtime specs others) (place : Nat)
    {ps qs : List (Process Services)}
    (hp : List.Forall₂ (ProcessSpec.Starts range) (specs.zipIdx place) ps)
    (hq : List.Forall₂ (ProcessSpec.Starts range) (others.zipIdx place) qs) :
    ps.filter (·.isRealtime) = qs.filter (·.isRealtime) := by
  induction same generalizing place ps qs with
  | nil =>
      cases hp
      cases hq
      rfl
  | @cons spec other specs others agree _ ih =>
      rw [List.zipIdx_cons] at hp hq
      obtain _ | ⟨starts, hp⟩ := hp
      obtain _ | ⟨starts', hq⟩ := hq
      have rest := ih (place + 1) hp hq
      rw [List.filter_cons, List.filter_cons, rest, starts.isRealtime, starts'.isRealtime, agree.1]
      split
      · rename_i realtime
        have equal : spec = other := agree.2 (agree.1.trans (of_decide_eq_true realtime))
        rw [starts.unique (equal ▸ starts')]
      · rfl

def realtimeOnly (s : Simulation) : Simulation :=
  { s with kernel := { s.kernel with table := { s.kernel.table with
    processes := s.kernel.table.processes.filter (·.isRealtime) } } }

variable {a b : Scenario} {s t : Simulation}

theorem Begins.core (hs : s.Begins a) (ht : t.Begins b) (same : b.SameRealtime a) :
    t.Core s.realtimeOnly := by
  have scheduler : s.realtimeOnly.kernel.scheduler = s.kernel.scheduler := rfl
  have start := ht.processes
  rw [same.blockTicks] at start
  refine ⟨⟨?_, ?_, ?_, ?_, ?_⟩, ?_, ?_, ?_⟩
  · exact (filter_isRealtime_eq same.processes 0 start hs.processes).symm
  · exact hs.clock.trans ht.clock.symm
  · rw [scheduler, hs.scheduler, ht.scheduler, same.quantum]
    rfl
  · rw [scheduler, hs.scheduler, ht.scheduler]
    rfl
  · rw [scheduler, hs.scheduler, ht.scheduler]
    rfl
  · exact hs.inputs.trans (same.inputs.symm.trans ht.inputs.symm)
  · exact hs.inputRotation.trans (same.blockTicks ▸ ht.inputRotation.symm)
  · rw [ht.output]
    exact hs.output

theorem Begins.coherent_realtimeOnly (hs : s.Begins a) : s.realtimeOnly.kernel.Coherent where
  distinct := {
    nodup := hs.numbered.distinct.nodup.sublist (List.filter_sublist.map _)
    below p hp := hs.numbered.distinct.below p (List.mem_filter.1 hp).1 }
  selected p hp := hs.coherent.selected p (List.mem_filter.1 hp).1

/-- Best-effort work never influences realtime work: scenarios that differ in best-effort entries
alone have, after any number of ticks, the same realtime processes in the same states, the same
output and events of realtime processes, and the same inputs left, as long as no best-effort process
has read input. -/
theorem realtime_unaffected (same : a.SameRealtime b) (hs : create a = .ok s)
    (ht : create b = .ok t) (ticks : Nat)
    (quiet : ∀ m < ticks, (s.after m).Quiet ∧ (t.after m).Quiet) :
    (s.after ticks).kernel.table.processes.filter (·.isRealtime) =
        (t.after ticks).kernel.table.processes.filter (·.isRealtime) ∧
      (s.after ticks).realtimeLines (s.after ticks).output =
        (t.after ticks).realtimeLines (t.after ticks).output ∧
      s.realtimeRecords ticks = t.realtimeRecords ticks ∧
      (s.after ticks).inputs = (t.after ticks).inputs := by
  have hs := begins_of_create hs
  have ht := begins_of_create ht
  have hv := ht.coherent_realtimeOnly
  -- Both simulations are compared with one that has the realtime processes alone.
  obtain ⟨core, records⟩ := (ht.core hs same).after hs.coherent hv (hs.waitsOnly _) ticks
    fun m hm => (quiet m hm).1
  obtain ⟨core', records'⟩ := (ht.core ht (.refl b)).after ht.coherent hv (ht.waitsOnly _) ticks
    fun m hm => (quiet m hm).2
  refine ⟨?_, ?_, ?_, ?_⟩
  · rw [← core.kernel.processes, core'.kernel.processes]
  · rw [← core.output, core'.output]
  · rw [records, records']
  · rw [← core.inputs, core'.inputs]

def beside (program : String) : Scenario where
  quantum := 2
  maxTicks := 100
  logLevel := .info
  blockTicks := .standard
  inputs := ["7"]
  processes := [
    ⟨"clock", 2, .realtime, .high, some ".code\nSYSCALL 2\nSYSCALL 1\nSYSCALL 0", none⟩,
    ⟨"other", 0, .bestEffort, .low, some program, none⟩]

theorem realtime_unaffected_by_loop :
    ∃ s t, create (beside ".code\nloop:\nADD #1\nBRANY loop") = .ok s ∧
      create (beside ".code\nSYSCALL 1\nSYSCALL 0") = .ok t ∧
      (s.after 5).realtimeLines (s.after 5).output = (t.after 5).realtimeLines (t.after 5).output ∧
      s.realtimeRecords 5 = t.realtimeRecords 5 := by
  have quiet : ∀ s ∈ (create (beside ".code\nloop:\nADD #1\nBRANY loop")).toOption,
      ∀ m < 5, (s.after m).Quiet := by decide +kernel
  have quiet' : ∀ t ∈ (create (beside ".code\nSYSCALL 1\nSYSCALL 0")).toOption,
      ∀ m < 5, (t.after m).Quiet := by decide +kernel
  obtain ⟨s, hs⟩ : ∃ s, create (beside ".code\nloop:\nADD #1\nBRANY loop") = .ok s :=
    exists_ok (by decide +kernel)
  obtain ⟨t, ht⟩ : ∃ t, create (beside ".code\nSYSCALL 1\nSYSCALL 0") = .ok t :=
    exists_ok (by decide +kernel)
  rw [hs] at quiet
  rw [ht] at quiet'
  have same : (beside ".code\nloop:\nADD #1\nBRANY loop").SameRealtime
      (beside ".code\nSYSCALL 1\nSYSCALL 0") := by
    refine ⟨rfl, rfl, rfl, .cons ?_ (.cons ?_ .nil)⟩ <;> decide
  obtain ⟨-, output, records, -⟩ := realtime_unaffected same hs ht 5 fun m hm =>
    ⟨quiet s rfl m hm, quiet' t rfl m hm⟩
  exact ⟨s, t, hs, ht, output, records⟩

end Simulation

end Timeslice
