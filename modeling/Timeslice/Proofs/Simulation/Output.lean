import Timeslice.Proofs.Simulation.Steady

/-! # Where output comes from

A tick has two causes of output: the input that is taken and the instruction that is executed. Its
lines are those of the two causes, and the output of a run is the lines of its ticks.
-/

namespace Timeslice

/-- Texts that are put out are the texts among the effects. -/
theorem Effect.texts_map_output (texts : List String) :
    Effect.texts (texts.map .output) = texts := by
  rw [Effect.texts, List.filterMap_map]
  exact List.filterMap_some

namespace Simulation

/-! ## Lines among events -/

theorem line?_eq_none {event : Event} (tick : Nat)
    (other : ∀ id text now, event ≠ .output id text now) : line? tick event = none := by
  cases event with
  | output id text now => exact (other id text now rfl).elim
  | _ => rfl

theorem filterMap_line?_eq_nil {events : List Event} (tick : Nat)
    (other : ∀ event ∈ events, ∀ id text now, event ≠ .output id text now) :
    events.filterMap (line? tick) = [] :=
  List.filterMap_eq_nil_iff.2 fun event member => line?_eq_none tick (other event member)

theorem filterMap_line?_turnEvents (p : Process Services) (now tick : Nat) :
    (p.turnEvents now).filterMap (line? tick) = p.utters.map (Output.mk tick p.id) := by
  have ended (alive : Bool) :
      (if alive then [Event.exited p.id .normal now] else []).filterMap (line? tick) = [] := by
    cases alive <;> rfl
  rcases stepped : p.cpu.step with ⟨fault | executed, cpu⟩
  · simp only [Process.turnEvents, Process.utters, stepped]
    rfl
  · simp only [Process.turnEvents, Process.utters, stepped]
    rw [List.filterMap_append, ended, List.append_nil, List.filterMap_map]
    exact congrFun (List.filterMap_eq_map (f := Output.mk tick p.id)) cpu.texts

/-! ## Causes -/

variable {s : Simulation} {p : Process Services}

/-- What the input that is taken in the next tick puts out, with the process that takes it. -/
def heard (s : Simulation) : List (Pid × String) :=
  match s.acceptance? with
  | some (p, text) => (Cpu.reception text).map fun line => (p.id, line)
  | none => []

/-- What the instruction that is executed in the next tick puts out, with its process. -/
def said (s : Simulation) : List (Pid × String) :=
  match s.execution? with
  | some (p, instruction) => (instruction.speech p.cpu.accumulator).map fun line => (p.id, line)
  | none => []

/-- What is heard comes from a process that waits for input. -/
theorem exists_of_mem_heard {line : Pid × String} (member : line ∈ s.heard) :
    ∃ p, s.waiting? = some p ∧ line.1 = p.id := by
  unfold heard at member
  split at member
  · rename_i p text accepted
    obtain ⟨output, -, rfl⟩ := List.mem_map.1 member
    exact ⟨p, (acceptance?_eq_some accepted).1, rfl⟩
  · contradiction

/-- What is said comes from the process that has the processor. -/
theorem exists_of_mem_said {line : Pid × String} (member : line ∈ s.said) :
    ∃ p, s.poised.table.running? = some p ∧ line.1 = p.id := by
  unfold said at member
  split at member
  · rename_i p instruction executes
    obtain ⟨output, -, rfl⟩ := List.mem_map.1 member
    exact ⟨p, (Kernel.execution?_eq_some executes).1, rfl⟩
  · contradiction

namespace Steady

theorem fst_deliver (h : s.Steady) : s.deliver.1 = s.heard := by
  cases accepted : s.acceptance? with
  | none =>
      obtain ⟨log, same⟩ := deliver_of_no_acceptance h.coherent accepted
      simp only [same, heard, accepted]
  | some given =>
      obtain ⟨p, text⟩ := given
      obtain ⟨waiting, -, cpu, supplied⟩ := acceptance?_eq_some accepted
      have settled := h.settled p (waiting?_eq_some waiting).1
      obtain ⟨-, number, -, rfl⟩ := Cpu.supply_eq_ok_true.1 supplied
      have effects : (p.receive text).cpu.effects = (Cpu.reception text).map .output := by
        simp only [Process.receive, supplied]
        exact congrArg (fun cpu : Cpu Services => cpu.effects)
          (Cpu.read_eq settled.handled settled.clean text number)
      rw [deliver_of_acceptance h.coherent accepted, Cpu.texts, effects, Effect.texts_map_output]
      simp only [heard, accepted]

/-- What a turn puts out is what its instruction does. -/
theorem said_of_running (h : s.Steady) (hr : s.poised.table.running? = some p) :
    s.said = p.utters.map fun line => (p.id, line) := by
  obtain ⟨hp, running⟩ := (coherent_poised h.coherent).running?_eq_some.1 hr
  have able := h.able_poised p hp
  have plays := able.plays running 0
  have silent {cpu : Cpu Services} (clean : cpu.effects = []) : cpu.texts = [] := by
    rw [Cpu.texts, clean]
    rfl
  generalize p.turn 0 = q at plays
  cases plays with
  | passed waits stepped =>
      simp only [said, execution?, Kernel.execution?, hr, Process.utters, stepped,
        silent able.clean, List.map_nil]
  | stopped awake halted stepped =>
      have mute : ({ p.cpu with running := false } : Cpu Services).texts = [] := silent able.clean
      simp only [said, execution?, Kernel.execution?, hr, Process.utters, stepped, mute,
        List.map_nil]
  | failed awake fault current stepped =>
      simp only [said, execution?, Kernel.execution?, hr, Process.utters, stepped, List.map_nil]
  | worked awake current executed stepped leaves =>
      simp only [said, execution?, Kernel.execution?, hr, Process.utters, stepped, current,
        Option.map_some, Cpu.texts, leaves.texts]

theorem filterMap_line?_turned (h : s.Steady) (tick : Nat) :
    s.poised.turned.filterMap (line? tick) =
      s.said.map fun line => Output.mk tick line.1 line.2 := by
  cases hr : s.poised.table.running? with
  | none => simp only [Kernel.turned, hr, said, execution?, Kernel.execution?, List.filterMap_nil,
      List.map_nil]
  | some p =>
      rw [h.said_of_running hr, List.map_map]
      simp only [Kernel.turned, hr, filterMap_line?_turnEvents]
      rfl

/-- The lines of a tick are those of its causes, the input before the instruction. -/
theorem output_step (h : s.Steady) : s.step.1.output =
    (s.heard ++ s.said).map fun line => Output.mk s.step.1.tick line.1 line.2 := by
  have ticks := ticks_step h.coherent
  have switched : s.timed.switches.filterMap (line? s.closed.now) = [] := by
    refine filterMap_line?_eq_nil _ fun event member id text now => ?_
    rcases (coherent_deliver h.coherent).advance.mem_switches member with ⟨-, parted⟩ | ⟨p, rfl, -⟩
    · rcases Kernel.mem_partings parted with ⟨r, -, rfl⟩ | ⟨-, _, -, -, rfl⟩ <;> nofun
    · nofun
  have closed : s.poised.execute.2.closings.filterMap (line? s.closed.now) = [] := by
    refine filterMap_line?_eq_nil _ fun event member id text now => ?_
    obtain ⟨_, _, rfl⟩ := Kernel.mem_closings member
    nofun
  rw [ticks.lines, ← ticks.events, events_step h.coherent h.clear, List.filterMap_append,
    List.filterMap_append, switched, closed, h.filterMap_line?_turned, h.fst_deliver,
    List.nil_append, List.append_nil, tick_step, List.map_append]

end Steady

/-! ## Runs -/

theorem output_after (h : s.Steady) (ticks : Nat) :
    (s.after ticks).output = s.output ++ (s.records ticks).flatMap (·.output) := by
  induction ticks with
  | zero => exact (List.append_nil _).symm
  | succ ticks ih =>
      rw [after, (ticks_step (h.after ticks).coherent).output, ih, records, List.flatMap_append,
        List.flatMap_singleton, List.append_assoc]

theorem records_eq (s : Simulation) (ticks : Nat) :
    s.records ticks = (List.range ticks).map fun m => (s.after m).step.1 := by
  induction ticks with
  | zero => rfl
  | succ ticks ih => rw [records, ih, List.range_succ, List.map_append, List.map_singleton]

/-- No output is lost, doubled or invented: the output of a run is that of its ticks, and a tick
puts out what the input that is taken and the instruction that is executed in it do, in this order,
each line with its process and the tick. -/
theorem output_has_causes {scenario : Scenario} (created : create scenario = .ok s) (ticks : Nat) :
    (s.after ticks).output = (s.records ticks).flatMap (·.output) ∧
      (s.after ticks).report.output = (s.records ticks).flatMap (·.output) ∧
      s.records ticks = (List.range ticks).map (fun m => (s.after m).step.1) ∧
      ∀ m, (s.after m).step.1.tick = min (m + 1) Word.limit ∧
        (s.after m).step.1.output = ((s.after m).heard ++ (s.after m).said).map fun line =>
          ⟨min (m + 1) Word.limit, line.1, line.2⟩ := by
  have hs := begins_of_create created
  have output : (s.after ticks).output = (s.records ticks).flatMap (·.output) := by
    rw [output_after hs.steady, hs.output, List.nil_append]
  refine ⟨output, output, s.records_eq ticks, fun m => ⟨hs.tick_after m, ?_⟩⟩
  rw [(hs.steady.after m).output_step, hs.tick_after]

def greeting : Scenario where
  quantum := 2
  maxTicks := 100
  logLevel := .info
  blockTicks := ⟨1, 1⟩
  inputs := [" 0101 "]
  processes := [⟨"greeter", 0, .bestEffort, .low,
    some ".code\nSYSCALL 2\nSYSCALL 1\nSYSCALL -1\nSYSCALL 0", none⟩]

theorem output_has_causes_greeting :
    ∃ s, create greeting = .ok s ∧
      (s.after 4).output = [⟨2, 1, "Ola"⟩, ⟨2, 1, "101"⟩, ⟨3, 1, "Ola"⟩] ∧
      (s.records 4).flatMap (·.output) = [⟨2, 1, "Ola"⟩, ⟨2, 1, "101"⟩, ⟨3, 1, "Ola"⟩] ∧
      (s.after 1).step.1.output = [⟨2, 1, "Ola"⟩, ⟨2, 1, "101"⟩] := by
  obtain ⟨s, hs⟩ : ∃ s, create greeting = .ok s := exists_ok (by decide +kernel)
  have caused : ∀ s ∈ (create greeting).toOption, (s.after 1).heard = [(1, "Ola")] ∧
      (s.after 1).said = [(1, "101")] ∧
      (s.after 4).output = [⟨2, 1, "Ola"⟩, ⟨2, 1, "101"⟩, ⟨3, 1, "Ola"⟩] := by decide +kernel
  rw [hs] at caused
  obtain ⟨heard, said, output⟩ := caused s rfl
  obtain ⟨all, -, -, each⟩ := output_has_causes hs 4
  refine ⟨s, hs, output, all.symm.trans output, ?_⟩
  rw [(each 1).2, heard, said]
  rfl

end Simulation

end Timeslice
