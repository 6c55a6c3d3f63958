import Timeslice.Proofs.Simulation.Input
import Timeslice.Proofs.Simulation.Output

/-! # Output in the audit

The events of a tick record what its instruction puts out. What its input puts out is a line of the
tick as well, but no event: it comes before the lines that the events record.
-/

namespace Timeslice

namespace Simulation

variable {s t : Simulation} {p : Process Services} {text : String}

/-! ## What input puts out -/

/-- The text that greets is a number, so it is taken. -/
theorem acceptance?_of_sentinel {rest : List String} (waiting : s.waiting? = some p)
    (inputs : s.inputs = text :: rest) (greets : Text.trim text.toList = Cpu.sentinel.toList) :
    s.acceptance? = some (p, text) := by
  have number : Text.int32? (Text.trim text.toList) = some 101 := by
    rw [greets]
    decide
  exact acceptance?_of_number waiting inputs number

theorem heard_of_sentinel {rest : List String} (waiting : s.waiting? = some p)
    (inputs : s.inputs = text :: rest) (greets : Text.trim text.toList = Cpu.sentinel.toList) :
    s.heard = [(p.id, Services.greeting)] := by
  simp only [heard, acceptance?_of_sentinel waiting inputs greets, Cpu.reception, greets, if_true,
    List.map_singleton]

/-- Input puts nothing out unless a process waits and the next text is the one that greets. -/
theorem heard_eq_nil_iff :
    s.heard = [] ↔ ∀ p text rest, s.waiting? = some p → s.inputs = text :: rest →
      Text.trim text.toList ≠ Cpu.sentinel.toList := by
  constructor
  · intro silent p text rest waiting inputs greets
    rw [heard_of_sentinel waiting inputs greets] at silent
    contradiction
  · intro plain
    unfold heard
    split
    · rename_i p text accepted
      obtain ⟨waiting, ⟨rest, inputs⟩, -⟩ := acceptance?_eq_some accepted
      rw [Cpu.reception, if_neg (plain p text rest waiting inputs), List.map_nil]
    · rfl

/-! ## What is audited -/

/-- The lines that the events of a tick record are those of its instruction. -/
theorem Steady.filterMap_line?_events (h : s.Steady) :
    s.step.1.events.filterMap (line? s.step.1.tick) =
      s.said.map fun line => Output.mk s.step.1.tick line.1 line.2 := by
  have ticks := ticks_step h.coherent
  have lines := ticks.lines
  rw [← ticks.events, ← tick_step, h.fst_deliver, h.output_step, List.map_append] at lines
  exact (List.append_cancel_left lines).symm

/-- Output is audited but for the greeting that input makes. The lines of a tick are what its input
puts out, followed by the lines that its events record one for one, in their order and with their
process and text; and these are what its instruction puts out. So the lines are just those that are
recorded if and only if input puts nothing out, which it does only where a process waits and is
given the text that greets. -/
theorem output_audited {scenario : Scenario} (created : create scenario = .ok s)
    (reached : s.Reaches t) :
    t.step.1.output = (t.heard.map fun line => ⟨t.step.1.tick, line.1, line.2⟩) ++
        t.step.1.events.filterMap (line? t.step.1.tick) ∧
      t.step.1.events.filterMap (line? t.step.1.tick) =
        t.said.map (fun line => ⟨t.step.1.tick, line.1, line.2⟩) ∧
      (t.step.1.output = t.step.1.events.filterMap (line? t.step.1.tick) ↔
        ∀ p text rest, t.waiting? = some p → t.inputs = text :: rest →
          Text.trim text.toList ≠ Cpu.sentinel.toList) ∧
      ∀ p text rest, t.waiting? = some p → t.inputs = text :: rest →
        Text.trim text.toList = Cpu.sentinel.toList → t.heard = [(p.id, Services.greeting)] := by
  have steady := reached.steady (begins_of_create created).steady
  have audited := steady.filterMap_line?_events
  have output := steady.output_step
  rw [List.map_append, ← audited] at output
  refine ⟨output, audited, ?_, fun p text rest => heard_of_sentinel⟩
  rw [output, List.append_left_eq_self, List.map_eq_nil_iff]
  exact heard_eq_nil_iff

theorem output_audited_greeting :
    ∃ s, create greeting = .ok s ∧ s.Reaches (s.after 1) ∧
      (s.after 1).step.1.output = [⟨2, 1, "Ola"⟩, ⟨2, 1, "101"⟩] ∧
      (s.after 1).step.1.events.filterMap (line? 2) = [⟨2, 1, "101"⟩] := by
  obtain ⟨s, hs⟩ : ∃ s, create greeting = .ok s := exists_ok (by decide +kernel)
  have caused : ∀ s ∈ (create greeting).toOption, (s.after 1).heard = [(1, "Ola")] ∧
      (s.after 1).said = [(1, "101")] ∧ (s.after 1).step.1.tick = 2 := by decide +kernel
  rw [hs] at caused
  obtain ⟨heard, said, tick⟩ := caused s rfl
  have reached : s.Reaches (s.after 1) := Reaches.refl.after 1
  obtain ⟨output, audited, -⟩ := output_audited hs reached
  rw [audited, heard, said, tick] at output
  rw [said, tick] at audited
  exact ⟨s, hs, reached, output, audited⟩

def visited : Scenario where
  quantum := 2
  maxTicks := 1000
  logLevel := .info
  blockTicks := .standard
  inputs := ["0101"]
  processes :=
    [⟨"reader", 0, .bestEffort, .low, some ".code\nSYSCALL 2\nSYSCALL 0\n.endcode", none⟩]

/-- The greeting is a line of the tick in which the input is taken, and the tick has no event. -/
theorem greeting_not_audited :
    ∃ s, create visited = .ok s ∧ (s.after 1).step.1.output = [⟨2, 1, "Ola"⟩] ∧
      (s.after 1).step.1.events = [] := by
  obtain ⟨s, hs⟩ : ∃ s, create visited = .ok s := exists_ok (by decide +kernel)
  have greeted : ∀ s ∈ (create visited).toOption,
      (s.after 1).step.1.output = [⟨2, 1, "Ola"⟩] ∧ (s.after 1).step.1.events = [] := by
    decide +kernel
  rw [hs] at greeted
  exact ⟨s, hs, greeted s rfl⟩

end Simulation

end Timeslice
