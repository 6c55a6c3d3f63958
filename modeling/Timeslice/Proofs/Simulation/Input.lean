import Timeslice.Proofs.Simulation.Steady

/-! # Where input goes

Inputs are used up in their order, one a tick at most, by the first process that waits for any. A
number is taken by this process, and any other text is spent on it. What a number does next depends
on the process: it is blocked if it has the processor, and goes on being ready if it has lost it.
-/

namespace Timeslice

/-- Changing one process leaves those before and after it as they are. -/
theorem ProcessTable.Distinct.map_only {H : Type} {table : ProcessTable H} (h : table.Distinct)
    {p : Process H} {earlier later : List (Process H)}
    (split : table.processes = earlier ++ p :: later) (f : Process H → Process H) :
    table.processes.map (Process.only p.id f) = earlier ++ f p :: later := by
  have nodup := h.nodup
  rw [split, List.map_append, List.map_cons, List.nodup_append, List.nodup_cons] at nodup
  obtain ⟨-, ⟨after, -⟩, before⟩ := nodup
  have kept {l : List (Process H)} (others : ∀ q ∈ l, q.id ≠ p.id) :
      l.map (Process.only p.id f) = l :=
    (List.map_congr_left fun q hq => Process.only_of_ne f (others q hq)).trans (List.map_id' l)
  rw [split, List.map_append, List.map_cons, Process.only_of_eq f rfl]
  rw [kept fun q hq => before _ (List.mem_map_of_mem hq) _ List.mem_cons_self]
  rw [kept fun q hq same => after (same ▸ List.mem_map_of_mem hq)]

namespace Simulation

variable {s t : Simulation} {p q : Process Services} {text : String} {rest : List String}

/-! ## The first process that waits -/

theorem waiting?_eq_some_iff :
    s.waiting? = some p ↔ (¬ p.isExited ∧ p.cpu.waitingForInput) ∧
      ∃ earlier later, s.kernel.table.processes = earlier ++ p :: later ∧
        ∀ q ∈ earlier, ¬ q.isExited → ¬ q.cpu.waitingForInput := by
  simp [waiting?, List.find?_eq_some_iff_append, or_iff_not_imp_left, and_assoc]

theorem waiting?_eq_none_iff :
    s.waiting? = none ↔
      ∀ p ∈ s.kernel.table.processes, ¬ p.isExited → ¬ p.cpu.waitingForInput := by
  simp [waiting?]

/-! ## One delivery -/

theorem deliver_of_nothing (idle : s.waiting? = none ∨ s.inputs = []) : s.deliver = ([], s) := by
  unfold deliver
  split
  · rename_i waiting inputs
    rw [waiting, inputs] at idle
    simp at idle
  · rfl

theorem inputs_step (h : s.kernel.Coherent) :
    s.step.2.inputs = if s.waiting?.isSome then s.inputs.tail else s.inputs := by
  rw [(ticks_step h).inputs, inputs_deliver h]

/-- A text that is no number is spent and does nothing but warn. -/
theorem deliver_of_refused (h : s.kernel.Coherent) (waiting : s.waiting? = some p)
    (inputs : s.inputs = text :: rest) (refused : Text.int32? (Text.trim text.toList) = none) :
    s.deliver = ([], { s with
      inputs := rest
      log := s.log.add (.of .warn p.id s.now "input rejected"
        [("error", (Fault.invalidInput (String.ofList (Text.trim text.toList))).message)]) }) := by
  obtain ⟨hp, -, waits⟩ := waiting?_eq_some waiting
  have supplied := Cpu.supply_of_no_number waits refused
  have answer : s.kernel.table.supply p.id text =
      (.error (.invalidInput (String.ofList (Text.trim text.toList))), s.kernel.table) := by
    simp only [ProcessTable.supply, h.distinct.find?_of_mem hp, supplied]
  simp only [deliver, waiting, inputs, offer, answer]
  rfl

theorem acceptance?_of_number {number : Int32} (waiting : s.waiting? = some p)
    (inputs : s.inputs = text :: rest)
    (parsed : Text.int32? (Text.trim text.toList) = some number) :
    s.acceptance? = some (p, text) := by
  have supplied := Cpu.supply_eq_ok_true.2 ⟨(waiting?_eq_some waiting).2.2, number, parsed, rfl⟩
  simp only [acceptance?, waiting, inputs, supplied]

/-- A number is taken by the process that waits, which is blocked if it is running. -/
theorem Steady.deliver_of_taken (h : s.Steady) {number : Int32} (waiting : s.waiting? = some p)
    (inputs : s.inputs = text :: rest)
    (parsed : Text.int32? (Text.trim text.toList) = some number)
    {earlier later : List (Process Services)}
    (split : s.kernel.table.processes = earlier ++ p :: later) :
    s.deliver.2.kernel.table.processes = earlier ++
      (p.withCpu (p.cpu.given number)).feel s.now (.block s.inputRotation.next.1) :: later ∧
    s.deliver.2.inputRotation = s.inputRotation.next.2 := by
  have accepted := acceptance?_of_number waiting inputs parsed
  obtain ⟨-, -, cpu, supplied⟩ := acceptance?_eq_some accepted
  obtain ⟨other, parsed', result⟩ := (h.settled p (waiting?_eq_some waiting).1).intake_eq supplied
    s.now s.inputRotation.next.1
  cases parsed.symm.trans parsed'
  constructor
  · rw [(becomes_deliver h.coherent accepted).processes, h.coherent.distinct.map_only split, result]
  · rw [deliver_of_acceptance h.coherent accepted]

/-! ## Blocks that input makes -/

/-- What delivering does to the processes depends on them, the inputs and the rotation alone. -/
theorem table_deliver_congr (table : t.kernel.table = s.kernel.table) (inputs : t.inputs = s.inputs)
    (rotation : t.inputRotation = s.inputRotation) :
    t.deliver.2.kernel.table = s.deliver.2.kernel.table := by
  have waiting : t.waiting? = s.waiting? := by rw [waiting?, waiting?, table]
  simp only [deliver, offer, waiting, inputs, table, rotation]
  split
  · split <;> simp only [table]
  · exact table

namespace Reaches

theorem add_now_le (h : s.Reaches t) (steady : s.Steady) : Word.add s.now 1 ≤ Word.add t.now 1 := by
  induction h with
  | refl => exact Nat.le_refl _
  | @step u before ih =>
      have coherent := (before.steady steady).coherent
      refine Nat.le_trans ih ?_
      rw [now_step coherent, now_closed coherent]
      simp only [Word.add]
      omega
  | setQuantum _ _ ih => exact ih
  | setMaxTicks _ _ ih => exact ih

/-- A process that is blocked once input is delivered stays as it is until its block is over. -/
theorem holds_blocked (h : s.Reaches t) (steady : s.Steady)
    (hq : q ∈ s.deliver.2.kernel.table.processes) (blocked : q.state = .blocked)
    (bounded : q.blockEnd ≤ Word.limit) :
    q ∈ t.deliver.2.kernel.table.processes ∨ q.blockEnd ≤ t.now := by
  have awake : ¬ q.cpu.waitingForInput :=
    (steady.settled_deliver q hq).not_waiting_of_state (by simp [blocked]) (by simp [blocked])
  -- On what is reached: no later input goes to the process, so the only thing to wake it is time.
  induction h with
  | refl => exact .inl hq
  | @step u before ih =>
      have coherent := (before.steady steady).coherent
      rw [now_step coherent]
      rcases Nat.lt_or_ge u.closed.now q.blockEnd with early | due
      · rcases ih with held | past
        · refine .inl (mem_deliver (coherent_step coherent) ?_ awake)
          rw [(ticks_step coherent).processes]
          exact (mem_closed_of_blocked coherent held blocked early).2
        · rw [now_closed coherent, Word.add] at early
          omega
      · exact .inr due
  | @setQuantum u _ quantum ih =>
      exact ih.imp_left fun held =>
        (table_deliver_congr (s := u) (t := u.setQuantum quantum) rfl rfl rfl).symm ▸ held
  | @setMaxTicks u _ maxTicks ih =>
      exact ih.imp_left fun held =>
        (table_deliver_congr (s := u) (t := u.setMaxTicks maxTicks) rfl rfl rfl).symm ▸ held

/-- A process that is blocked once input is delivered executes nothing until its block is over. -/
theorem execution?_of_blocked (h : s.Reaches t) (steady : s.Steady)
    (hq : q ∈ s.deliver.2.kernel.table.processes) (blocked : q.state = .blocked)
    {ticks : Nat} (ends : q.blockEnd = Word.add s.now ticks)
    (early : t.step.1.tick < Word.add s.now (max ticks 1)) :
    ∀ given ∈ t.execution?, given.1.id ≠ q.id := by
  have coherent := (h.steady steady).coherent
  rw [tick_step] at early
  have later := h.add_now_le steady
  rw [← now_closed coherent] at later
  -- A block of no ticks is over in the next tick, which is the first one that there can be.
  have held_on : t.closed.now < q.blockEnd := by
    rw [ends]
    rcases Nat.eq_zero_or_pos ticks with rfl | positive
    · exact absurd early (Nat.not_lt.2 later)
    · rwa [Nat.max_eq_left positive] at early
  have bounded : q.blockEnd ≤ Word.limit := ends ▸ Word.add_le_limit _ _
  rcases h.holds_blocked steady hq blocked bounded with held | past
  · have poised := (mem_closed_of_blocked coherent held blocked held_on).1
    apply (coherent_poised coherent).not_executed poised
    simp [Process.isRunning, blocked]
  · rw [now_closed coherent, Word.add] at held_on
    omega

end Reaches

/-! ## All deliveries -/

variable {scenario : Scenario}

theorem Reaches.exists_consumed (h : s.Reaches t) (steady : s.Steady) :
    ∃ consumed, s.inputs = consumed ++ t.inputs := by
  induction h with
  | refl => exact ⟨[], rfl⟩
  | @step u before ih =>
      obtain ⟨consumed, split⟩ := ih
      rw [inputs_step (before.steady steady).coherent]
      split
      · refine ⟨consumed ++ u.inputs.take 1, ?_⟩
        rw [split, List.append_assoc, ← List.drop_one, List.take_append_drop]
      · exact ⟨consumed, split⟩
  | setQuantum _ _ ih => exact ih
  | setMaxTicks _ _ ih => exact ih

/-- The inputs of a scenario are used in their order. A tick uses none if no process waits for one
or none is left, and otherwise gives the next one to the first process that waits. A text that is no
number is spent on a warning. A number is taken, and it blocks a process that has the processor: the
process executes nothing before the block is over. A process that has lost the processor is realtime
and ready, and is not blocked. -/
theorem input_goes_to_first_waiting (created : create scenario = .ok s) (reached : s.Reaches t) :
    (∃ consumed, scenario.inputs = consumed ++ t.inputs) ∧
    ((∀ p ∈ t.kernel.table.processes, ¬ p.isExited → ¬ p.cpu.waitingForInput) ∨ t.inputs = [] →
      t.deliver = ([], t) ∧ t.step.2.inputs = t.inputs) ∧
    ∀ earlier p later text rest, t.kernel.table.processes = earlier ++ p :: later →
      (∀ q ∈ earlier, ¬ q.isExited → ¬ q.cpu.waitingForInput) →
      ¬ p.isExited → p.cpu.waitingForInput → t.inputs = text :: rest →
      t.step.2.inputs = rest ∧
      (Text.int32? (Text.trim text.toList) = none →
        t.deliver = ([], { t with
          inputs := rest
          log := t.log.add (.of .warn p.id t.now "input rejected" [("error",
            (Fault.invalidInput (String.ofList (Text.trim text.toList))).message)]) })) ∧
      ∀ number, Text.int32? (Text.trim text.toList) = some number →
        ∃ q, t.deliver.2.kernel.table.processes = earlier ++ q :: later ∧
          t.deliver.2.inputRotation = t.inputRotation.next.2 ∧
          q.id = p.id ∧ q.cpu.accumulator = number ∧ ¬ q.cpu.waitingForInput ∧
          (p.isRunning →
            q.state = .blocked ∧ q.blockEnd = Word.add t.now t.inputRotation.next.1 ∧
            ∀ u, t.Reaches u → u.step.1.tick < Word.add t.now (max t.inputRotation.next.1 1) →
              ∀ given ∈ u.execution?, given.1.id ≠ p.id) ∧
          (¬ p.isRunning →
            p.isRealtime ∧ p.isReady ∧ q = p.withCpu (p.cpu.given number)) := by
  have begins := begins_of_create created
  have steady := reached.steady begins.steady
  refine ⟨?_, fun nothing => ?_, fun earlier p later text rest split first alive waits inputs => ?_⟩
  · rw [← begins.inputs]
    exact reached.exists_consumed begins.steady
  · have idle := deliver_of_nothing (nothing.imp_left waiting?_eq_none_iff.2)
    refine ⟨idle, ?_⟩
    rw [(ticks_step steady.coherent).inputs, idle]
  · have waiting := waiting?_eq_some_iff.2 ⟨⟨alive, waits⟩, earlier, later, split, first⟩
    have settled := steady.settled p (waiting?_eq_some waiting).1
    refine ⟨?_, deliver_of_refused steady.coherent waiting inputs, fun number parsed => ?_⟩
    · rw [inputs_step steady.coherent, waiting, inputs]
      rfl
    obtain ⟨processes, rotation⟩ := steady.deliver_of_taken waiting inputs parsed split
    -- Only a process that has the processor can be blocked.
    by_cases running : p.isRunning
    · have blocked : (p.withCpu (p.cpu.given number)).feel t.now
          (.block t.inputRotation.next.1) =
            (p.withCpu (p.cpu.given number)).block t.now t.inputRotation.next.1 := if_pos running
      rw [blocked] at processes
      refine ⟨_, processes, rotation, rfl, rfl, Bool.false_ne_true, fun _ => ⟨rfl, rfl, ?_⟩,
        fun lost => (lost running).elim⟩
      intro u after early
      have member : (p.withCpu (p.cpu.given number)).block t.now t.inputRotation.next.1 ∈
          t.deliver.2.kernel.table.processes :=
        processes ▸ List.mem_append_right _ List.mem_cons_self
      have idle := after.execution?_of_blocked steady member rfl rfl early
      exact idle
    · have kept : (p.withCpu (p.cpu.given number)).feel t.now
          (.block t.inputRotation.next.1) = p.withCpu (p.cpu.given number) := if_neg running
      rw [kept] at processes
      obtain ⟨realtime, ready⟩ := (settled.waits waits).resolve_left running
      exact ⟨_, processes, rotation, rfl, rfl, Bool.false_ne_true,
        fun goes => (running goes).elim, fun _ => ⟨realtime, ready, rfl⟩⟩

def mistyped : Scenario where
  quantum := 1
  maxTicks := 100
  logLevel := .info
  blockTicks := .standard
  inputs := ["x", "7"]
  processes := [⟨"reader", 0, .bestEffort, .low, some ".code\nSYSCALL 2\nSYSCALL 0", none⟩]

theorem input_goes_to_first_waiting_mistyped :
    ∃ s p q, create mistyped = .ok s ∧ (s.after 1).waiting?.isSome ∧
      (s.after 1).step.2.inputs = ["7"] ∧
      (s.after 2).kernel.table.processes = [p] ∧ p.cpu.waitingForInput ∧
      (s.after 2).deliver.2.kernel.table.processes = [q] ∧ q.cpu.accumulator = 7 ∧
      q.state = .blocked ∧ q.blockEnd = 5 ∧
      ∀ given ∈ (s.after 3).execution?, given.1.id ≠ p.id := by
  obtain ⟨s, hs⟩ : ∃ s, create mistyped = .ok s := exists_ok (by decide +kernel)
  have waits : ∀ s ∈ (create mistyped).toOption,
      (s.after 1).waiting?.isSome ∧ (s.after 1).step.2.inputs = ["7"] ∧
      (s.after 2).inputs = ["7"] ∧ (s.after 2).now = 2 ∧ (s.after 2).inputRotation.next.1 = 3 ∧
      (s.after 3).step.1.tick = 4 ∧ (s.after 2).kernel.table.processes.map
        (fun p => (p.isExited, p.cpu.waitingForInput, p.isRunning)) = [(false, true, true)] := by
    decide +kernel
  rw [hs] at waits
  obtain ⟨waiting, refused, inputs, now, duration, tick, reader⟩ := waits s rfl
  obtain ⟨p, single, state⟩ := List.map_eq_singleton_iff.1 reader
  simp only [Prod.mk.injEq] at state
  obtain ⟨-, -, delivery⟩ := input_goes_to_first_waiting hs (Reaches.refl.after 2)
  obtain ⟨-, -, taken⟩ :=
    delivery [] p [] "7" [] single (by simp) (by simp [state]) state.2.1 inputs
  obtain ⟨q, after, -, -, accumulator, -, blocks, -⟩ := taken 7 (by decide +kernel)
  obtain ⟨blocked, ends, idle⟩ := blocks state.2.2
  rw [now, duration] at ends idle
  refine ⟨s, p, q, hs, waiting, refused, single, state.2.1, after, accumulator, blocked, ends, ?_⟩
  refine idle (s.after 3) (.step .refl) ?_
  rw [tick]
  decide

/-- A process that lost the processor while it waits is not blocked by its input: it executes its
next instruction in the tick in which it is given the input. -/
theorem input_taken_while_ready :
    ∃ s, create contended = .ok s ∧
      (s.after 2).acceptance?.map (fun given => (given.1.id, given.2)) = some (1, "7") ∧
      (s.after 2).now = 2 ∧ (s.after 2).inputRotation.next.1 = 3 ∧
      ((s.after 2).deliver.2.kernel.table.find? 1).map (fun p => (p.state, p.blockEnd)) =
        some (.ready, 0) ∧
      (s.after 2).step.1.tick = 3 ∧
      (s.after 2).execution?.map (fun given => (given.1.id, given.2)) =
        some (1, .syscall (.immediate Services.printCode)) := by
  obtain ⟨s, hs⟩ : ∃ s, create contended = .ok s := exists_ok (by decide +kernel)
  have lost : ∀ s ∈ (create contended).toOption,
      (s.after 2).acceptance?.map (fun given => (given.1.id, given.2)) = some (1, "7") ∧
      (s.after 2).now = 2 ∧ (s.after 2).inputRotation.next.1 = 3 ∧
      ((s.after 2).deliver.2.kernel.table.find? 1).map (fun p => (p.state, p.blockEnd)) =
        some (.ready, 0) ∧
      (s.after 2).step.1.tick = 3 ∧
      (s.after 2).execution?.map (fun given => (given.1.id, given.2)) =
        some (1, .syscall (.immediate Services.printCode)) := by decide +kernel
  rw [hs] at lost
  exact ⟨s, hs, lost s rfl⟩

end Simulation

end Timeslice
