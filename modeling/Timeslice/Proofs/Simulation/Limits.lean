import Mathlib.Data.Nat.Find
import Timeslice.Proofs.Simulation.Steady

/-! # How long runs last

A run goes on as long as nothing ends it. Each tick moves the clock on, so the last tick allowed
ends a run that nothing else ends, also where the clock can go no further. A run that is cut short
by a lower limit goes on from there as if it had not stopped.
-/

namespace Timeslice.Simulation

variable {s t : Simulation} {scenario : Scenario}

/-! ## Runs in parts -/

theorem after_add (s : Simulation) (a b : Nat) : s.after (a + b) = (s.after a).after b := by
  induction b with
  | zero => rfl
  | succ b ih => exact congrArg (fun t : Simulation => t.step.2) ih

theorem records_add (s : Simulation) (a b : Nat) :
    s.records (a + b) = s.records a ++ (s.after a).records b := by
  induction b with
  | zero => exact (List.append_nil _).symm
  | succ b ih => rw [← Nat.add_assoc, records, ih, after_add, records, List.append_assoc]

/-! ## The last tick allowed

The limit is read between ticks alone: a tick does the same under any limit. -/

theorem offer_setMaxTicks (s : Simulation) (maxTicks : Nat) (id : Pid) (input : String) :
    (s.setMaxTicks maxTicks).offer id input =
      ((s.offer id input).1, (s.offer id input).2.setMaxTicks maxTicks) := by
  simp only [offer, setMaxTicks]
  split <;> rfl

theorem deliver_setMaxTicks (s : Simulation) (maxTicks : Nat) :
    (s.setMaxTicks maxTicks).deliver = (s.deliver.1, s.deliver.2.setMaxTicks maxTicks) := by
  have waiting : (s.setMaxTicks maxTicks).waiting? = s.waiting? := rfl
  have inputs : (s.setMaxTicks maxTicks).inputs = s.inputs := rfl
  unfold deliver
  rw [waiting, inputs]
  split
  · rename_i p input rest _ _
    have offered := offer_setMaxTicks { s with inputs := rest } maxTicks p.id input
    exact congrArg (fun given : List String × Simulation =>
      (given.1.map fun text => (p.id, text), given.2)) offered
  · rfl

theorem finishHalted_setMaxTicks (s : Simulation) (maxTicks : Nat) :
    (s.setMaxTicks maxTicks).finishHalted = s.finishHalted.setMaxTicks maxTicks := by
  simp only [finishHalted, setMaxTicks]
  split
  · rfl
  · split <;> rfl

theorem step_setMaxTicks (s : Simulation) (maxTicks : Nat) :
    (s.setMaxTicks maxTicks).step = (s.step.1, s.step.2.setMaxTicks maxTicks) := by
  have finished := finishHalted_setMaxTicks
    { s.deliver.2 with kernel := s.deliver.2.kernel.tick.2 } maxTicks
  unfold step
  rw [deliver_setMaxTicks]
  exact congrArg (fun t : Simulation => t.conclude s.deliver.2.kernel.tick.1.1 s.deliver.1) finished

theorem after_setMaxTicks (s : Simulation) (maxTicks ticks : Nat) :
    (s.setMaxTicks maxTicks).after ticks = (s.after ticks).setMaxTicks maxTicks := by
  induction ticks with
  | zero => rfl
  | succ ticks ih => rw [after, ih, step_setMaxTicks, after]

theorem records_setMaxTicks (s : Simulation) (maxTicks ticks : Nat) :
    (s.setMaxTicks maxTicks).records ticks = s.records ticks := by
  induction ticks with
  | zero => rfl
  | succ ticks ih => rw [records, ih, after_setMaxTicks, step_setMaxTicks, records]

theorem maxTicks_after (s : Simulation) (ticks : Nat) : (s.after ticks).maxTicks = s.maxTicks := by
  have same : s.setMaxTicks s.maxTicks = s := rfl
  have kept := after_setMaxTicks s s.maxTicks ticks
  rw [same] at kept
  rw [kept]
  rfl

/-! ## What ends a run -/

def AllExited (s : Simulation) : Prop := ∀ p ∈ s.kernel.table.processes, p.state = .exit

/-- A process that has not exited waits for input, and none is left. -/
def Starves (s : Simulation) : Prop :=
  s.inputs = [] ∧ ∃ p ∈ s.kernel.table.processes, p.state ≠ .exit ∧ p.cpu.waitingForInput

theorem isIdle_iff : s.kernel.table.isIdle ↔ s.AllExited := by
  simp [ProcessTable.isIdle, AllExited, Process.isExited, ProcessState.isTerminal]

theorem isSome_waiting?_iff :
    s.waiting?.isSome ↔
      ∃ p ∈ s.kernel.table.processes, p.state ≠ .exit ∧ p.cpu.waitingForInput := by
  simp [waiting?, Process.isExited, ProcessState.isTerminal]

theorem starves_iff : (s.inputs.isEmpty && s.waiting?.isSome) ↔ s.Starves := by
  rw [Bool.and_eq_true, isSome_waiting?_iff, List.isEmpty_iff, Starves]

/-- The three endings exclude each other, and none holds only before the last tick allowed. -/
theorem ending?_cases (s : Simulation) :
    (s.ending? = some .allExited ∧ s.AllExited) ∨
      (s.ending? = some .inputExhausted ∧ ¬ s.AllExited ∧ s.Starves) ∨
      (s.ending? = some .tickLimit ∧ ¬ s.AllExited ∧ ¬ s.Starves ∧ s.maxTicks ≤ s.now) ∨
      (s.ending? = none ∧ ¬ s.AllExited ∧ ¬ s.Starves ∧ s.now < s.maxTicks) := by
  unfold ending?
  by_cases idle : s.AllExited
  · simp [isIdle_iff.2 idle, idle]
  · rw [if_neg fun all => idle (isIdle_iff.1 all)]
    by_cases starves : s.Starves
    · simp [starves_iff.2 starves, idle, starves]
    · rw [if_neg fun wanted => starves (starves_iff.1 wanted)]
      by_cases last : s.maxTicks ≤ s.now
      · simp [last, idle, starves]
      · simp [last, idle, starves, Nat.lt_of_not_le last]

/-- `s.Lasts ticks`: a run of `s` is over after so many ticks and not before. -/
structure Lasts (s : Simulation) (ticks : Nat) : Prop where
  going : ∀ m < ticks, (s.after m).ending? = none
  stops : (s.after ticks).ending? ≠ none

namespace Lasts

variable {a b : Nat}

theorem unique (ha : s.Lasts a) (hb : s.Lasts b) : a = b := by
  apply Nat.le_antisymm
  · exact Nat.le_of_not_lt fun lt => hb.stops (ha.going b lt)
  · exact Nat.le_of_not_lt fun lt => ha.stops (hb.going a lt)

/-- What is left of a run that lasts a tick more. -/
theorem tail (h : s.Lasts (a + 1)) : s.step.2.Lasts a := by
  have shifted (m : Nat) : s.step.2.after m = s.after (m + 1) := by
    rw [Nat.add_comm, after_add]
    rfl
  constructor
  · intro m hm
    rw [shifted]
    exact h.going (m + 1) (Nat.succ_lt_succ hm)
  · rw [shifted]
    exact h.stops

/-- Runs are put together where nothing ends the whole earlier than the first part. -/
theorem append (going : ∀ m < a, (s.after m).ending? = none) (h : (s.after a).Lasts b) :
    s.Lasts (a + b) := by
  constructor
  · intro m hm
    by_cases early : m < a
    · exact going m early
    · obtain ⟨k, rfl⟩ := Nat.exists_eq_add_of_le (Nat.le_of_not_lt early)
      rw [after_add]
      exact h.going k (by omega)
  · rw [after_add]
    exact h.stops

end Lasts

/-! ## The clock as the measure of a run -/

theorem now_after_of_le (h : s.kernel.Coherent) {ticks : Nat} (room : ticks ≤ Word.limit - s.now) :
    (s.after ticks).now = s.now + ticks := by
  induction ticks with
  | zero => rfl
  | succ ticks ih =>
      have coherent := coherent_after h ticks
      have before := ih (by omega)
      rw [after, now_step coherent, now_closed coherent, before, Word.add_of_le (by omega),
        Nat.add_assoc]

theorem ending?_of_limit (h : s.maxTicks ≤ s.now) : s.ending? ≠ none := by
  rcases s.ending?_cases with ⟨ending, -⟩ | ⟨ending, -⟩ | ⟨ending, -⟩ | ⟨-, -, -, early⟩
  · simp [ending]
  · simp [ending]
  · simp [ending]
  · omega

/-- A run is over at the last tick allowed at the latest, which the clock reaches. -/
theorem exists_lasts (h : s.kernel.Coherent) (word : s.maxTicks ≤ Word.limit) :
    ∃ ticks ≤ s.maxTicks - s.now, s.Lasts ticks := by
  have last : (s.after (s.maxTicks - s.now)).ending? ≠ none := by
    apply ending?_of_limit
    rw [maxTicks_after]
    by_cases passed : s.maxTicks ≤ s.now
    · rw [Nat.sub_eq_zero_of_le passed]
      exact passed
    · rw [now_after_of_le h (by omega)]
      omega
  have some_end : ∃ ticks, (s.after ticks).ending? ≠ none := ⟨_, last⟩
  refine ⟨Nat.find some_end, Nat.find_min' some_end last, ?_, Nat.find_spec some_end⟩
  intro m hm
  exact Decidable.not_not.1 (Nat.find_min some_end hm)

/-! ## Runs and their reports -/

section Callback

variable {σ : Type} (onTick : σ → TickRecord → σ)

theorem foldTicks_of_lasts {ticks limit : Nat} (acc : σ) (h : s.Lasts ticks)
    (enough : ticks ≤ limit) :
    foldTicks onTick limit acc s = ((s.records ticks).foldl onTick acc, s.after ticks) := by
  induction limit generalizing s ticks acc with
  | zero =>
      rw [Nat.le_zero.1 enough]
      rfl
  | succ limit ih =>
      cases ticks with
      | zero =>
          obtain ⟨ending, stops⟩ := Option.ne_none_iff_exists'.1 h.stops
          have stopped : s.ending? = some ending := stops
          simp only [foldTicks, stopped]
          rfl
      | succ ticks =>
          have going : s.ending? = none := h.going 0 (Nat.succ_pos ticks)
          have rest := ih (onTick acc s.step.1) h.tail (Nat.le_of_succ_le_succ enough)
          have records : s.records (1 + ticks) = s.step.1 :: s.step.2.records ticks :=
            s.records_add 1 ticks
          have after : s.after (1 + ticks) = s.step.2.after ticks := s.after_add 1 ticks
          simp only [foldTicks, going]
          rw [rest, Nat.add_comm ticks, records, after, List.foldl_cons]

/-- A run is what its ticks are: no more than the clock has room for are needed. -/
theorem runWith_of_lasts (h : s.kernel.Coherent) (word : s.maxTicks ≤ Word.limit) {ticks : Nat}
    (lasts : s.Lasts ticks) (acc : σ) :
    s.runWith onTick acc =
      ((s.records ticks).foldl onTick acc, (s.after ticks).report, s.after ticks) := by
  obtain ⟨count, room, counted⟩ := exists_lasts h word
  have enough : ticks ≤ s.maxTicks - s.now := lasts.unique counted ▸ room
  simp only [runWith, foldTicks_of_lasts onTick acc lasts enough]

end Callback

theorem trace_of_lasts (h : s.kernel.Coherent) (word : s.maxTicks ≤ Word.limit) {ticks : Nat}
    (lasts : s.Lasts ticks) :
    s.trace = (s.records ticks, (s.after ticks).report, s.after ticks) := by
  simp only [trace, runWith_of_lasts _ h word lasts, List.foldl_flip_cons_eq_append,
    List.append_nil, List.reverse_reverse, List.map_id']

/-- The ticks of a run are counted from where it begins. -/
theorem ticks_records (h : s.kernel.Coherent) {ticks : Nat} (room : ticks ≤ Word.limit - s.now) :
    (s.records ticks).map (·.tick) = List.range' (s.now + 1) ticks := by
  induction ticks with
  | zero => rfl
  | succ ticks ih =>
      have tick : (s.after ticks).step.1.tick = s.now + 1 + ticks := by
        rw [tick_step, ← now_step (coherent_after h ticks)]
        exact (now_after_of_le h room).trans (by omega)
      rw [records, List.map_append, ih (by omega), List.map_singleton, tick,
        List.range'_1_concat]

/-! ## How runs end -/

theorem ending_iff {ending : Ending} (stops : s.ending? = some ending) :
    (ending = .allExited ↔ s.AllExited) ∧
      (ending = .inputExhausted ↔ ¬ s.AllExited ∧ s.Starves) ∧
      (ending = .tickLimit ↔ ¬ s.AllExited ∧ ¬ s.Starves) := by
  rcases s.ending?_cases with ⟨h, all⟩ | ⟨h, busy, starves⟩ | ⟨h, busy, fed, -⟩ | ⟨h, -⟩
  · cases h.symm.trans stops
    simp [all]
  · cases h.symm.trans stops
    simp [busy, starves]
  · cases h.symm.trans stops
    simp [busy, fed]
  · rw [h] at stops
    contradiction

/-- Every run ends. It runs as many ticks as pass before something ends it, never more than lie
before the last tick allowed, and shows each of them in turn; they are numbered from the clock on.
Its report says which ending it was: that all processes have exited goes before input that is
wanted, and that before the limit. A run that is over does not go on. -/
theorem run_ends (created : create scenario = .ok s) (reached : s.Reaches t)
    (word : t.maxTicks ≤ Word.limit) :
    ∃ ticks ≤ t.maxTicks - t.now, ∃ last, last = t.after ticks ∧
      (∀ m < ticks, (t.after m).ending? = none) ∧
      last.ending? = some last.report.ending ∧
      (∀ {σ : Type} (onTick : σ → TickRecord → σ) (acc : σ),
        t.runWith onTick acc = ((t.records ticks).foldl onTick acc, last.report, last)) ∧
      (t.records ticks).map (·.tick) = List.range' (t.now + 1) ticks ∧
      last.report.ticks = t.now + ticks ∧
      (last.report.ending = .allExited ↔ last.AllExited) ∧
      (last.report.ending = .inputExhausted ↔ ¬ last.AllExited ∧ last.Starves) ∧
      (last.report.ending = .tickLimit ↔ ¬ last.AllExited ∧ ¬ last.Starves) ∧
      ∀ {σ : Type} (onTick : σ → TickRecord → σ) (acc : σ),
        last.runWith onTick acc = (acc, last.report, last) := by
  have coherent := (reached.steady (begins_of_create created).steady).coherent
  obtain ⟨ticks, bound, lasts⟩ := exists_lasts coherent word
  have room : ticks ≤ Word.limit - t.now := by omega
  have ended : (t.after ticks).ending? = some (t.after ticks).report.ending := by
    obtain ⟨ending, stops⟩ := Option.ne_none_iff_exists'.1 lasts.stops
    simp only [report, stops, Option.getD_some]
  have stopped : (t.after ticks).Lasts 0 := ⟨fun m hm => (Nat.not_lt_zero m hm).elim, lasts.stops⟩
  have word' : (t.after ticks).maxTicks ≤ Word.limit := by
    rw [maxTicks_after]
    exact word
  obtain ⟨exited, starved, limited⟩ := ending_iff ended
  refine ⟨ticks, bound, t.after ticks, rfl, lasts.going, ended, ?_, ticks_records coherent room,
    now_after_of_le coherent room, exited, starved, limited, ?_⟩
  · intro σ onTick acc
    exact runWith_of_lasts onTick coherent word lasts acc
  · intro σ onTick acc
    exact runWith_of_lasts onTick (coherent_after coherent ticks) word' stopped acc

def brief : Scenario where
  quantum := 2
  maxTicks := Word.limit
  logLevel := .info
  blockTicks := .standard
  inputs := []
  processes := [⟨"brief", 0, .realtime, .high, some ".code\nSYSCALL 0", none⟩]

theorem run_ends_brief :
    ∃ s, create brief = .ok s ∧ s.Reaches s ∧ s.maxTicks = Word.limit ∧
      s.runWith (fun ticks record => ticks ++ [record.tick]) [] =
        ([1], (s.after 1).report, s.after 1) ∧
      (s.after 1).report.ending = .allExited ∧ (s.after 1).AllExited := by
  obtain ⟨s, hs⟩ : ∃ s, create brief = .ok s := exists_ok (by decide +kernel)
  have facts : ∀ s ∈ (create brief).toOption, s.maxTicks = Word.limit ∧ s.now = 0 ∧
      s.ending? = none ∧ (s.after 1).report.ending = .allExited ∧
      (s.after 1).ending? = some .allExited := by decide +kernel
  rw [hs] at facts
  obtain ⟨limit, now, going, report, stops⟩ := facts s rfl
  obtain ⟨ticks, -, last, rfl, before, ended, runs, numbers, -, exited, -⟩ :=
    run_ends hs .refl (Nat.le_of_eq limit)
  have positive : ticks ≠ 0 := by
    rintro rfl
    rw [after, going] at ended
    contradiction
  have once : ¬ 1 < ticks := fun more => by
    rw [before 1 more] at stops
    contradiction
  obtain rfl : ticks = 1 := by omega
  have shown : (s.records 1).foldl (fun ticks record => ticks ++ [record.tick]) [] = [1] := by
    calc (s.records 1).foldl (fun ticks record => ticks ++ [record.tick]) []
        = (s.records 1).map (·.tick) := rfl
      _ = [1] := by rw [numbers, now]; rfl
  refine ⟨s, hs, .refl, limit, ?_, report, exited.1 report⟩
  rw [runs, shown]

/-! ## Runs taken up again -/

/-- A limit put up ends no run that it did not end before. -/
theorem ending?_of_le {low high : Nat} (le : low ≤ high)
    (going : (s.setMaxTicks low).ending? = none) : (s.setMaxTicks high).ending? = none := by
  have now (maxTicks : Nat) : (s.setMaxTicks maxTicks).now = s.now := rfl
  have early : ¬ s.AllExited ∧ ¬ s.Starves ∧ s.now < low := by
    rcases (s.setMaxTicks low).ending?_cases with ⟨h, -⟩ | ⟨h, -⟩ | ⟨h, -⟩ | ⟨-, busy, fed, early⟩
    · simp [h] at going
    · simp [h] at going
    · simp [h] at going
    · exact ⟨busy, fed, early⟩
  rcases (s.setMaxTicks high).ending?_cases with
    ⟨-, all⟩ | ⟨-, -, starves⟩ | ⟨-, -, -, passed⟩ | ⟨h, -⟩
  · exact (early.1 all).elim
  · exact (early.2.1 starves).elim
  · have passed : high ≤ s.now := passed
    omega
  · exact h

theorem Lasts.resume {low high a b : Nat} (le : low ≤ high) (first : (s.setMaxTicks low).Lasts a)
    (second : ((s.after a).setMaxTicks high).Lasts b) : (s.setMaxTicks high).Lasts (a + b) := by
  apply Lasts.append
  · intro m hm
    have going := first.going m hm
    rw [after_setMaxTicks] at going ⊢
    exact ending?_of_le le going
  · rw [after_setMaxTicks]
    exact second

/-- Runs can be taken up again: a run up to one limit, and from there up to a later one, is the run
up to the later one, whatever ended the first. So the lower limit cuts off the rest of its ticks and
changes nothing else. -/
theorem run_resumes (created : create scenario = .ok s) (reached : s.Reaches t) {low high : Nat}
    (le : low ≤ high) (word : high ≤ Word.limit) :
    (∀ {σ : Type} (onTick : σ → TickRecord → σ) (acc : σ),
      let first := (t.setMaxTicks low).runWith onTick acc
      (first.2.2.setMaxTicks high).runWith onTick first.1 =
        (t.setMaxTicks high).runWith onTick acc) ∧
    let first := (t.setMaxTicks low).trace
    let second := (first.2.2.setMaxTicks high).trace
    let whole := (t.setMaxTicks high).trace
    second.2 = whole.2 ∧ first.1 ++ second.1 = whole.1 ∧ first.1 <+: whole.1 := by
  have coherent := (reached.steady (begins_of_create created).steady).coherent
  have low_word : low ≤ Word.limit := Nat.le_trans le word
  obtain ⟨a, -, first⟩ := exists_lasts (s := t.setMaxTicks low) coherent low_word
  have middle := coherent_after coherent a
  obtain ⟨b, -, second⟩ := exists_lasts (s := (t.after a).setMaxTicks high) middle word
  have whole := first.resume le second
  have last : (t.setMaxTicks high).after (a + b) = ((t.after a).setMaxTicks high).after b := by
    rw [after_add, after_setMaxTicks]
  have records : (t.setMaxTicks high).records (a + b) =
      t.records a ++ ((t.after a).setMaxTicks high).records b := by
    rw [records_add, records_setMaxTicks, after_setMaxTicks]
  have raised : ((t.setMaxTicks low).after a).setMaxTicks high = (t.after a).setMaxTicks high := by
    rw [after_setMaxTicks]
    rfl
  constructor
  · intro σ onTick acc
    simp only [runWith_of_lasts onTick (s := t.setMaxTicks low) coherent low_word first acc, raised]
    rw [runWith_of_lasts onTick (s := (t.after a).setMaxTicks high) middle word second,
      runWith_of_lasts onTick (s := t.setMaxTicks high) coherent word whole, last, records,
      List.foldl_append, records_setMaxTicks t low]
  · simp only [trace_of_lasts (s := t.setMaxTicks low) coherent low_word first, raised,
      trace_of_lasts (s := (t.after a).setMaxTicks high) middle word second,
      trace_of_lasts (s := t.setMaxTicks high) coherent word whole, last, records,
      records_setMaxTicks t low, List.prefix_append, and_self]

def counting : Scenario where
  quantum := 2
  maxTicks := 1000
  logLevel := .info
  blockTicks := .standard
  inputs := []
  processes := [⟨"counter", 0, .bestEffort, .low, some ".code\nloop: ADD #1\nBRANY loop", none⟩]

theorem run_resumes_counting :
    ∃ s, create counting = .ok s ∧ s.Reaches s ∧
      (s.setMaxTicks 2).trace.1.map (·.tick) = [1, 2] ∧
      (s.setMaxTicks 2).trace.1 <+: (s.setMaxTicks 4).trace.1 ∧
      ((s.setMaxTicks 2).trace.2.2.setMaxTicks 4).trace.2 = (s.setMaxTicks 4).trace.2 ∧
      (s.setMaxTicks 4).run.1.ending = .tickLimit := by
  obtain ⟨s, hs⟩ : ∃ s, create counting = .ok s := exists_ok (by decide +kernel)
  have facts : ∀ s ∈ (create counting).toOption,
      (s.setMaxTicks 2).trace.1.map (·.tick) = [1, 2] ∧
        (s.setMaxTicks 4).run.1.ending = .tickLimit := by decide +kernel
  rw [hs] at facts
  obtain ⟨ticks, ending⟩ := facts s rfl
  have limits : 2 ≤ 4 ∧ 4 ≤ Word.limit := by decide
  obtain ⟨-, same, -, cut⟩ := run_resumes hs .refl limits.1 limits.2
  exact ⟨s, hs, .refl, ticks, cut, same, ending⟩

end Timeslice.Simulation
