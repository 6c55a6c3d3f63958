import Timeslice.Proofs.Kernel.Trail
import Timeslice.Proofs.Process.Settled

/-! # Rounds on the processor

A round is the turn of a process and the closing that follows it. It ends the process at most once:
for a fault, or because its program asks for it or is over.
-/

namespace Timeslice

namespace Event

def exits (id : Pid) (events : List Event) : List ExitCause :=
  events.filterMap fun
    | .exited process cause _ => if process = id then some cause else none
    | _ => none

variable {id : Pid}

theorem exits_append (events more : List Event) :
    exits id (events ++ more) = exits id events ++ exits id more := List.filterMap_append

theorem exits_outputs (process : Pid) (texts : List String) (now : Nat) :
    exits id (texts.map fun text => .output process text now) = [] := by
  rw [exits, List.filterMap_map]
  exact List.filterMap_eq_nil_iff.2 fun _ _ => rfl

theorem exits_singleton (cause : ExitCause) (now : Nat) :
    exits id [.exited id cause now] = [cause] := by
  simp [exits]

theorem exits_eq_nil {events : List Event}
    (others : ∀ event ∈ events, ∀ cause now, event ≠ .exited id cause now) :
    exits id events = [] := by
  refine List.filterMap_eq_nil_iff.2 fun event member => ?_
  cases event with
  | exited process cause now =>
      refine if_neg fun same => ?_
      subst same
      exact others _ member cause now rfl
  | _ => rfl

end Event

namespace Process

section Round

variable {H : Type} [SyscallHandler H]

def executed? (p : Process H) : Option Instruction :=
  match p.cpu.step with
  | (.ok true, _) => p.cpu.current?
  | _ => none

def closeEvents (now : Nat) (p : Process H) : List Event :=
  if p.isFinished then [.exited p.id .normal now] else []

def roundEvents (now : Nat) (p : Process H) : List Event :=
  p.turnEvents now ++ (p.turn now).closeEvents now

end Round

variable {p q : Process Services} {now : Nat}

/-- `p.Rounds now events q`: a round at `now` records the events of the process `p` that has the
processor, and makes `q` of it. -/
inductive Rounds (now : Nat) (p : Process Services) : List Event → Process Services → Prop where
  | wentOn {q : Process Services} (texts : List String) (alive : ¬ q.isExited)
      {executed : Bool} (answer : p.cpu.step.1 = .ok executed)
      (stays : ∀ instruction ∈ p.executed?, ¬ instruction.isExit) :
      Rounds now p (texts.map fun text => .output p.id text now) q
  | failed {q : Process Services} {fault : Fault} (exited : q.isExited)
      (answer : p.cpu.step.1 = .error fault) (idle : p.executed? = none)
      (ahead : ¬ q.cpu.isHalted) : Rounds now p [.exited p.id .failed now] q
  | finished {q : Process Services} (texts : List String) (exited : q.isExited)
      {executed : Bool} (answer : p.cpu.step.1 = .ok executed)
      (done : (∃ instruction ∈ p.executed?, instruction.isExit) ∨ q.cpu.isHalted) :
      Rounds now p ((texts.map fun text => .output p.id text now) ++ [.exited p.id .normal now]) q

/-- A turn that does not fail ends the process only for an instruction that asks for it. Otherwise
closing ends it if it is past its last instruction. -/
theorem rounds_of_answer {executed : Bool} {cpu : Cpu Services}
    (stepped : p.cpu.step = (.ok executed, cpu)) (same : q.id = p.id)
    (asked : q.isExited ↔ ∃ instruction ∈ p.executed?, instruction.isExit) :
    p.Rounds now (((cpu.texts.map fun text => .output p.id text now) ++
      if q.isExited then [.exited p.id .normal now] else []) ++ q.closeEvents now) q.close := by
  have answer : p.cpu.step.1 = .ok executed := congrArg Prod.fst stepped
  by_cases exited : q.isExited
  · have unfinished : ¬ q.isFinished := fun finished =>
      not_isExited_of_isRunning (isFinished_iff.1 finished).1 exited
    rw [if_pos exited, closeEvents, if_neg unfinished, List.append_nil,
      close_of_unfinished unfinished]
    exact .finished _ exited answer (.inl (asked.1 exited))
  · have stays : ∀ instruction ∈ p.executed?, ¬ instruction.isExit := fun instruction played exit =>
      exited (asked.2 ⟨instruction, played, exit⟩)
    rw [if_neg exited, List.append_nil, closeEvents]
    by_cases finished : q.isFinished
    · rw [if_pos finished, same, close_of_finished finished]
      exact .finished _ rfl answer (.inr (isFinished_iff.1 finished).2.1)
    · rw [if_neg finished, List.append_nil, close_of_unfinished finished]
      exact .wentOn _ exited answer stays

theorem Able.rounds (h : p.Able) (running : p.isRunning) (now : Nat) :
    p.Rounds now (p.roundEvents now) (p.turn now).close := by
  have plays := h.plays running now
  have alive := not_isExited_of_isRunning running
  unfold roundEvents turnEvents
  generalize p.turn now = q at plays
  cases plays with
  | passed waits stepped =>
      have idle : p.executed? = none := by simp only [executed?, stepped]
      simp only [stepped]
      exact rounds_of_answer stepped rfl (by simp [idle, alive])
  | stopped awake halted stepped =>
      have idle : p.executed? = none := by simp only [executed?, stepped]
      have alive' : ¬ (p.withCpu { p.cpu with running := false }).isExited := alive
      simp only [stepped]
      exact rounds_of_answer stepped rfl (by simp [idle, alive'])
  | failed awake fault current stepped =>
      have unfinished : ¬ p.terminate.isFinished := Bool.false_ne_true
      have ahead : ¬ p.terminate.cpu.isHalted := Cpu.not_isHalted_of_current? current
      simp only [stepped, closeEvents, if_neg unfinished, List.append_nil,
        close_of_unfinished unfinished]
      exact .failed rfl (congrArg Prod.fst stepped) (by simp only [executed?, stepped]) ahead
  | @worked awake instruction cpu current executed stepped leaves =>
      have played : p.executed? = some instruction := by simp only [executed?, stepped, current]
      have same :=
        id_eq_of_origin ((origin_absorb now (p.withCpu cpu)).trans (p.origin_withCpu cpu))
      simp only [stepped]
      refine rounds_of_answer stepped same ?_
      simp only [played, Option.mem_some_iff, exists_eq_left']
      rcases absorb_of_leaves running leaves now with
        ⟨exit, ended⟩ | ⟨stays, ⟨ticks, -, blocked⟩ | kept⟩
      · rw [ended]
        exact iff_of_true rfl exit
      · rw [blocked]
        exact iff_of_false Bool.false_ne_true stays
      · rw [kept]
        exact iff_of_false alive stays

end Process

namespace Kernel

variable {k : Kernel Services} {p : Process Services}

theorem execution?_eq (k : Kernel Services) :
    k.execution? = k.table.running?.bind fun p =>
      p.executed?.map fun instruction => (p, instruction) := by
  unfold execution?
  cases k.table.running? with
  | none => rfl
  | some p =>
      simp only [Option.bind_some, Process.executed?]
      rcases p.cpu.step with ⟨fault | executed, cpu⟩
      · rfl
      · cases executed <;> rfl

def rounds (k : Kernel Services) : List Event :=
  match k.table.running? with
  | some p => p.roundEvents k.now
  | none => []

theorem Coherent.closings_execute (h : k.Coherent) (hr : k.table.running? = some p) :
    k.execute.2.closings = (p.turn k.now).closeEvents k.now := by
  obtain ⟨hp, running⟩ := h.running?_eq_some.1 hr
  have becomes := h.becomes_execute
  have turned : p.turn k.now ∈ k.execute.2.table.processes := by
    have member := becomes.mem_of_mem hp
    rwa [if_pos running] at member
  have time : k.execute.2.now = k.now := becomes.now
  unfold closings Process.closeEvents
  split
  · rename_i q finished
    obtain ⟨hq, halted, awake⟩ := finished?_eq_some.1 finished
    obtain ⟨member, going⟩ := h.execute.running?_eq_some.1 hq
    -- Whatever runs after the turn is the process that had it.
    obtain ⟨r, hr', rfl⟩ := becomes.mem member
    have started : r.isRunning := by
      split at going
      · assumption
      · exact going
    obtain rfl := h.eq_of_running hr' hp started running
    rw [if_pos running] at halted awake going ⊢
    rw [if_pos (Process.isFinished_iff.2 ⟨going, halted, awake⟩), time]
  · rename_i unfinished
    refine (if_neg fun finished => ?_).symm
    obtain ⟨going, halted, awake⟩ := Process.isFinished_iff.1 finished
    have due := finished?_eq_some.2 ⟨h.execute.running?_eq_some.2 ⟨turned, going⟩, halted, awake⟩
    rw [unfinished] at due
    contradiction

theorem Coherent.closings_of_idle (h : k.Coherent) (hr : k.table.running? = none) :
    k.execute.2.closings = [] := by
  have idle : k.execute.2.finished? = none := by
    rw [finished?, (h.execute_of_idle hr).2.1, hr]
    rfl
  simp only [closings, idle]

/-- Executing and closing record a round. -/
theorem Coherent.turned_append_closings (h : k.Coherent) :
    k.turned ++ k.execute.2.closings = k.rounds := by
  cases hr : k.table.running? with
  | none => simp only [turned, rounds, hr, h.closings_of_idle hr, List.append_nil]
  | some p =>
      rw [h.closings_execute hr]
      simp only [turned, rounds, hr, Process.roundEvents]

theorem process_of_rounds {event : Event} (member : event ∈ k.rounds) :
    ∃ p, k.table.running? = some p ∧ event.process = p.id := by
  unfold rounds at member
  split at member
  · rename_i p hr
    refine ⟨p, hr, ?_⟩
    rcases List.mem_append.1 member with turned | closed
    · exact Process.process_of_turnEvents turned
    · unfold Process.closeEvents at closed
      split at closed
      · rw [List.mem_singleton.1 closed]
        exact Process.id_eq_of_origin (Process.origin_turn k.now p)
      · contradiction
  · contradiction

/-- With a live selection, what scheduling records are no exits, and it is about live processes. -/
theorem Coherent.alive_of_switches (h : k.Coherent) (alive : k.SelectsAlive) {event : Event}
    (member : event ∈ k.switches) :
    (∃ p ∈ k.table.processes, ¬ p.isExited ∧ event.process = p.id) ∧
      ∀ id cause now, event ≠ .exited id cause now := by
  rcases h.mem_switches member with ⟨-, parted⟩ | ⟨p, rfl, -, chooses⟩
  · rcases mem_partings parted with ⟨r, hr, rfl⟩ | ⟨idle, -⟩
    · obtain ⟨hp, running⟩ := h.running?_eq_some.1 hr
      exact ⟨⟨r, hp, Process.not_isExited_of_isRunning running, rfl⟩, nofun⟩
    · rw [alive.partings_of_idle idle] at parted
      contradiction
  · exact ⟨⟨p, (mem_candidates.1 chooses.first.mem).1,
      not_isExited_of_candidate chooses.first.mem, rfl⟩, nofun⟩

end Kernel

end Timeslice
