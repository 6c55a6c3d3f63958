import Timeslice.Proofs.Machine.Calls
import Timeslice.Proofs.Process.Lifecycle

/-! # Processes that are settled

How the flags of a processor go with the state of its process, for processes with the standard
services. Each phase of a tick keeps a process orderly, and at the end of the tick it is settled
again: an instruction leaves what `Plays` lists, and closing ends what ran past its program.
-/

namespace Timeslice

namespace Process

variable {H : Type}

/-- What holds of a process in every phase of a tick. -/
structure Orderly (p : Process Services) : Prop where
  handled : p.cpu.handler.isSome
  clean : p.cpu.effects = []
  blocked : p.cpu.blocked = decide (p.state = .blocked)
  waits : p.cpu.waitingForInput → p.isRunning ∨ p.isRealtime ∧ p.isReady

structure Able (p : Process Services) : Prop extends p.Orderly where
  runs : p.cpu.running = !p.isExited

def isFinished (p : Process H) : Bool :=
  p.isRunning && p.cpu.isHalted && !p.cpu.waitingForInput

theorem isFinished_iff {p : Process H} :
    p.isFinished ↔ p.isRunning ∧ p.cpu.isHalted ∧ ¬ p.cpu.waitingForInput := by
  simp [isFinished, and_assoc]

theorem close_of_finished {p : Process H} (finished : p.isFinished) : p.close = p.terminate :=
  if_pos finished

theorem close_of_unfinished {p : Process H} (unfinished : ¬ p.isFinished) : p.close = p :=
  if_neg unfinished

/-- What holds of a process between ticks. -/
structure Settled (p : Process Services) : Prop extends p.Able where
  unfinished : ¬ p.isFinished

variable {p q : Process Services} {now : Nat} {text : String}

theorem Orderly.not_waiting_of_isExited (h : p.Orderly) (exited : p.isExited) :
    ¬ p.cpu.waitingForInput := by
  intro waits
  rcases h.waits waits with running | ⟨-, ready⟩
  · exact not_isExited_of_isRunning running exited
  · exact not_isExited_of_isReady ready exited

/-! ## Changes of the state alone -/

/-- A process stays able in another state with the same processor. -/
theorem Able.of_cpu_eq (h : p.Able) (cpu : q.cpu = p.cpu)
    (blocked : q.state = .blocked ↔ p.state = .blocked) (exited : q.isExited = p.isExited)
    (waits : p.cpu.waitingForInput → q.isRunning ∨ q.isRealtime ∧ q.isReady) : q.Able where
  handled := cpu ▸ h.handled
  clean := cpu ▸ h.clean
  blocked := by rw [cpu, h.blocked, decide_eq_decide, blocked]
  waits waiting := waits (cpu ▸ waiting)
  runs := by rw [cpu, h.runs, exited]

theorem Able.dispatch (h : p.Able) (able : p.isReady ∨ p.isRunning) (quantum : Int) :
    (p.dispatch quantum).Able := by
  refine h.of_cpu_eq rfl ?_ ?_ fun _ => .inl rfl
  · rcases able with ready | running
    · simp [Process.dispatch, (of_decide_eq_true ready : p.state = .ready)]
    · simp [Process.dispatch, (of_decide_eq_true running : p.state = .running)]
  · have alive : ¬ p.isExited := able.elim not_isExited_of_isReady not_isExited_of_isRunning
    rw [Bool.eq_false_iff.2 alive]
    rfl

theorem Able.sendBack (h : p.Able) (running : p.isRunning)
    (unretained : p.cpu.waitingForInput → p.isRealtime) : p.sendBack.Able := by
  refine h.of_cpu_eq rfl ?_ ?_ fun waits => .inr ⟨unretained waits, rfl⟩
  · simp [Process.sendBack, (of_decide_eq_true running : p.state = .running)]
  · rw [Bool.eq_false_iff.2 (not_isExited_of_isRunning running)]
    rfl

/-- A process that is new or blocked waits for nothing. -/
theorem Orderly.not_waiting_of_state (h : p.Orderly) (idle : p.state ≠ .running)
    (unready : p.state ≠ .ready) : ¬ p.cpu.waitingForInput := by
  intro waits
  rcases h.waits waits with running | ⟨-, ready⟩
  · exact idle (of_decide_eq_true running)
  · exact unready (of_decide_eq_true ready)

theorem Able.elapse (h : p.Able) (now : Nat) : (p.elapse now).Able := by
  have elapses := p.elapses now
  generalize p.elapse now = q at elapses
  cases elapses with
  | early state early => exact h
  | arrived state due =>
      refine h.of_cpu_eq rfl (by simp [state]) (by simp [isExited, state]; rfl) fun waits => ?_
      exact (h.not_waiting_of_state (by simp [state]) (by simp [state]) waits).elim
  | waited state => exact h.of_cpu_eq rfl .rfl rfl h.waits
  | ran state => exact h.of_cpu_eq rfl .rfl rfl h.waits
  | stayed state early => exact h
  | woke state due =>
      have unwaiting := h.not_waiting_of_state (by simp [state]) (by simp [state])
      exact {
        handled := h.handled
        clean := h.clean
        blocked := rfl
        waits := fun waits => (unwaiting waits).elim
        runs := by
          rw [show p.wake.cpu.running = p.cpu.running from rfl, h.runs, isExited, state]
          rfl }
  | ended state => exact h

theorem isFinished_elapse (p : Process Services) (now : Nat) :
    (p.elapse now).isFinished = p.isFinished := by
  have halted : (p.elapse now).cpu.freed.isHalted = p.cpu.freed.isHalted := by
    rw [p.freed_elapse now]
  rw [isFinished, isFinished, isRunning_elapse,
    Cpu.waitingForInput_eq_of_freed (p.freed_elapse now)]
  exact congrArg (fun past => p.isRunning && past && !p.cpu.waitingForInput) halted

theorem Settled.elapse (h : p.Settled) (now : Nat) : (p.elapse now).Settled :=
  ⟨h.toAble.elapse now, p.isFinished_elapse now ▸ h.unfinished⟩

/-! ## Blocks and ends -/

theorem Able.block (h : p.Able) (alive : ¬ p.isExited) (unwaiting : ¬ p.cpu.waitingForInput)
    (now duration : Nat) : (p.block now duration).Able where
  handled := h.handled
  clean := h.clean
  blocked := rfl
  waits waits := (unwaiting waits).elim
  runs := h.runs.trans (by rw [Bool.eq_false_iff.2 alive]; rfl)

theorem Orderly.terminate (h : p.Orderly) (running : p.isRunning)
    (unwaiting : ¬ p.cpu.waitingForInput) : p.terminate.Able where
  handled := h.handled
  clean := h.clean
  blocked := h.blocked.trans (by rw [(of_decide_eq_true running : p.state = .running)]; rfl)
  waits waits := (unwaiting waits).elim
  runs := rfl

/-- Texts put out do nothing to the process that puts them out. -/
theorem absorb_of_outputs (texts : List String) (outputs : p.cpu.effects = texts.map .output)
    (now : Nat) : p.absorb now = p.withCpu p.cpu.withoutEffects := by
  rw [absorb, outputs]
  clear outputs
  generalize p.withCpu p.cpu.withoutEffects = q
  induction texts with
  | nil => rfl
  | cons text rest ih => exact ih

theorem absorb_of_clean (clean : p.cpu.effects = []) (now : Nat) : p.absorb now = p := by
  rw [absorb_of_outputs [] clean, Cpu.withoutEffects_of_nil clean]
  rfl

/-! ## Input -/

/-- What taking a number comes to: the process has it and waits no more, and it is blocked if it has
the processor. -/
theorem Orderly.intake_eq (h : p.Orderly) {cpu : Cpu Services}
    (supplied : p.cpu.supply text = (.ok true, cpu)) (now ticks : Nat) :
    ∃ number, Text.int32? (Text.trim text.toList) = some number ∧
      p.intake now ticks text =
        (p.withCpu (p.cpu.given number)).feel now (.block ticks) := by
  obtain ⟨-, number, parsed, rfl⟩ := Cpu.supply_eq_ok_true.1 supplied
  refine ⟨number, parsed, ?_⟩
  have received : p.receive text = p.withCpu (p.cpu.read text number) := by
    simp only [receive, supplied]
  have read := Cpu.read_eq h.handled h.clean text number
  have outputs : (p.receive text).cpu.effects = (Cpu.reception text).map .output := by
    rw [received, read]
    rfl
  have clean : (p.cpu.given number).effects = [] := h.clean
  rw [intake, absorb_of_outputs _ outputs, received, read]
  refine congrArg (fun cpu => (p.withCpu cpu).feel now (.block ticks)) ?_
  exact (Cpu.withoutEffects_of_nil clean)

theorem Settled.intake (h : p.Settled) {cpu : Cpu Services}
    (supplied : p.cpu.supply text = (.ok true, cpu)) (now ticks : Nat) :
    (p.intake now ticks text).Settled := by
  obtain ⟨number, -, result⟩ := h.intake_eq supplied now ticks
  have able : (p.withCpu (p.cpu.given number)).Able :=
    ⟨⟨h.handled, h.clean, h.blocked, fun waits => (Bool.false_ne_true waits).elim⟩, h.runs⟩
  rw [result, feel]
  split
  · rename_i running
    exact ⟨able.block (not_isExited_of_isRunning running) Bool.false_ne_true now ticks,
      Bool.false_ne_true⟩
  · rename_i idle
    refine ⟨able, ?_⟩
    rw [isFinished, Bool.eq_false_iff.2 idle]
    exact Bool.false_ne_true

/-! ## Turns -/

/-- `p.Plays now q`: a turn at `now` can make `q` of the process `p` that has the processor. -/
inductive Plays (now : Nat) (p : Process Services) : Process Services → Prop where
  /-- A process that waits for input lets its turn pass. -/
  | passed (waits : p.cpu.waitingForInput) (stepped : p.cpu.step = (.ok false, p.cpu)) :
      Plays now p p
  | stopped (awake : ¬ p.cpu.waitingForInput) (halted : p.cpu.isHalted)
      (stepped : p.cpu.step = (.ok false, { p.cpu with running := false })) :
      Plays now p (p.withCpu { p.cpu with running := false })
  | failed (awake : ¬ p.cpu.waitingForInput) (fault : Fault) {instruction : Instruction}
      (current : p.cpu.current? = some instruction)
      (stepped : p.cpu.step = (.error fault, p.cpu)) : Plays now p p.terminate
  | worked (awake : ¬ p.cpu.waitingForInput) {instruction : Instruction} {cpu : Cpu Services}
      (current : p.cpu.current? = some instruction)
      (executed : p.cpu.execute instruction = .ok cpu) (stepped : p.cpu.step = (.ok true, cpu))
      (leaves : instruction.Leaves p.cpu.accumulator cpu.effects) :
      Plays now p ((p.withCpu cpu).absorb now)

theorem Able.plays (h : p.Able) (running : p.isRunning) (now : Nat) :
    p.Plays now (p.turn now) := by
  have state : p.state = .running := of_decide_eq_true running
  have goes : p.cpu.running = true := by
    rw [h.runs, Bool.eq_false_iff.2 (not_isExited_of_isRunning running)]
    rfl
  have free : p.cpu.blocked = false := by
    rw [h.blocked, state]
    rfl
  have suspended : p.cpu.isSuspended = p.cpu.waitingForInput := by
    rw [Cpu.isSuspended, goes, free]
    rfl
  cases waits : p.cpu.waitingForInput with
  | true =>
      have stepped : p.cpu.step = (.ok false, p.cpu) := by
        simp only [Cpu.step, suspended, waits, if_true]
      have turn : p.turn now = p := by
        simp only [Process.turn, stepped]
        exact absorb_of_clean (p := p.withCpu p.cpu) h.clean now
      rw [turn]
      exact .passed waits stepped
  | false =>
      have awake : ¬ p.cpu.waitingForInput := by simp [waits]
      cases current : p.cpu.current? with
      | none =>
          have stepped : p.cpu.step = (.ok false, { p.cpu with running := false }) := by
            simp only [Cpu.step, suspended, waits, current, Bool.false_eq_true, if_false]
          have turn : p.turn now = p.withCpu { p.cpu with running := false } := by
            simp only [Process.turn, stepped]
            exact absorb_of_clean (p := p.withCpu { p.cpu with running := false }) h.clean now
          rw [turn]
          exact .stopped awake (Cpu.isHalted_of_current? current) stepped
      | some instruction =>
          cases executed : p.cpu.execute instruction with
          | error fault =>
              have stepped : p.cpu.step = (.error fault, p.cpu) := by
                simp only [Cpu.step, suspended, waits, current, executed, Bool.false_eq_true,
                  if_false]
              have turn : p.turn now = p.terminate := by simp only [Process.turn, stepped]
              rw [turn]
              exact .failed awake fault current stepped
          | ok cpu =>
              have stepped : p.cpu.step = (.ok true, cpu) := by
                simp only [Cpu.step, suspended, waits, current, executed, Bool.false_eq_true,
                  if_false]
              have turn : p.turn now = (p.withCpu cpu).absorb now := by
                simp only [Process.turn, stepped]
              rw [turn]
              exact .worked awake current executed stepped
                (Cpu.leaves_execute h.handled h.clean executed)

/-- What applying its effects makes of a process that executed an instruction. -/
theorem absorb_of_leaves {cpu : Cpu Services} {instruction : Instruction} {accumulator : Int32}
    (running : p.isRunning) (leaves : instruction.Leaves accumulator cpu.effects) (now : Nat) :
    (instruction.isExit ∧
        (p.withCpu cpu).absorb now = (p.withCpu cpu.withoutEffects).terminate) ∨
      ¬ instruction.isExit ∧
        ((∃ ticks, ¬ instruction.isRead ∧
            (p.withCpu cpu).absorb now = (p.withCpu cpu.withoutEffects).block now ticks) ∨
          (p.withCpu cpu).absorb now = p.withCpu cpu.withoutEffects) := by
  generalize left : cpu.effects = effects at leaves
  cases leaves with
  | greeted =>
      refine .inr ⟨by decide, .inr ?_⟩
      exact absorb_of_outputs (p := p.withCpu cpu) [Services.greeting] left now
  | ended =>
      refine .inl ⟨rfl, ?_⟩
      rw [absorb, show (p.withCpu cpu).cpu.effects = [.exit] from left]
      rfl
  | printed ticks =>
      refine .inr ⟨by decide, .inl ⟨ticks, by decide, ?_⟩⟩
      rw [absorb, show (p.withCpu cpu).cpu.effects = _ from left]
      exact if_pos running
  | silent stays mute =>
      exact .inr ⟨stays, .inr (absorb_of_outputs (p := p.withCpu cpu) [] left now)⟩

theorem Able.execute (h : p.Able) (running : p.isRunning) {cpu : Cpu Services}
    {instruction : Instruction} (executed : p.cpu.execute instruction = .ok cpu) :
    (p.withCpu cpu.withoutEffects).Able := by
  obtain ⟨goes, free⟩ := Cpu.frame_execute executed
  have handled : cpu.handler.isSome := Cpu.isSome_handler_execute h.handled executed
  exact {
    handled := handled
    clean := rfl
    blocked := free.trans h.blocked
    waits := fun _ => .inl running
    runs := goes.trans h.runs }

/-- After a turn a process is able, or about to be closed. -/
theorem Able.turn (h : p.Able) (running : p.isRunning) (now : Nat) :
    (p.turn now).Orderly ∧ ((p.turn now).isFinished ∨ (p.turn now).Able) := by
  have plays := h.plays running now
  generalize p.turn now = q at plays
  cases plays with
  | passed waits stepped => exact ⟨h.toOrderly, .inr h⟩
  | stopped awake halted stepped =>
      exact ⟨⟨h.handled, h.clean, h.blocked, h.waits⟩,
        .inl (isFinished_iff.2 ⟨running, halted, awake⟩)⟩
  | failed awake fault current stepped =>
      have able := h.terminate running awake
      exact ⟨able.toOrderly, .inr able⟩
  | @worked awake instruction cpu current executed stepped leaves =>
      have able := h.execute running executed
      have unwaiting (other : ¬ instruction.isRead) :
          ¬ (p.withCpu cpu.withoutEffects).cpu.waitingForInput :=
        (Cpu.waitingForInput_execute executed other).symm ▸ awake
      have result : ((p.withCpu cpu).absorb now).Able := by
        rcases absorb_of_leaves running leaves now with
          ⟨exit, same⟩ | ⟨-, ⟨ticks, other, same⟩ | same⟩
        · have other : ¬ instruction.isRead := by
            rw [(of_decide_eq_true exit : instruction = _)]
            decide
          rw [same]
          exact able.terminate running (unwaiting other)
        · rw [same]
          exact able.block (not_isExited_of_isRunning running) (unwaiting other) now ticks
        · rwa [same]
      exact ⟨result.toOrderly, .inr result⟩

theorem settled_close (orderly : p.Orderly) (rest : p.isFinished ∨ p.Able) :
    p.close.Settled := by
  by_cases finished : p.isFinished
  · obtain ⟨running, -, awake⟩ := isFinished_iff.1 finished
    rw [close_of_finished finished]
    exact ⟨orderly.terminate running awake, Bool.false_ne_true⟩
  · rw [close_of_unfinished finished]
    exact ⟨rest.resolve_left finished, finished⟩

end Process

end Timeslice
