import Timeslice.Process.Basic
import Timeslice.Proofs.Machine.Cpu

/-! # Processes under the operations

What a process was created with never changes. The operations on processes are functions on one
process each: `absorb` applies the effects that it left, `turn` is one turn on the processor, and
`receive` is one text of input.
-/

namespace Timeslice

variable {H : Type}

/-! ## What a process was created with -/

/-- The part of a process that nothing changes after its creation. -/
structure Origin where
  id : Pid
  name : String
  source : String
  arrivalTime : Nat
  schedulingClass : SchedulingClass
  priority : Priority
  deriving DecidableEq

namespace Process

def origin (p : Process H) : Origin :=
  ⟨p.id, p.name, p.source, p.arrivalTime, p.schedulingClass, p.priority⟩

theorem id_eq_of_origin {p q : Process H} (h : p.origin = q.origin) : p.id = q.id :=
  congrArg Origin.id h

theorem source_eq_of_origin {p q : Process H} (h : p.origin = q.origin) : p.source = q.source :=
  congrArg Origin.source h

theorem isRealtime_eq_of_origin {p q : Process H} (h : p.origin = q.origin) :
    p.isRealtime = q.isRealtime := by
  have hc : p.schedulingClass = q.schedulingClass := congrArg Origin.schedulingClass h
  simp only [isRealtime, hc]

theorem urgency_eq_of_origin {p q : Process H} (h : p.origin = q.origin) :
    p.urgency = q.urgency := by
  have hi : p.id = q.id := id_eq_of_origin h
  have ha : p.arrivalTime = q.arrivalTime := congrArg Origin.arrivalTime h
  have hp : p.priority = q.priority := congrArg Origin.priority h
  simp only [urgency, isRealtime_eq_of_origin h, hi, ha, hp]

@[simp] theorem origin_withCpu (p : Process H) (cpu : Cpu H) :
    (p.withCpu cpu).origin = p.origin := rfl

@[simp] theorem origin_charge (p : Process H) : p.charge.origin = p.origin := by
  unfold charge
  split <;> rfl

@[simp] theorem origin_elapse (p : Process H) (now : Nat) : (p.elapse now).origin = p.origin := by
  unfold elapse
  rw [origin_charge]
  split
  · rfl
  · split <;> rfl

/-- What a process is called, and what its program was read from, have no part in its charges. -/
theorem elapse_with (p : Process H) (id : Pid) (name source : String) (now : Nat) :
    ({ p with id, name, source } : Process H).elapse now =
      { p.elapse now with id, name, source } := by
  have charged (q : Process H) : ({ q with id, name, source } : Process H).charge =
      { q.charge with id, name, source } := by
    cases state : q.state <;> simp only [charge, state]
  have arrives : ({ p with id, name, source } : Process H).arrives now = p.arrives now := rfl
  have wakes : ({ p with id, name, source } : Process H).wakes now = p.wakes now := rfl
  unfold elapse
  rw [arrives, wakes, ← charged]
  split
  · rfl
  · split <;> rfl

theorem not_isRunning_terminate (p : Process H) : ¬ p.terminate.isRunning := by
  simp [isRunning, terminate]

theorem not_isRunning_sendBack (p : Process H) : ¬ p.sendBack.isRunning := by
  simp [isRunning, sendBack]

theorem not_isExited_of_isRunning {p : Process H} (running : p.isRunning) : ¬ p.isExited := by
  have state : p.state = .running := of_decide_eq_true running
  simp [isExited, ProcessState.isTerminal, state]

theorem not_isExited_of_isReady {p : Process H} (ready : p.isReady) : ¬ p.isExited := by
  have state : p.state = .ready := of_decide_eq_true ready
  simp [isExited, ProcessState.isTerminal, state]

/-- What a new process is: its program in a fresh processor, and every counter at zero. -/
theorem eq_of_create {id : Pid} {name source : String} {arrivalTime : Nat}
    {schedulingClass : SchedulingClass} {priority : Priority} {p : Process H}
    (h : create id name source arrivalTime schedulingClass priority = .ok p) :
    ∃ program, Program.parse source = .ok program ∧
      p = ⟨id, name, source, arrivalTime, schedulingClass, priority, .new, .load program, 0, 0, 0,
        0⟩ := by
  cases hp : Program.parse source with
  | error reason => simp [create, hp, bind, Except.bind] at h
  | ok program =>
      simp only [create, hp, bind, Except.bind, pure, Except.pure, Except.ok.injEq] at h
      exact ⟨program, rfl, h.symm⟩

theorem id_of_create {id : Pid} {name source : String} {arrivalTime : Nat}
    {schedulingClass : SchedulingClass} {priority : Priority} {p : Process H}
    (h : create id name source arrivalTime schedulingClass priority = .ok p) : p.id = id := by
  obtain ⟨program, -, rfl⟩ := eq_of_create h
  rfl

def handledBy (handler : H) (p : Process H) : Process H :=
  p.withCpu { p.cpu with handler := some handler }

def only (id : Pid) (f : Process H → Process H) (p : Process H) : Process H :=
  if p.id = id then f p else p

theorem only_of_eq {p : Process H} {id : Pid} (f : Process H → Process H) (h : p.id = id) :
    only id f p = f p := if_pos h

theorem only_of_ne {p : Process H} {id : Pid} (f : Process H → Process H) (h : p.id ≠ id) :
    only id f p = p := if_neg h

theorem origin_only {id : Pid} {f : Process H → Process H}
    (hf : ∀ p, (f p).origin = p.origin) (p : Process H) : (only id f p).origin = p.origin := by
  unfold only
  split
  · exact hf p
  · rfl

/-! ## Effects on the process that left them -/

/-- The process after one of its effects has been applied at `now`. -/
def feel (now : Nat) (p : Process H) : Effect → Process H
  | .exit => p.terminate
  | .block ticks => if p.isRunning then p.block now ticks else p
  | .output _ => p

/-- The process after the effects on its processor have been removed and applied at `now`. -/
def absorb (now : Nat) (p : Process H) : Process H :=
  p.cpu.effects.foldl (feel now) (p.withCpu p.cpu.withoutEffects)

@[simp] theorem origin_feel (now : Nat) (p : Process H) (effect : Effect) :
    (p.feel now effect).origin = p.origin := by
  cases effect with
  | exit => rfl
  | block ticks =>
      simp only [feel]
      split <;> rfl
  | output text => rfl

theorem origin_foldl_feel (now : Nat) (effects : List Effect) (p : Process H) :
    (effects.foldl (feel now) p).origin = p.origin := by
  induction effects generalizing p with
  | nil => rfl
  | cons effect rest ih => rw [List.foldl_cons, ih, origin_feel]

@[simp] theorem origin_absorb (now : Nat) (p : Process H) : (p.absorb now).origin = p.origin := by
  rw [absorb, origin_foldl_feel, origin_withCpu]

theorem isRunning_of_feel {now : Nat} {p : Process H} {effect : Effect}
    (h : (p.feel now effect).isRunning) : p.isRunning := by
  cases effect with
  | exit => exact (not_isRunning_terminate p h).elim
  | block ticks =>
      simp only [feel] at h
      split at h
      · assumption
      · exact h
  | output text => exact h

theorem isRunning_of_foldl_feel {now : Nat} {effects : List Effect} {p : Process H}
    (h : (effects.foldl (feel now) p).isRunning) : p.isRunning := by
  induction effects generalizing p with
  | nil => exact h
  | cons effect rest ih => exact isRunning_of_feel (ih h)

theorem isRunning_of_absorb {now : Nat} {p : Process H} (h : (p.absorb now).isRunning) :
    p.isRunning := isRunning_of_foldl_feel (p := p.withCpu p.cpu.withoutEffects) h

theorem isExited_feel (now : Nat) (p : Process H) (effect : Effect) :
    (p.feel now effect).isExited = (p.isExited || decide (effect = .exit)) := by
  cases effect with
  | exit => simp [feel, terminate, isExited, ProcessState.isTerminal]
  | block ticks =>
      simp only [feel]
      split
      · rename_i running
        have state : p.state = .running := of_decide_eq_true running
        simp [block, isExited, ProcessState.isTerminal, state]
      · simp
  | output text => simp [feel]

theorem isExited_foldl_feel (now : Nat) (effects : List Effect) (p : Process H) :
    (effects.foldl (feel now) p).isExited = (p.isExited || effects.contains .exit) := by
  induction effects generalizing p with
  | nil => simp
  | cons effect rest ih =>
      have same : decide (effect = .exit) = (Effect.exit == effect) := by cases effect <;> rfl
      rw [List.foldl_cons, ih, isExited_feel, List.contains_cons, Bool.or_assoc, same]

theorem isExited_absorb (now : Nat) (p : Process H) :
    (p.absorb now).isExited = (p.isExited || p.cpu.effects.contains .exit) :=
  isExited_foldl_feel now p.cpu.effects (p.withCpu p.cpu.withoutEffects)

/-! ## Turns and input -/

section Handled

variable [SyscallHandler H]

/-- The process after one turn on the processor. A fault ends it. -/
def turn (now : Nat) (p : Process H) : Process H :=
  match p.cpu.step with
  | (.ok _, cpu) => (p.withCpu cpu).absorb now
  | (.error _, _) => p.terminate

/-- The process after it was offered a text, with its effects not yet applied. -/
def receive (text : String) (p : Process H) : Process H :=
  match p.cpu.supply text with
  | (.ok true, cpu) => p.withCpu cpu
  | _ => p

/-- The process after it took a text at `now`: its effects are applied, and if it runs it is blocked
for `ticks`. -/
def intake (now ticks : Nat) (text : String) (p : Process H) : Process H :=
  ((p.receive text).absorb now).feel now (.block ticks)

@[simp] theorem origin_turn (now : Nat) (p : Process H) : (p.turn now).origin = p.origin := by
  unfold turn
  split
  · rw [origin_absorb, origin_withCpu]
  · rfl

@[simp] theorem origin_receive (text : String) (p : Process H) :
    (p.receive text).origin = p.origin := by
  unfold receive
  split <;> rfl

@[simp] theorem origin_intake (now ticks : Nat) (text : String) (p : Process H) :
    (p.intake now ticks text).origin = p.origin := by
  rw [intake, origin_feel, origin_absorb, origin_receive]

theorem isRunning_receive (text : String) (p : Process H) :
    (p.receive text).isRunning = p.isRunning := by
  unfold receive
  split <;> rfl

theorem isRunning_of_intake {now ticks : Nat} {text : String} {p : Process H}
    (h : (p.intake now ticks text).isRunning) : p.isRunning :=
  isRunning_receive text p ▸ isRunning_of_absorb (isRunning_of_feel h)

end Handled

def close (p : Process H) : Process H :=
  if p.isRunning && p.cpu.isHalted && !p.cpu.waitingForInput then p.terminate else p

@[simp] theorem origin_close (p : Process H) : p.close.origin = p.origin := by
  unfold close
  split <;> rfl

theorem isRunning_elapse (p : Process H) (now : Nat) :
    (p.elapse now).isRunning = p.isRunning := by
  have charged (q : Process H) : q.charge.isRunning = q.isRunning := by
    unfold charge
    split <;> simp_all [isRunning]
  unfold elapse
  rw [charged]
  split
  · simp_all [isRunning, arrives]
  · split
    · simp_all [isRunning, wakes, wake]
    · rfl

theorem isExited_elapse (p : Process H) (now : Nat) : (p.elapse now).isExited = p.isExited := by
  have charged (q : Process H) : q.charge.isExited = q.isExited := by
    unfold charge
    split <;> simp_all [isExited]
  unfold elapse
  rw [charged]
  split
  · simp_all [isExited, arrives, ProcessState.isTerminal]
  · split
    · simp_all [isExited, wakes, wake, ProcessState.isTerminal]
    · rfl

/-! ## What a program cannot tell -/

@[simp] theorem freed_feel (now : Nat) (p : Process H) (effect : Effect) :
    (p.feel now effect).cpu.freed = p.cpu.freed := by
  cases effect with
  | exit => rfl
  | block ticks =>
      simp only [feel]
      split <;> rfl
  | output text => rfl

theorem freed_foldl_feel (now : Nat) (effects : List Effect) (p : Process H) :
    (effects.foldl (feel now) p).cpu.freed = p.cpu.freed := by
  induction effects generalizing p with
  | nil => rfl
  | cons effect rest ih => rw [List.foldl_cons, ih, freed_feel]

@[simp] theorem freed_absorb (now : Nat) (p : Process H) :
    (p.absorb now).cpu.freed = p.cpu.withoutEffects.freed := by
  rw [absorb, freed_foldl_feel]
  rfl

@[simp] theorem freed_elapse (p : Process H) (now : Nat) :
    (p.elapse now).cpu.freed = p.cpu.freed := by
  have charged (q : Process H) : q.charge.cpu = q.cpu := by
    unfold charge
    split <;> rfl
  unfold elapse
  rw [charged]
  split
  · rfl
  · split <;> rfl

@[simp] theorem freed_close (p : Process H) : p.close.cpu.freed = p.cpu.freed := by
  unfold close
  split <;> rfl

end Process

end Timeslice
