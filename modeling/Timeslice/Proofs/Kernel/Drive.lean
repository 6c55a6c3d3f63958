import Timeslice.Proofs.Kernel.Change
import Timeslice.Proofs.Kernel.Programs

/-! # Kernels driven by ticks

A drive is a run of ticks with anything going on between them that neither lets time pass nor
replaces a processor. In a driven kernel the flags of a processor tell the state of its process, so
a process that runs executes an instruction unless it waits, is past its last one, or fails.
-/

namespace Timeslice

variable {H : Type}

namespace Operation

def isStill : Operation H → Bool
  | advance | schedule | reset => false
  | _ => true

def isInterlude : Operation H → Bool
  | advance | schedule | execute | replaceCpu .. | reset => false
  | _ => true

variable {operation : Operation H}

theorem isStill_of_isInterlude (h : operation.isInterlude) : operation.isStill := by
  cases operation <;> first | rfl | contradiction

theorem ne_advance_of_isStill (h : operation.isStill) : operation ≠ .advance := by
  rintro rfl
  contradiction

theorem ne_schedule_of_isStill (h : operation.isStill) : operation ≠ .schedule := by
  rintro rfl
  contradiction

theorem not_isReset_of_isStill (h : operation.isStill) : ¬ operation.isReset := by
  cases operation with
  | reset => contradiction
  | _ => exact Bool.false_ne_true

end Operation

/-! ## The flags of a processor -/

namespace Process

structure Sound (p : Process H) : Prop where
  blocked : ¬ p.isExited → (p.cpu.blocked ↔ p.state = .blocked)
  running : ¬ p.isExited → p.cpu.running ∨ p.cpu.isHalted

variable {p q : Process H}

theorem Sound.of_exited (exited : p.isExited) : p.Sound :=
  ⟨fun alive => (alive exited).elim, fun alive => (alive exited).elim⟩

theorem isExited_eq (p : Process H) : p.isExited = decide (p.state = .exit) := by
  cases state : p.state <;> simp [isExited, ProcessState.isTerminal, state]

/-- A process that only moves between states that are not blocks stays sound. -/
theorem Sound.of_unblocked (sound : p.Sound) (alive : ¬ p.isExited) (free : p.state ≠ .blocked)
    (cpu : q.cpu = p.cpu) (free' : q.state ≠ .blocked) : q.Sound where
  blocked _ := by
    rw [cpu, sound.blocked alive]
    exact iff_of_false free free'
  running _ := by
    rw [cpu]
    exact sound.running alive

theorem Sound.of_continues (sound : p.Sound) {cpu : Cpu H} (goes : p.cpu.Continues cpu) :
    (p.withCpu cpu).Sound where
  blocked alive := by
    show cpu.blocked ↔ p.state = .blocked
    rw [goes.blocked]
    exact sound.blocked alive
  running alive := goes.running (sound.running alive)

theorem Sound.block (sound : p.Sound) (running : p.isRunning) (now duration : Nat) :
    (p.block now duration).Sound where
  blocked _ := iff_of_true rfl rfl
  running _ := sound.running (not_isExited_of_isRunning running)

theorem Sound.elapses (sound : p.Sound) {now : Nat} (h : p.Elapses now q) : q.Sound := by
  cases h with
  | early state early => exact sound
  | arrived state due =>
      exact sound.of_unblocked (by simp [isExited_eq, state]) (by simp [state]) rfl nofun
  | waited state => exact ⟨sound.blocked, sound.running⟩
  | ran state => exact ⟨sound.blocked, sound.running⟩
  | stayed state early => exact sound
  | woke state due =>
      refine ⟨fun _ => iff_of_false Bool.false_ne_true nofun, fun _ => ?_⟩
      exact sound.running (by simp [isExited_eq, state])
  | ended state => exact sound

theorem sound_of_create {id : Pid} {name source : String} {arrivalTime : Nat}
    {schedulingClass : SchedulingClass} {priority : Priority}
    (h : create id name source arrivalTime schedulingClass priority = .ok p) : p.Sound := by
  obtain ⟨program, -, rfl⟩ := eq_of_create h
  exact ⟨fun _ => iff_of_false Bool.false_ne_true nofun, fun _ => .inl rfl⟩

end Process

namespace Kernel

variable {k : Kernel H} {operation : Operation H} {p q : Process H} {stays : List Stay}

theorem Change.sound (h : k.Change operation p stays q) (kept : ¬ operation.replaces)
    (sound : p.Sound) : q.Sound := by
  cases h with
  | elapsed due => exact sound.elapses (p.elapses k.advance.now)
  | dispatched due able =>
      rcases able with ready | running
      · have state : p.state = .ready := of_decide_eq_true ready
        exact sound.of_unblocked (Process.not_isExited_of_isReady ready) (by simp [state]) rfl nofun
      · have state : p.state = .running := of_decide_eq_true running
        exact sound.of_unblocked (Process.not_isExited_of_isRunning running) (by simp [state]) rfl
          nofun
  | sentBack due running =>
      have state : p.state = .running := of_decide_eq_true running
      exact sound.of_unblocked (Process.not_isExited_of_isRunning running) (by simp [state]) rfl
        nofun
  | spared untimed goes => exact sound.of_continues (goes.resolve_left kept)
  | blocked may running duration goes =>
      exact (sound.block running k.now duration).of_continues goes
  | ended may cpu => exact .of_exited rfl
  | cutShort mayBlock mayEnd running duration cpu => exact .of_exited rfl

/-! ## Driven kernels -/

structure Driven (k : Kernel H) : Prop where
  coherent : k.Coherent
  sound : ∀ p ∈ k.table.processes, p.Sound
  quantum : 0 < k.scheduler.quantum

theorem driven_empty (minimum : Log.Level) : (empty minimum : Kernel H).Driven where
  coherent := coherent_empty minimum
  sound _ hp := (List.not_mem_nil hp).elim
  quantum := Nat.succ_pos 1

variable [SyscallHandler H]

theorem Coherent.quantum_pos_perform (h : k.Coherent) (operation : Operation H)
    (quantum : 0 < k.scheduler.quantum) : 0 < (k.perform operation).scheduler.quantum := by
  have same {l : Kernel H} (settings : l.scheduler.settings = k.scheduler.settings) :
      0 < l.scheduler.quantum := by
    unfold Scheduler.quantum
    rwa [settings]
  cases operation with
  | schedule =>
      rcases h.schedule_cases with ⟨r, -, -, kept⟩ | ⟨-, ⟨p, -, chooses⟩ | ⟨-, rests⟩⟩
      · exact same (congrArg (fun answer => answer.2.scheduler.settings) kept)
      · exact same chooses.settings
      · exact same rests.settings
  | execute =>
      cases hr : k.table.running? with
      | none =>
          obtain ⟨-, -, kept | ⟨kept, -⟩⟩ := h.execute_of_idle hr
          · exact same (congrArg Scheduler.settings kept)
          · exact same (l := k.execute.2) (by rw [kept]; rfl)
      | some p => exact same (h.turns_execute hr).settings
  | terminate id reason =>
      refine same ?_
      show (k.terminate id reason).2.scheduler.settings = k.scheduler.settings
      unfold Kernel.terminate
      split
      · rfl
      · simp only [recordExit, Scheduler.record, Scheduler.deselect]
        split <;> rfl
  | setQuantum quantum =>
      show 0 < (max 1 (min quantum (Word.limit32 : Int))).toNat
      omega
  | _ => exact quantum

theorem Driven.perform (h : k.Driven) (kept : ¬ operation.isReset) (same : ¬ operation.replaces) :
    (k.perform operation).Driven where
  coherent := h.coherent.perform operation
  sound q hq := by
    obtain ⟨f, created, evolves⟩ := h.coherent.evolves operation kept
    rw [evolves.processes] at hq
    rcases List.mem_append.1 hq with old | new
    · obtain ⟨p, hp, rfl⟩ := List.mem_map.1 old
      exact (evolves.change p hp).sound same (h.sound p hp)
    · obtain ⟨_, _, _, _, _, _, made⟩ := evolves.fresh q (Option.mem_toList.1 new)
      exact Process.sound_of_create made
  quantum := h.coherent.quantum_pos_perform operation h.quantum

theorem Driven.performAll (h : k.Driven) {operations : List (Operation H)}
    (proper : ∀ operation ∈ operations, ¬ operation.isReset ∧ ¬ operation.replaces) :
    (k.performAll operations).Driven := by
  induction operations generalizing k with
  | nil => exact h
  | cons operation rest ih =>
      obtain ⟨kept, same⟩ := proper operation List.mem_cons_self
      exact ih (h.perform kept same) fun next hn => proper next (List.mem_cons_of_mem _ hn)

/-- A process that runs executes an instruction unless its program keeps it from that. -/
theorem Driven.executes (h : k.Driven) (hp : p ∈ k.table.processes) (running : p.isRunning)
    (unwaiting : ¬ p.cpu.waitingForInput) (unhalted : ¬ p.cpu.isHalted)
    (faultless : ∀ fault, p.cpu.step.1 ≠ .error fault) : p.executes := by
  have state : p.state = .running := of_decide_eq_true running
  have alive := Process.not_isExited_of_isRunning running
  have free : ¬ p.cpu.blocked := fun blocked => by
    have held := ((h.sound p hp).blocked alive).1 blocked
    simp [state] at held
  have goes : p.cpu.running := ((h.sound p hp).running alive).resolve_right unhalted
  have awake : p.cpu.isSuspended = false := by simp [Cpu.isSuspended, goes, free, unwaiting]
  cases current : p.cpu.current? with
  | none => exact (unhalted (Cpu.isHalted_of_current? current)).elim
  | some instruction =>
      cases executed : p.cpu.execute instruction with
      | ok after =>
          have stepped : p.cpu.step = (.ok true, after) :=
            Cpu.step_eq_ok_true.2 ⟨by simp [awake], instruction, current, executed⟩
          simp only [Process.executes, stepped]
      | error fault =>
          refine (faultless fault ?_).elim
          simp only [Cpu.step, awake, current, executed, Bool.false_eq_true, if_false]

end Kernel

/-! ## Drives -/

/-- What goes on between the ticks of a run. -/
structure Drive (H : Type) where
  minimum : Log.Level
  /-- What is done before the tick of a number. -/
  before : Nat → List (Operation H)
  proper : ∀ n, ∀ operation ∈ before n, operation.isInterlude

namespace Drive

variable [SyscallHandler H]

def after (d : Drive H) : Nat → Kernel H
  | 0 => .empty d.minimum
  | n + 1 => ((d.after n).performAll (d.before n)).tick.2

variable (d : Drive H)

def poised (n : Nat) : Kernel H := (d.after n).performAll (d.before n)

def timed (n : Nat) : Kernel H := (d.poised n).advance

def chosen (n : Nat) : Kernel H := (d.timed n).schedule.2

theorem after_succ (n : Nat) : d.after (n + 1) = (d.chosen n).perform .execute := rfl

/-- From the choice of one tick to the start of the next. -/
theorem poised_succ (n : Nat) :
    d.poised (n + 1) = (d.chosen n).performAll (.execute :: d.before (n + 1)) := rfl

/-- A tick, phase by phase: what the kernel before it comes to at its start, when time has passed,
and when a process has been chosen. -/
theorem driven_phases {n : Nat} (h : (d.after n).Driven) :
    (d.poised n).Driven ∧ (d.timed n).Driven ∧ (d.chosen n).Driven := by
  have poised : (d.poised n).Driven := by
    refine h.performAll fun operation member => ?_
    have interlude := d.proper n operation member
    cases operation with
    | replaceCpu id cpu => contradiction
    | reset => contradiction
    | _ => exact ⟨Bool.false_ne_true, Bool.false_ne_true⟩
  have timed : ((d.poised n).perform .advance).Driven := poised.perform nofun nofun
  have chosen : ((d.timed n).perform .schedule).Driven := Kernel.Driven.perform timed nofun nofun
  exact ⟨poised, timed, chosen⟩

theorem driven_after (n : Nat) : (d.after n).Driven := by
  induction n with
  | zero => exact Kernel.driven_empty d.minimum
  | succ n ih =>
      rw [d.after_succ]
      exact (d.driven_phases ih).2.2.perform nofun nofun

theorem driven_poised (n : Nat) : (d.poised n).Driven := (d.driven_phases (d.driven_after n)).1

theorem driven_timed (n : Nat) : (d.timed n).Driven := (d.driven_phases (d.driven_after n)).2.1

theorem driven_chosen (n : Nat) : (d.chosen n).Driven := (d.driven_phases (d.driven_after n)).2.2

end Drive

end Timeslice
