import Timeslice.Proofs.Machine.Session
import Timeslice.Proofs.Simulation.Reading
import Timeslice.Proofs.Simulation.Start

/-! # Scheduling does not change what a program computes

Every process of a simulation follows a session of its program: the instructions that it executes
and the inputs that it takes are those of the session, and nothing else that a tick does to it can
be told by the program.
-/

namespace Timeslice

/-! ## Processes that follow a session -/

namespace Process

variable {H : Type} [SyscallHandler H]

def utters (p : Process H) : List String :=
  match p.cpu.step with
  | (.ok _, cpu) => cpu.texts
  | (.error _, _) => []

end Process

/-- `c.Follows p`: process `p` is where session `c` is. -/
structure Session.Follows (c : Session) (p : Process Services) : Prop where
  agrees : c.cpu.Agrees p.cpu
  clean : p.cpu.effects = []
  running : c.cpu.running
  free : ¬ c.cpu.blocked
  alive : ¬ p.isExited → ¬ c.exited
  stopped : p.isExited → c.step? = none

namespace Session.Follows

variable {c d : Session} {p q : Process Services} {cpu : Cpu Services}

theorem of_freed (f : c.Follows p) (freed : q.cpu.freed = p.cpu.freed)
    (exited : q.isExited = p.isExited) : c.Follows q where
  agrees := f.agrees.of_freed freed
  clean := (congrArg (fun cpu => cpu.effects) freed).trans f.clean
  running := f.running
  free := f.free
  alive := exited ▸ f.alive
  stopped := exited ▸ f.stopped

theorem current? (f : c.Follows p) : c.cpu.current? = p.cpu.current? := by
  rw [Cpu.current?, Cpu.current?, f.agrees.program, f.agrees.programCounter]

/-- Only waiting keeps the processor of the session from running. -/
theorem isSuspended (f : c.Follows p) : c.cpu.isSuspended = p.cpu.waitingForInput := by
  have running := f.running
  have free := f.free
  simp only [Cpu.isSuspended, f.agrees.waitingForInput]
  simp_all

theorem step (f : c.Follows p) (stepped : p.cpu.step = (.ok true, cpu)) :
    ∃ cpu', c.cpu.step = (.ok true, cpu') ∧ cpu'.Agrees cpu ∧ cpu'.running ∧ ¬ cpu'.blocked := by
  obtain ⟨awake, instruction, current, executed⟩ := Cpu.step_eq_ok_true.1 stepped
  have unwaiting : p.cpu.waitingForInput = false := by
    simp only [Cpu.isSuspended, Bool.or_eq_true, not_or, Bool.not_eq_true] at awake
    exact awake.2
  have outcomes := f.agrees.execute instruction
  rw [executed] at outcomes
  generalize executed' : c.cpu.execute instruction = result at outcomes
  cases outcomes with
  | @ok cpu' _ agrees =>
      obtain ⟨running, blocked⟩ := Cpu.frame_execute executed'
      refine ⟨cpu', Cpu.step_eq_ok_true.2 ⟨?_, instruction, ?_, executed'⟩, agrees, ?_, ?_⟩
      · rw [f.isSuspended, unwaiting]
        decide
      · rw [f.current?, current]
      · rw [running]
        exact f.running
      · rw [blocked]
        exact f.free

/-- The session stops at an instruction that fails in the process. -/
theorem step?_of_fault (f : c.Follows p) {fault : Fault}
    (failed : p.cpu.step = (.error fault, cpu)) :
    c.step? = none := by
  refine Option.eq_none_iff_forall_not_mem.2 fun d next => ?_
  obtain ⟨-, cpu', stepped, -⟩ := Session.step?_eq_some.1 next
  obtain ⟨-, instruction, current, executed⟩ := Cpu.step_eq_ok_true.1 stepped
  have outcomes := f.agrees.execute instruction
  rw [executed] at outcomes
  rw [f.current?] at current
  unfold Cpu.step at failed
  split at failed
  · simp at failed
  · simp only [current] at failed
    split at failed
    · simp at failed
    · rename_i refused
      rw [refused] at outcomes
      contradiction

theorem step?_of_halted (f : c.Follows p) (halted : p.cpu.isHalted) : c.step? = none := by
  refine Option.eq_none_iff_forall_not_mem.2 fun d next => ?_
  obtain ⟨-, cpu', stepped, -⟩ := Session.step?_eq_some.1 next
  obtain ⟨-, instruction, current, -⟩ := Cpu.step_eq_ok_true.1 stepped
  rw [f.current?] at current
  have past : p.cpu.program.instructions.length ≤ p.cpu.programCounter := of_decide_eq_true halted
  have none_there := List.getElem?_eq_none past
  rw [Cpu.current?, Program.instruction?, none_there] at current
  contradiction

theorem terminate (f : c.Follows p) (stopped : c.step? = none) : c.Follows p.terminate where
  agrees := f.agrees.of_freed rfl
  clean := f.clean
  running := f.running
  free := f.free
  alive alive := (alive rfl).elim
  stopped _ := stopped

theorem of_drain (alive : ¬ p.isExited) {cpu' : Cpu Services}
    (agrees : cpu'.Agrees cpu) (running : cpu'.running) (free : ¬ cpu'.blocked) (now : Nat) :
    (c.drain cpu').Follows ((p.withCpu cpu).absorb now) := by
  have freed := Process.freed_absorb now (p.withCpu cpu)
  have exited : ((p.withCpu cpu).absorb now).isExited = cpu'.effects.contains .exit := by
    rw [Process.isExited_absorb, Bool.eq_iff_iff, Bool.or_eq_true, List.contains_iff_mem,
      List.contains_iff_mem, agrees.exit_mem]
    exact or_iff_right alive
  refine ⟨agrees.withoutEffects.of_freed freed, congrArg (fun cpu => cpu.effects) freed, running,
    free, ?_, ?_⟩
  · rw [exited]
    exact fun alive => alive
  · rw [exited]
    intro ended
    rw [Session.step?, Session.drain, if_pos ended]

theorem turn (f : c.Follows p) (alive : ¬ p.isExited) (now : Nat) :
    ∃ d, c.Reaches (if p.executes then 1 else 0) [] d ∧ d.Follows (p.turn now) ∧
      d.texts = c.texts ++ p.utters := by
  rcases stepped : p.cpu.step with ⟨fault | executed, cpu⟩
  · simp only [Process.executes, Process.utters, Process.turn, stepped, List.append_nil]
    exact ⟨c, .refl c, f.terminate (f.step?_of_fault stepped), rfl⟩
  · cases executed with
    | true =>
        simp only [Process.executes, Process.utters, Process.turn, stepped]
        obtain ⟨cpu', stepped', agrees, running, free⟩ := f.step stepped
        have next := Session.step?_eq_some.2 ⟨f.alive alive, cpu', stepped', rfl⟩
        refine ⟨c.drain cpu', .step next (.refl _), of_drain alive agrees running free now, ?_⟩
        rw [Session.drain, agrees.texts]
    | false =>
        have freed := Cpu.freed_of_idle_step stepped
        have clean : cpu.effects = [] := (congrArg (fun cpu => cpu.effects) freed).trans f.clean
        simp only [Process.executes, Process.utters, Process.turn, stepped]
        refine ⟨c, .refl c, f.of_freed ?_ ?_, ?_⟩
        · rw [Process.freed_absorb]
          exact (congrArg Cpu.freed (Cpu.withoutEffects_of_nil clean)).trans freed
        · rw [Process.isExited_absorb]
          exact (congrArg (fun effects => p.isExited || effects.contains .exit) clean).trans
            (Bool.or_false _)
        · simp [Cpu.texts, Effect.texts, clean]

theorem close (f : c.Follows p) : c.Follows p.close := by
  unfold Process.close
  split
  · rename_i due
    simp only [Bool.and_eq_true] at due
    exact f.terminate (f.step?_of_halted due.1.2)
  · exact f

theorem elapse (f : c.Follows p) (now : Nat) : c.Follows (p.elapse now) :=
  f.of_freed (p.freed_elapse now) (p.isExited_elapse now)

theorem intake (f : c.Follows p) (alive : ¬ p.isExited) {text : String}
    (supplied : p.cpu.supply text = (.ok true, cpu)) (now ticks : Nat) :
    ∃ d, c.Reaches 0 [text] d ∧ d.Follows (p.intake now ticks text) ∧
      d.texts = c.texts ++ (p.receive text).cpu.texts := by
  obtain ⟨waits, number, parsed, rfl⟩ := Cpu.supply_eq_ok_true.1 supplied
  have agrees := f.agrees.read text number
  have supplied' : c.cpu.supply text = (.ok true, c.cpu.read text number) :=
    Cpu.supply_eq_ok_true.2 ⟨f.agrees.waitingForInput ▸ waits, number, parsed, rfl⟩
  have taken := Session.take?_eq_some.2 ⟨_, supplied', rfl⟩
  have received : p.receive text = p.withCpu (p.cpu.read text number) := by
    simp only [Process.receive, supplied]
  obtain ⟨running, free⟩ := c.cpu.frame_read text number
  have follows := of_drain (c := c) alive agrees (running ▸ f.running) (free ▸ f.free) now
  refine ⟨_, .take taken (.refl _), ?_, ?_⟩
  · rw [Process.intake, received]
    refine follows.of_freed (Process.freed_feel _ _ _) ?_
    rw [Process.isExited_feel]
    exact Bool.or_false _
  · rw [received, Session.drain, agrees.texts]
    rfl

end Session.Follows

/-! ## Output -/

def Event.spoken (id : Pid) (events : List Event) : List String :=
  events.filterMap fun
    | .output process text _ => if process = id then some text else none
    | _ => none

namespace Event

variable {id : Pid}

theorem spoken_append (events more : List Event) :
    spoken id (events ++ more) = spoken id events ++ spoken id more :=
  List.filterMap_append

theorem spoken_outputs (process : Pid) (texts : List String) (now : Nat) :
    spoken id (texts.map fun text => .output process text now) =
      if process = id then texts else [] := by
  rw [spoken, List.filterMap_map]
  split
  · rename_i same
    simp [same]
  · rename_i other
    simp [other]

end Event

/-- What a turn reports of its process is what the process makes in it. -/
theorem Process.spoken_turnEvents (p : Process Services) (id : Pid) (now : Nat) :
    Event.spoken id (p.turnEvents now) = if p.id = id then p.utters else [] := by
  have ended (alive : Bool) :
      Event.spoken id (if alive then [.exited p.id .normal now] else []) = [] := by
    cases alive <;> rfl
  rcases stepped : p.cpu.step with ⟨fault | executed, cpu⟩
  · simp only [turnEvents, utters, stepped]
    exact (ite_self _).symm
  · simp only [turnEvents, utters, stepped]
    rw [Event.spoken_append, Event.spoken_outputs, ended, List.append_nil]

namespace Kernel

variable {k : Kernel Services} {id : Pid}

theorem spoken_partings (k : Kernel Services) : Event.spoken id k.partings = [] := by
  unfold partings
  split
  · rfl
  · split
    · split <;> rfl
    · rfl

theorem Coherent.spoken_schedule (h : k.Coherent) :
    Event.spoken id k.schedule.2.scheduler.audit = Event.spoken id k.scheduler.audit := by
  rcases h.schedule_cases with ⟨r, -, -, same⟩ | ⟨-, ⟨p, -, chooses⟩ | ⟨-, rests⟩⟩
  · rw [same]
  · rw [chooses.audit, Event.spoken_append, Event.spoken_append, k.spoken_partings,
      List.append_nil]
    exact List.append_nil _
  · rw [rests.audit, Event.spoken_append, k.spoken_partings, List.append_nil]

theorem Coherent.spoken_execute (h : k.Coherent) {p : Process Services}
    (hp : p ∈ k.table.processes) :
    Event.spoken p.id k.execute.2.scheduler.audit =
      Event.spoken p.id k.scheduler.audit ++ if p.isRunning then p.utters else [] := by
  cases hr : k.table.running? with
  | none =>
      have idle : ¬ p.isRunning := List.find?_eq_none.1 hr p hp
      rw [if_neg idle, List.append_nil]
      obtain ⟨-, -, same | ⟨same, -⟩⟩ := h.execute_of_idle hr
      · rw [same]
      · rw [same]
        rfl
  | some r =>
      obtain ⟨hr', running⟩ := h.running?_eq_some.1 hr
      rw [(h.turns_execute hr).audit, Event.spoken_append, Process.spoken_turnEvents]
      by_cases hid : r.id = p.id
      · rw [h.distinct.eq_of_id hr' hp hid, if_pos rfl, ← h.distinct.eq_of_id hr' hp hid,
          if_pos running]
      · have idle : ¬ p.isRunning := fun running' =>
          hid (congrArg _ (h.eq_of_running hr' hp running running'))
        rw [if_neg hid, if_neg idle]

theorem Coherent.spoken_close (h : k.Coherent) :
    Event.spoken id k.close.scheduler.audit = Event.spoken id k.scheduler.audit := by
  cases hf : k.finished? with
  | none => simp only [Kernel.close, hf]
  | some p =>
      rw [h.scheduler_close hf, Scheduler.record, Event.spoken_append]
      exact List.append_nil _

end Kernel

/-! ## One tick -/

namespace Simulation

def outputs (s : Simulation) (id : Pid) : List String :=
  (s.output.filter (·.process = id)).map (·.text)

def executes (s : Simulation) (id : Pid) : Nat :=
  if s.execution?.any (·.1.id = id) then 1 else 0

def accepts (s : Simulation) (id : Pid) : List String :=
  ((s.acceptance?.filter (·.1.id = id)).map (·.2)).toList

def executed (s : Simulation) (id : Pid) : Nat → Nat
  | 0 => 0
  | ticks + 1 => s.executed id ticks + (s.after ticks).executes id

def accepted (s : Simulation) (id : Pid) : Nat → List String
  | 0 => []
  | ticks + 1 => s.accepted id ticks ++ (s.after ticks).accepts id

variable {s : Simulation} {p q : Process Services}

/-- What delivering comes to for one process. -/
theorem exists_follows_deliver (h : s.kernel.Coherent)
    (hq : q ∈ s.deliver.2.kernel.table.processes) :
    ∃ p ∈ s.kernel.table.processes, q.origin = p.origin ∧ ∀ c : Session, c.Follows p →
      ∃ d, c.Reaches 0 (s.accepts p.id) d ∧ d.Follows q ∧
        d.texts = c.texts ++ (s.deliver.1.filter (·.1 = p.id)).map (·.2) := by
  cases accepted : s.acceptance? with
  | none =>
      obtain ⟨log, delivered⟩ := deliver_of_no_acceptance h accepted
      simp only [accepts, delivered, accepted] at hq ⊢
      exact ⟨q, hq, rfl, fun c f => ⟨c, .refl c, f, (List.append_nil _).symm⟩⟩
  | some given =>
      obtain ⟨r, text⟩ := given
      obtain ⟨waiting, -, cpu, supplied⟩ := acceptance?_eq_some accepted
      obtain ⟨hr, alive, -⟩ := waiting?_eq_some waiting
      have becomes := becomes_deliver h accepted
      obtain ⟨p, hp, rfl⟩ := becomes.mem hq
      refine ⟨p, hp, becomes.origin p, fun c f => ?_⟩
      rw [deliver_of_acceptance h accepted]
      by_cases hid : p.id = r.id
      · have same := h.distinct.eq_of_id hp hr hid
        subst same
        obtain ⟨d, reaches, follows, texts⟩ := f.intake alive supplied s.now s.inputRotation.next.1
        refine ⟨d, ?_, ?_, ?_⟩
        · simpa [accepts, accepted, Option.filter_some] using reaches
        · rwa [Process.only_of_eq _ rfl]
        · simp [texts, List.filter_map, Function.comp_def]
      · refine ⟨c, ?_, ?_, ?_⟩
        · simpa [accepts, accepted, Option.filter_some, Ne.symm hid] using Session.Reaches.refl c
        · rwa [Process.only_of_ne _ hid]
        · simp [List.filter_map, Function.comp_def, Ne.symm hid]

/-- Time and the choice of a process come to nothing that a session could tell. -/
theorem exists_follows_poised (h : s.kernel.Coherent) (hq : q ∈ s.poised.table.processes) :
    ∃ p ∈ s.deliver.2.kernel.table.processes, q.origin = p.origin ∧
      ∀ c : Session, c.Follows p → c.Follows q := by
  have delivered := coherent_deliver h
  obtain ⟨f, scheduled, cpu, exited, -⟩ := delivered.advance.becomes_schedule
  have advanced := s.deliver.2.kernel.table.becomes_advance
  obtain ⟨r, hr, rfl⟩ := scheduled.mem hq
  obtain ⟨p, hp, rfl⟩ := advanced.mem hr
  refine ⟨p, hp, (scheduled.origin _).trans (advanced.origin p), fun c follows => ?_⟩
  exact (follows.elapse _).of_freed (congrArg Cpu.freed (cpu _)) (exited _ hr)

theorem exists_follows_closed (h : s.kernel.Coherent) (hq : q ∈ s.closed.table.processes) :
    ∃ p ∈ s.poised.table.processes, q.origin = p.origin ∧ ∀ c : Session, c.Follows p →
      ∃ d, c.Reaches (s.executes p.id) [] d ∧ d.Follows q ∧
        d.texts = c.texts ++ if p.isRunning then p.utters else [] := by
  have poised := coherent_poised h
  have executed := poised.becomes_execute
  have closed := poised.execute.becomes_close
  obtain ⟨r, hr, rfl⟩ := closed.mem hq
  obtain ⟨p, hp, rfl⟩ := executed.mem hr
  refine ⟨p, hp, (closed.origin _).trans (executed.origin p), fun c f => ?_⟩
  rw [executes, execution?, poised.any_execution? hp]
  by_cases running : p.isRunning
  · have alive := Process.not_isExited_of_isRunning running
    obtain ⟨d, reaches, follows, texts⟩ := f.turn alive s.poised.now
    rw [if_pos running, if_pos running, running, Bool.true_and]
    exact ⟨d, reaches, follows.close, texts⟩
  · rw [if_neg running, if_neg running, List.append_nil, Bool.eq_false_iff.2 running,
      Bool.false_and]
    exact ⟨c, .refl c, f.close, rfl⟩

/-- The output of a tick is what input made it and what its events report. -/
theorem outputs_step (h : s.kernel.Coherent) (id : Pid) :
    s.step.2.outputs id = s.outputs id ++ ((s.deliver.1.filter (·.1 = id)).map (·.2) ++
      Event.spoken id s.closed.scheduler.audit) := by
  have ticks := ticks_step h
  have lines (tick : Nat) (events : List Event) :
      ((events.filterMap (line? tick)).filter (·.process = id)).map (·.text) =
        Event.spoken id events := by
    rw [List.filter_filterMap, List.map_filterMap, Event.spoken]
    refine List.filterMap_congr fun event _ => ?_
    cases event with
    | output process text now =>
        simp only [line?, Option.filter_some]
        by_cases same : process = id <;> simp [same]
    | _ => rfl
  rw [outputs, ticks.output, ticks.lines, List.filter_append, List.map_append, outputs,
    List.filter_append, List.map_append, lines, List.filter_map, List.map_map]
  rfl

/-- One tick of one process: the session goes on by the instruction that the process executes and
the input that it takes. -/
theorem exists_follows_step (h : s.kernel.Coherent) (clear : s.kernel.scheduler.audit = [])
    (hq : q ∈ s.step.2.kernel.table.processes) :
    ∃ p ∈ s.kernel.table.processes, q.origin = p.origin ∧ ∀ c : Session, c.Follows p →
      c.texts = s.outputs p.id →
      ∃ d, c.Reaches (s.executes p.id) (s.accepts p.id) d ∧ d.Follows q ∧
        d.texts = s.step.2.outputs p.id := by
  have poised := coherent_poised h
  rw [(ticks_step h).processes] at hq
  obtain ⟨r, hr, origin, close⟩ := exists_follows_closed h hq
  obtain ⟨t, ht, origin', poise⟩ := exists_follows_poised h hr
  obtain ⟨p, hp, origin'', deliver⟩ := exists_follows_deliver h ht
  have hid : r.id = p.id := Process.id_eq_of_origin (origin'.trans origin'')
  -- Records are clear before a tick, so all that is spoken at its end was spoken in it.
  have silent : Event.spoken p.id s.poised.scheduler.audit = [] := by
    have scheduled : Event.spoken p.id s.poised.scheduler.audit =
        Event.spoken p.id s.deliver.2.kernel.advance.scheduler.audit :=
      (coherent_deliver h).advance.spoken_schedule
    have before : s.deliver.2.kernel.advance.scheduler.audit = [] := by
      rw [Kernel.advance, scheduler_deliver h, clear]
    rw [before] at scheduled
    exact scheduled
  have spoken : Event.spoken p.id s.closed.scheduler.audit =
      if r.isRunning then r.utters else [] := by
    have executed := poised.spoken_execute hr
    rw [hid, silent, List.nil_append] at executed
    exact poised.execute.spoken_close.trans executed
  refine ⟨p, hp, origin.trans (origin'.trans origin''), fun c follows texts => ?_⟩
  obtain ⟨d, taken, followsD, textsD⟩ := deliver c follows
  obtain ⟨e, stepped, followsE, textsE⟩ := close d (poise d followsD)
  rw [hid] at stepped
  refine ⟨e, ?_, followsE, ?_⟩
  · have both := taken.trans stepped
    rwa [Nat.zero_add, List.append_nil] at both
  · rw [outputs_step h, spoken, textsE, textsD, texts, List.append_assoc]

/-! ## Runs -/

def NeverReads (s : Simulation) (id : Pid) (ticks : Nat) : Prop :=
  ∀ m < ticks, (s.after m).ReadsOnly fun origin => origin.id ≠ id

instance (s : Simulation) (id : Pid) (ticks : Nat) : Decidable (s.NeverReads id ticks) :=
  inferInstanceAs (Decidable (∀ m < ticks, ∀ given ∈ (s.after m).execution?,
    given.2.isRead → given.1.id ≠ id))

namespace Begins

variable {a b : Scenario} {t : Simulation}

/-- The records are clear between ticks. -/
theorem audit_after (hs : s.Begins a) (ticks : Nat) :
    (s.after ticks).kernel.scheduler.audit = [] := by
  cases ticks with
  | zero =>
      rw [after, hs.scheduler]
      rfl
  | succ ticks => exact (ticks_step (coherent_after hs.coherent ticks)).audit

/-- A process follows the session of its program from the start, whatever the rotation of the
session is. -/
theorem follows_start (hs : s.Begins a) (hp : p ∈ s.kernel.table.processes) (services : Services) :
    ∃ program, Program.parse p.source = .ok program ∧
      (Session.start program services).Follows p := by
  obtain ⟨entry, -, source, program, -, parsed, rfl⟩ := hs.starts hp
  exact ⟨program, parsed, ⟨rfl, rfl, rfl, rfl⟩, rfl, rfl, Bool.false_ne_true,
    fun _ => Bool.false_ne_true, fun exited => (Bool.false_ne_true exited).elim⟩

/-- After any number of ticks every process is where the session of its program is after as many
instructions and with the same input, and it has put out the same texts. -/
theorem follows_after (hs : s.Begins a) (services : Services) (ticks : Nat)
    (hp : p ∈ (s.after ticks).kernel.table.processes) :
    ∃ program, Program.parse p.source = .ok program ∧ ∃ c : Session,
      (Session.start program services).Reaches (s.executed p.id ticks) (s.accepted p.id ticks) c ∧
        c.Follows p ∧ c.texts = (s.after ticks).outputs p.id := by
  -- On ticks backwards: the process of the last tick is traced to the one that it was before.
  induction ticks generalizing p with
  | zero =>
      obtain ⟨program, parsed, follows⟩ := hs.follows_start hp services
      refine ⟨program, parsed, _, .refl _, follows, ?_⟩
      rw [after, outputs, hs.output]
      rfl
  | succ ticks ih =>
      obtain ⟨q, hq, origin, step⟩ :=
        exists_follows_step (coherent_after hs.coherent ticks) (hs.audit_after ticks) hp
      obtain ⟨program, parsed, c, reaches, follows, texts⟩ := ih hq
      obtain ⟨d, goes, follows', texts'⟩ := step c follows texts
      rw [Process.source_eq_of_origin origin, Process.id_eq_of_origin origin]
      exact ⟨program, parsed, d, reaches.trans goes, follows', texts'⟩

theorem accepted_eq_nil (hs : s.Begins a) (id : Pid) (ticks : Nat)
    (never : s.NeverReads id ticks) : s.accepted id ticks = [] := by
  induction ticks with
  | zero => rfl
  | succ ticks ih =>
      have before := fun m hm => never m (Nat.lt_succ_of_lt hm)
      have waits := waitsOnly_after hs.coherent (hs.waitsOnly _) ticks before
      rw [accepted, ih before, List.nil_append, accepts]
      cases ha : (s.after ticks).acceptance? with
      | none => rfl
      | some given =>
          obtain ⟨hp, -, waiting⟩ := waiting?_eq_some (acceptance?_eq_some ha).1
          have other : given.1.id ≠ id := waits _ hp waiting
          rw [Option.filter_some, decide_eq_false other]
          rfl

end Begins

/-- Scheduling does not change what a program computes. Processes of one program that have executed
as many instructions and taken the same inputs agree, whatever simulations they are in. A process
that has read no input has put out the first of the texts that its program makes alone, and after
its exit all of them. -/
theorem computation_unaffected {a b : Scenario} {s t : Simulation} (hs : create a = .ok s)
    (ht : create b = .ok t) (m n : Nat) {p q : Process Services}
    (hp : p ∈ (s.after m).kernel.table.processes) (hq : q ∈ (t.after n).kernel.table.processes)
    (source : p.source = q.source) :
    (s.executed p.id m = t.executed q.id n → s.accepted p.id m = t.accepted q.id n →
      p.cpu.accumulator = q.cpu.accumulator ∧ p.cpu.programCounter = q.cpu.programCounter ∧
        p.cpu.data = q.cpu.data ∧ (s.after m).outputs p.id = (t.after n).outputs q.id) ∧
      (s.NeverReads p.id m → ∃ program, Program.parse p.source = .ok program ∧
        ∀ services limit, s.executed p.id m ≤ limit →
          let alone := (Session.start program services).run limit
          (s.after m).outputs p.id <+: alone.texts ∧
            (p.isExited → alone.step? = none ∧ (s.after m).outputs p.id = alone.texts ∧
              p.cpu.accumulator = alone.cpu.accumulator ∧
              p.cpu.programCounter = alone.cpu.programCounter)) := by
  have hs := begins_of_create hs
  have ht := begins_of_create ht
  constructor
  · intro counts inputs
    obtain ⟨program, parsed, c, reaches, follows, texts⟩ := hs.follows_after ⟨.standard⟩ m hp
    obtain ⟨program', parsed', d, reaches', follows', texts'⟩ := ht.follows_after ⟨.standard⟩ n hq
    rw [source] at parsed
    cases parsed.symm.trans parsed'
    rw [counts, inputs] at reaches
    have same := reaches.unique reaches'
    subst same
    refine ⟨?_, ?_, ?_, ?_⟩
    · rw [← follows.agrees.accumulator, follows'.agrees.accumulator]
    · rw [← follows.agrees.programCounter, follows'.agrees.programCounter]
    · rw [← follows.agrees.data, follows'.agrees.data]
    · rw [← texts, texts']
  · intro never
    obtain ⟨program, parsed, -⟩ := hs.follows_after ⟨.standard⟩ m hp
    refine ⟨program, parsed, fun services limit enough => ?_⟩
    obtain ⟨program', parsed', c, reaches, follows, texts⟩ := hs.follows_after services m hp
    cases parsed.symm.trans parsed'
    rw [hs.accepted_eq_nil p.id m never] at reaches
    obtain ⟨more, rfl⟩ := Nat.exists_eq_add_of_le enough
    intro alone
    have arrives : alone = c.run more := reaches.run_add more
    rw [arrives, ← texts]
    refine ⟨c.texts_prefix_run more, fun exited => ?_⟩
    have stopped := follows.stopped exited
    rw [Session.run_of_stopped stopped]
    exact ⟨stopped, rfl, follows.agrees.accumulator.symm, follows.agrees.programCounter.symm⟩

def before (others : List ProcessSpec) : Scenario where
  quantum := 2
  maxTicks := 100
  logLevel := .info
  blockTicks := ⟨1, 3⟩
  inputs := ["7"]
  processes :=
    ⟨"reader", 0, .bestEffort, .low, some ".code\nSYSCALL 2\nSYSCALL 1\nSYSCALL 0", none⟩ :: others

def printer : ProcessSpec :=
  ⟨"printer", 1, .realtime, .high, some ".code\nADD #1\nSYSCALL 1\nSYSCALL 0", none⟩

theorem computation_unaffected_by_printer :
    ∃ s t p q r, create (before []) = .ok s ∧ create (before [printer]) = .ok t ∧
      p ∈ (s.after 2).kernel.table.processes ∧ q ∈ (t.after 5).kernel.table.processes ∧
      p.source = q.source ∧ p.cpu.accumulator = q.cpu.accumulator ∧
      p.cpu.programCounter = q.cpu.programCounter ∧ p.cpu.data = q.cpu.data ∧
      (s.after 2).outputs p.id = (t.after 5).outputs q.id ∧
      r ∈ (t.after 5).kernel.table.processes ∧ ∃ program, Program.parse r.source = .ok program ∧
        let alone := (Session.start program ⟨.standard⟩).run 3
        (t.after 5).outputs r.id = alone.texts ∧ r.cpu.accumulator = alone.cpu.accumulator := by
  obtain ⟨s, hs⟩ : ∃ s, create (before []) = .ok s := exists_ok (by decide +kernel)
  obtain ⟨t, ht⟩ : ∃ t, create (before [printer]) = .ok t := exists_ok (by decide +kernel)
  have alone : ∀ s ∈ (create (before [])).toOption, s.executed 1 2 = 2 ∧ s.accepted 1 2 = ["7"] ∧
      ((s.after 2).kernel.table.find? 1).map (·.source) =
        some ".code\nSYSCALL 2\nSYSCALL 1\nSYSCALL 0" := by decide +kernel
  have together : ∀ t ∈ (create (before [printer])).toOption, t.executed 1 5 = 2 ∧
      t.accepted 1 5 = ["7"] ∧ ((t.after 5).kernel.table.find? 1).map (·.source) =
        some ".code\nSYSCALL 2\nSYSCALL 1\nSYSCALL 0" := by decide +kernel
  have printed : ∀ t ∈ (create (before [printer])).toOption, t.executed 2 5 = 3 ∧
      t.NeverReads 2 5 ∧ ((t.after 5).kernel.table.find? 2).map (·.isExited) = some true := by
    decide +kernel
  rw [hs] at alone
  rw [ht] at together printed
  obtain ⟨counts, inputs, found⟩ := alone s rfl
  obtain ⟨counts', inputs', found'⟩ := together t rfl
  obtain ⟨count, never, ended⟩ := printed t rfl
  obtain ⟨p, hp, source⟩ := Option.map_eq_some_iff.1 found
  obtain ⟨q, hq, source'⟩ := Option.map_eq_some_iff.1 found'
  obtain ⟨r, hr, exited⟩ := Option.map_eq_some_iff.1 ended
  have same : p.source = q.source := source.trans source'.symm
  have one := ProcessTable.find?_id hp
  have one' := ProcessTable.find?_id hq
  have two := ProcessTable.find?_id hr
  have memP := ProcessTable.mem_of_find? hp
  have memQ := ProcessTable.mem_of_find? hq
  have memR := ProcessTable.mem_of_find? hr
  -- The readers agree across the simulations.
  have agree := (computation_unaffected hs ht 2 5 memP memQ same).1
  rw [one, one', counts, counts', inputs, inputs'] at agree
  obtain ⟨accumulator, programCounter, data, texts⟩ := agree rfl rfl
  rw [← one] at texts
  -- The printer agrees with its program alone.
  have ends := (computation_unaffected ht ht 5 5 memR memR rfl).2
  rw [two] at ends
  obtain ⟨program, parsed, runs⟩ := ends never
  obtain ⟨-, all⟩ := runs ⟨.standard⟩ 3 (Nat.le_of_eq count)
  obtain ⟨-, made, left, -⟩ := all exited
  refine ⟨s, t, p, q, r, hs, ht, memP, memQ, same, accumulator, programCounter, data, ?_, memR,
    program, parsed, ?_, left⟩
  · rw [one', ← one, texts]
  · rw [two, made]

end Simulation

end Timeslice
