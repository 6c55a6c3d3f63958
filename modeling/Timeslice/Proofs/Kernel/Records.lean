import Timeslice.Proofs.Kernel.Operation

/-! # What is written and never read

The logs and the audit are records beside the rest of a kernel: they are written to and never
read. Whatever stands in them, an operation does the same, answers the same and writes the same
behind it. So nothing that is done to the records alone, such as clearing them or setting the level
of a log, changes what the operations after it do.
-/

namespace Timeslice

/-! ## States that keep records -/

class Journal (R : Type) (W : outParam Type) where
  write : R → W → R
  nothing : W
  /-- One writing, and another behind it. -/
  both : W → W → W
  write_nothing (r : R) : write r nothing = r
  write_both (r : R) (v w : W) : write r (both v w) = write (write r v) w

/-- What keeps records beside the rest of its state. -/
class Recorder (S : Type) (R : outParam Type) where
  /-- The same with other records. -/
  recording : S → R → S

open Journal Recorder

/-- An answer keeps no records. -/
instance {α S R : Type} [Recorder S R] : Recorder (α × S) R where
  recording result r := (result.1, recording result.2 r)

/-- Nor does a failure. -/
instance {ε S R : Type} [Recorder S R] : Recorder (Except ε S) R where
  recording result r := result.map (recording · r)

section Blind

variable {S T U R W ε : Type} [Journal R W] [Recorder S R] [Recorder T R] [Recorder U R]

/-- `Blind f s`: neither what `f` makes of `s` nor what it writes depends on the records. -/
def Blind (f : S → T) (s : S) : Prop :=
  ∃ w, ∀ r : R, f (recording s r) = recording (f s) (write r w)

/-- What writes nothing is blind if it does the same under all records. -/
theorem Blind.of_same {f : S → T} {s : S} (h : ∀ r : R, f (recording s r) = recording (f s) r) :
    Blind f s := by
  refine ⟨nothing R, fun r => ?_⟩
  rw [h, write_nothing]

theorem Blind.refl (s : S) : Blind (fun s => s) s := .of_same fun _ => rfl

theorem Blind.pair {α : Type} {f : S → T} {s : S} (answer : α) (h : Blind f s) :
    Blind (fun s => (answer, f s)) s := by
  obtain ⟨w, hw⟩ := h
  exact ⟨w, fun r => congrArg (Prod.mk answer) (hw r)⟩

/-- An answer given before stays. -/
theorem Blind.beside {α : Type} {f : S → T} {given : α × S} (h : Blind f given.2) :
    Blind (fun given : α × S => (given.1, f given.2)) given := by
  obtain ⟨w, hw⟩ := h
  exact ⟨w, fun r => congrArg (Prod.mk given.1) (hw r)⟩

theorem Blind.answer {α β : Type} {f : S → α × T} {s : S} (g : α → β) (h : Blind f s) :
    Blind (fun s => (g (f s).1, (f s).2)) s := by
  obtain ⟨w, hw⟩ := h
  exact ⟨w, fun r => congrArg (Prod.map g id) (hw r)⟩

/-- Answers are the same under all records. -/
theorem Blind.fst {α : Type} {f : S → α × T} {s : S} (h : Blind f s) (r : R) :
    (f (recording s r)).1 = (f s).1 := by
  obtain ⟨w, hw⟩ := h
  rw [hw]
  rfl

theorem Blind.snd {α : Type} {f : S → α × T} {s : S} (h : Blind f s) :
    Blind (fun s => (f s).2) s := by
  obtain ⟨w, hw⟩ := h
  exact ⟨w, fun r => congrArg Prod.snd (hw r)⟩

theorem Blind.comp {f : S → T} {g : T → U} {s : S} (hg : Blind g (f s)) (hf : Blind f s) :
    Blind (fun s => g (f s)) s := by
  obtain ⟨v, hv⟩ := hf
  obtain ⟨w, hw⟩ := hg
  refine ⟨both R v w, fun r => ?_⟩
  calc g (f (recording s r))
      = recording (g (f s)) (write (write r v) w) := by rw [hv, hw]
    _ = recording (g (f s)) (write r (both R v w)) := by rw [write_both]

theorem Blind.ite {c : S → Prop} [DecidablePred c] {f g : S → T} {s : S}
    (same : ∀ r : R, c (recording s r) ↔ c s) (hf : Blind f s) (hg : Blind g s) :
    Blind (fun s => if c s then f s else g s) s := by
  by_cases holds : c s
  · obtain ⟨w, hw⟩ := hf
    refine ⟨w, fun r => ?_⟩
    simp only [(same r).2 holds, holds, if_true, hw]
  · obtain ⟨w, hw⟩ := hg
    refine ⟨w, fun r => ?_⟩
    simp only [mt (same r).1 holds, holds, if_false, hw]

theorem Blind.cond {f g : S → T} {given : Bool × S} (hf : Blind f given.2)
    (hg : Blind g given.2) :
    Blind (fun given : Bool × S => bif given.1 then f given.2 else g given.2) given := by
  rcases given with ⟨holds, s⟩
  cases holds with
  | true => exact hf
  | false => exact hg

theorem Blind.bind {f : S → Except ε T} {g : T → Except ε U} {s : S}
    (hg : ∀ t, Blind g t) (hf : Blind f s) : Blind (fun s => f s >>= g) s := by
  apply Blind.comp (g := (· >>= g)) _ hf
  cases f s with
  | error e => exact .of_same fun r => rfl
  | ok t =>
      obtain ⟨w, hw⟩ := hg t
      exact ⟨w, hw⟩

end Blind

/-! ## The table -/

namespace Log

theorem addAll_append (log : Log) (first second : List Entry) :
    log.addAll (first ++ second) = (log.addAll first).addAll second := List.foldl_append

instance : Journal Log (List Entry) where
  write := addAll
  nothing := []
  both := List.append
  write_nothing _ := rfl
  write_both := addAll_append

end Log

namespace ProcessTable

variable {H : Type}

instance : Recorder (ProcessTable H) Log where
  recording table log := { table with log }

variable (table : ProcessTable H)

theorem blind_update (id : Pid) (f : Process H → Process H) : Blind (·.update id f) table :=
  .of_same fun _ => rfl

theorem blind_note (level : Log.Level) (id : Pid) (message : String)
    (fields : List (String × String)) : Blind (·.note level id message fields) table :=
  ⟨[.of level id table.now message fields], fun _ => rfl⟩

theorem blind_advance : Blind advance table :=
  ⟨((table.processes.filter (·.arrives table.clock.tick.ticks)).map fun p =>
      Log.Entry.of .info p.id table.clock.tick.ticks "process admitted" []) ++
    (table.processes.filter (·.wakes table.clock.tick.ticks)).map fun p =>
      Log.Entry.of .info p.id table.clock.tick.ticks "process woke up" [], fun _ => rfl⟩

theorem blind_create (name source : String) (arrivalTime : Nat) (schedulingClass : SchedulingClass)
    (priority : Priority) :
    Blind (·.create name source arrivalTime schedulingClass priority) table := by
  have nextId (log : Log) : (recording table log).nextId = table.nextId := rfl
  unfold Blind create
  simp only [nextId]
  cases Process.create (H := H) table.nextId name source arrivalTime schedulingClass priority with
  | error e => exact ⟨[], fun _ => rfl⟩
  | ok p =>
      exact ⟨[.of .info table.nextId table.now "process created" [
        ("name", name),
        ("class", schedulingClass.name),
        ("priority", Text.decimal priority.level),
        ("arrival", Text.decimal arrivalTime)]], fun _ => rfl⟩

@[simp]
theorem find?_recording (log : Log) (id : Pid) :
    (recording table log).find? id = table.find? id := rfl

theorem blind_block (id : Pid) (duration : Nat) : Blind (·.block id duration) table := by
  unfold Blind block
  simp only [find?_recording]
  cases table.find? id with
  | none => exact ⟨[], fun _ => rfl⟩
  | some p =>
      dsimp only
      cases p.isRunning with
      | false => exact ⟨[], fun _ => rfl⟩
      | true =>
          exact ⟨[.of .info id table.now "process blocked" [("ticks", Text.decimal duration)]],
            fun _ => rfl⟩

theorem blind_terminate (id : Pid) : Blind (·.terminate id) table := by
  unfold Blind terminate
  simp only [find?_recording]
  cases table.find? id with
  | none => exact ⟨[], fun _ => rfl⟩
  | some p => exact ⟨[.of .info id table.now "process terminated" []], fun _ => rfl⟩

theorem blind_apply (id : Pid) (effect : Effect) : Blind (apply id · effect) table := by
  cases effect with
  | exit => exact (table.blind_terminate id).snd
  | block ticks => exact (table.blind_block id ticks).snd
  | output text => exact .of_same fun _ => rfl

theorem blind_applyAll (id : Pid) (effects : List Effect) :
    Blind (fun table : ProcessTable H => effects.foldl (apply id) table) table := by
  induction effects generalizing table with
  | nil => exact .of_same fun _ => rfl
  | cons effect rest ih => exact (ih _).comp (table.blind_apply id effect)

theorem blind_applyEffects (id : Pid) : Blind (·.applyEffects id) table := by
  unfold Blind applyEffects
  simp only [find?_recording]
  cases table.find? id with
  | none => exact ⟨[], fun _ => rfl⟩
  | some p =>
      have updated := table.blind_update id fun p => p.withCpu p.cpu.withoutEffects
      exact ((blind_applyAll _ id p.cpu.effects).comp updated).pair _

theorem blind_setHandler (id : Pid) (handler : H) : Blind (·.setHandler id handler) table :=
  .of_same fun _ => rfl

theorem blind_supply [SyscallHandler H] (id : Pid) (text : String) :
    Blind (·.supply id text) table := by
  unfold Blind supply
  simp only [find?_recording]
  cases table.find? id with
  | none => exact ⟨[], fun _ => rfl⟩
  | some p =>
      dsimp only
      rcases p.cpu.supply text with ⟨fault | _ | _, cpu⟩
      · exact ⟨[], fun _ => rfl⟩
      · exact ⟨[], fun _ => rfl⟩
      · exact ⟨[.of .debug id table.now "input delivered"
          [("value", String.ofList (Text.trim text.toList))]], fun _ => rfl⟩

end ProcessTable

def Scheduler.recording (s : Scheduler) (audit : List Event) (log : Log) : Scheduler :=
  { s with audit, log }

theorem Scheduler.deselect_recording (s : Scheduler) (audit : List Event) (log : Log) (id : Pid) :
    (s.recording audit log).deselect id = (s.deselect id).recording audit log := by
  by_cases held : s.current = some id <;> simp [deselect, recording, held]

/-! ## The kernel -/

namespace Kernel

structure Records where
  table : Log
  scheduler : Log
  audit : List Event

structure Writing where
  table : List Log.Entry
  scheduler : List Log.Entry
  audit : List Event

instance : Journal Records Writing where
  write r w := ⟨r.table.addAll w.table, r.scheduler.addAll w.scheduler, r.audit ++ w.audit⟩
  nothing := ⟨[], [], []⟩
  both v w := ⟨v.table ++ w.table, v.scheduler ++ w.scheduler, v.audit ++ w.audit⟩
  write_nothing r := congrArg (Records.mk r.table r.scheduler) (List.append_nil r.audit)
  write_both r v w := by simp only [Log.addAll_append, List.append_assoc]

variable {H : Type}

instance : Recorder (Kernel H) Records where
  recording k r := ⟨recording k.table r.table, k.scheduler.recording r.audit r.scheduler⟩

section Operations

variable (k : Kernel H)

/-- What writes to the logs alone. -/
theorem blind_of_logs {T : Type} [Recorder T Records] {f : Kernel H → T}
    (table scheduler : List Log.Entry) (h : ∀ r : Records, f (recording k r) = recording (f k)
      ⟨r.table.addAll table, r.scheduler.addAll scheduler, r.audit⟩) : Blind f k := by
  refine ⟨⟨table, scheduler, []⟩, fun r => ?_⟩
  calc f (recording k r)
      = recording (f k) ⟨r.table.addAll table, r.scheduler.addAll scheduler, r.audit⟩ := h r
    _ = recording (f k) (write r ⟨table, scheduler, []⟩) := by
      simp only [write, List.append_nil]

/-- The kernel is as blind as its table. -/
theorem blind_table {α : Type} {f : ProcessTable H → α × ProcessTable H} (h : Blind f k.table) :
    Blind (fun k : Kernel H => ((f k.table).1, { k with table := (f k.table).2 })) k := by
  obtain ⟨entries, written⟩ := h
  refine k.blind_of_logs entries [] fun r => ?_
  have written : f (recording k r).table = _ := written r.table
  simp only [written]
  rfl

theorem blind_advance : Blind advance k :=
  (k.blind_table (k.table.blind_advance.pair ())).snd

theorem blind_preempt (id : Pid) (reason : Preemption) : Blind (·.preempt id reason) k := by
  refine ⟨⟨[], [.of .info id k.now "process preempted" [("reason", reason.name)]],
    [.preempted id reason k.now]⟩, fun r => ?_⟩
  simp only [preempt, recording, Scheduler.deselect_recording]
  rfl

theorem blind_dispatch (p : Process H) : Blind (·.dispatch p) k :=
  ⟨⟨[], [.of .debug p.id k.now "process dispatched" [("quantum", Text.decimal (k.granted p))]],
    [.selected p.id k.now]⟩, fun _ => rfl⟩

theorem blind_select (id : Option Pid) :
    Blind (fun k : Kernel H => { k with scheduler := k.scheduler.select id }) k :=
  .of_same fun _ => rfl

theorem blind_deselect (id : Pid) :
    Blind (fun k : Kernel H => { k with scheduler := k.scheduler.deselect id }) k := by
  refine .of_same fun r => ?_
  simp only [recording, Scheduler.deselect_recording]

theorem blind_note (entry : Log.Entry) :
    Blind (fun k : Kernel H => { k with scheduler := k.scheduler.note entry }) k :=
  k.blind_of_logs [] [entry] fun _ => rfl

theorem blind_recordExit (id : Pid) (reason : ExitCause) : Blind (·.recordExit id reason) k :=
  ⟨⟨[], [], [.exited id reason k.now]⟩, fun _ => rfl⟩

@[simp]
theorem current_recording (r : Records) :
    (recording k r).scheduler.current = k.scheduler.current := rfl

@[simp]
theorem running?_recording (r : Records) :
    (recording k r).table.running? = k.table.running? := rfl

@[simp]
theorem find?_recording (r : Records) (id : Pid) :
    (recording k r).table.find? id = k.table.find? id := rfl

theorem blind_settle : Blind settle k := by
  unfold Blind settle
  simp only [running?_recording]
  cases k.table.running? with
  | none => exact (Blind.refl k).pair false
  | some p =>
      dsimp only
      split
      · exact (k.blind_preempt p.id .quantumExpired).pair false
      · exact (k.blind_select (some p.id)).pair p.cpu.waitingForInput

theorem blind_dropStale : Blind dropStale k := by
  unfold Blind dropStale
  simp only [current_recording, find?_recording]
  cases k.scheduler.current with
  | none => exact Blind.refl k
  | some held =>
      dsimp only
      cases (k.table.find? held).map Process.state with
      | none => exact k.blind_select none
      | some state =>
          cases state with
          | running => exact Blind.refl k
          | exit => exact (blind_recordExit _ held .terminated).comp (k.blind_select none)
          | new => exact k.blind_select none
          | ready => exact k.blind_select none
          | blocked => exact k.blind_select none

theorem blind_fill : Blind fill k := by
  have chosen (r : Records) : (recording k r).choice? = k.choice? := rfl
  unfold Blind fill
  simp only [current_recording, chosen]
  cases k.scheduler.current with
  | some held => exact Blind.refl k
  | none =>
      cases k.choice? with
      | some p => exact k.blind_dispatch p
      | none => exact Blind.refl k

theorem blind_makeWay : Blind makeWay k := by
  have ready (r : Records) : (recording k r).table.ready = k.table.ready := rfl
  unfold Blind makeWay
  simp only [current_recording, find?_recording, ready]
  cases k.scheduler.current with
  | none => exact (Blind.refl k).pair false
  | some held =>
      dsimp only
      split
      · exact (k.blind_preempt held .realtimeArrival).pair true
      · exact (Blind.refl k).pair false

theorem pass_eq :
    k.pass = bif k.settle.1 then (false, k.settle.2) else k.settle.2.dropStale.fill.makeWay := by
  unfold pass
  rcases k.settle with ⟨waits, l⟩
  cases waits with
  | true => rfl
  | false => rfl

theorem blind_pass : Blind pass k := by
  have stays := (Blind.refl k.settle.2).pair false
  have goes_on := (blind_makeWay _).comp ((blind_fill _).comp k.settle.2.blind_dropStale)
  rw [funext pass_eq]
  exact (stays.cond goes_on).comp k.blind_settle

theorem passes_succ (limit : Nat) :
    passes (limit + 1) k = bif k.pass.1 then passes limit k.pass.2 else k.pass.2 := by
  rw [passes]
  rcases k.pass with ⟨again, l⟩
  cases again with
  | true => rfl
  | false => rfl

theorem blind_passes (limit : Nat) : Blind (passes limit) k := by
  induction limit generalizing k with
  | zero => exact .refl k
  | succ limit ih =>
      have goes_on := (ih k.pass.2).cond (.refl k.pass.2)
      rw [funext fun k => passes_succ k limit]
      exact goes_on.comp k.blind_pass

theorem blind_schedule : Blind schedule k := by
  have answers : Blind (fun k : Kernel H => (k.scheduler.current, k))
      (passes (k.table.processes.length + 1) k) := .of_same fun _ => rfl
  exact answers.comp (k.blind_passes _)

theorem blind_terminate (id : Pid) (reason : ExitCause) : Blind (·.terminate id reason) k := by
  unfold Blind terminate ProcessTable.terminate
  simp only [find?_recording]
  cases k.table.find? id with
  | none => exact (Blind.refl k).pair false
  | some p =>
      have updated := k.table.blind_update id (·.terminate)
      have noted := (ProcessTable.blind_note _ .info id "process terminated" []).comp updated
      have ended := (k.blind_table (noted.pair ())).snd
      exact ((blind_recordExit _ id reason).comp ((blind_deselect _ id).comp ended)).pair true

/-- An exit on the processor is recorded. -/
theorem blind_noticeExit (id : Pid) : Blind (fun k : Kernel H =>
    if (k.table.find? id).any (·.isExited) then
      ({ k with scheduler := k.scheduler.select none } : Kernel H).recordExit id .normal
    else k) k := by
  have exits := (blind_recordExit _ id .normal).comp (k.blind_select none)
  exact .ite (fun _ => Iff.rfl) exits (.of_same fun _ => rfl)

theorem blind_collect (id : Pid) : Blind (·.collect id) k := by
  -- The time is that of `k`, which is the same under all records.
  have recorded (given : List String × Kernel H) : Blind (fun given : List String × Kernel H =>
      { given.2 with
        scheduler := given.2.scheduler.recordAll
          (given.1.map fun text => .output id text k.now) }) given :=
    ⟨⟨[], [], given.1.map fun text => .output id text k.now⟩, fun _ => rfl⟩
  have applied := k.blind_table (k.table.blind_applyEffects id)
  exact (blind_noticeExit _ id).comp ((recorded _).comp applied)

theorem blind_fail (p : Process H) (fault : Fault) : Blind (·.fail p fault) k := by
  have noted := k.blind_note (.of .error p.id k.now fault.message [
    ("pc", Text.decimal p.cpu.programCounter),
    ("instruction", (p.cpu.current?.map fun instruction => instruction.text).getD "")])
  exact ((blind_terminate _ p.id .failed).comp noted).snd

theorem blind_execute [SyscallHandler H] : Blind execute k := by
  unfold Blind execute
  simp only [current_recording, find?_recording]
  cases k.scheduler.current with
  | none => exact (Blind.refl k).pair false
  | some held =>
      dsimp only
      cases k.table.find? held with
      | none => exact (k.blind_select none).pair false
      | some p =>
          dsimp only
          split
          · rcases p.cpu.step with ⟨fault | executed, cpu⟩
            · exact (k.blind_fail p fault).pair false
            · have updated := k.table.blind_update held (·.withCpu cpu)
              have stepped := (k.blind_table (updated.pair ())).snd
              exact ((blind_collect _ held).comp stepped).pair executed
          · exact (Blind.refl k).pair false

theorem blind_tick [SyscallHandler H] : Blind tick k := by
  have executed (given : Option Pid × Kernel H) : Blind (fun given : Option Pid × Kernel H =>
      ((given.1, given.2.execute.1), given.2.execute.2)) given :=
    given.2.blind_execute.answer (Prod.mk given.1)
  exact (executed _).comp ((blind_schedule _).comp k.blind_advance)

end Operations

/-! ## Operations and what is done to the records between them -/

inductive Answer where
  | none
  | created (process : Except LoadError Pid)
  | selected (process : Option Pid)
  | done (whether : Bool)
  | supplied (taken : Except Fault Bool)
  | texts (texts : List String)

structure Response where
  answer : Answer
  events : List Event

/-- What can be done to the records alone. Draining them is clearing them, for the kernel. -/
inductive Upkeep where
  | clearAudit
  | clearTableLog
  | clearSchedulerLog
  | setTableLevel (minimum : Log.Level)
  | setSchedulerLevel (minimum : Log.Level)

def tend (k : Kernel H) : Upkeep → Kernel H
  | .clearAudit => { k with scheduler := k.scheduler.withoutAudit }
  | .clearTableLog => { k with table := k.table.withoutLog }
  | .clearSchedulerLog => { k with scheduler := k.scheduler.withoutLog }
  | .setTableLevel minimum => { k with table := k.table.logAt minimum }
  | .setSchedulerLevel minimum => { k with scheduler := k.scheduler.logAt minimum }

theorem tend_eq_recording (k : Kernel H) (upkeep : Upkeep) :
    ∃ r : Records, k.tend upkeep = recording k r := by
  cases upkeep with
  | clearAudit => exact ⟨⟨k.table.log, k.scheduler.log, []⟩, rfl⟩
  | clearTableLog => exact ⟨⟨k.table.log.cleared, k.scheduler.log, k.scheduler.audit⟩, rfl⟩
  | clearSchedulerLog => exact ⟨⟨k.table.log, k.scheduler.log.cleared, k.scheduler.audit⟩, rfl⟩
  | setTableLevel minimum =>
      exact ⟨⟨{ k.table.log with minimum }, k.scheduler.log, k.scheduler.audit⟩, rfl⟩
  | setSchedulerLevel minimum =>
      exact ⟨⟨k.table.log, { k.scheduler.log with minimum }, k.scheduler.audit⟩, rfl⟩

section Responses

variable [SyscallHandler H] (k : Kernel H)

def answer : Operation H → Answer
  | .create name source arrivalTime schedulingClass priority =>
      .created (k.table.create name source arrivalTime schedulingClass priority).1
  | .setHandler id handler => .done (k.table.setHandler id handler).1
  | .schedule => .selected k.schedule.1
  | .execute => .done k.execute.1
  | .block id duration => .done (k.table.block id duration).1
  | .terminateUnrecorded id => .done (k.table.terminate id).1
  | .terminate id reason => .done (k.terminate id reason).1
  | .supply id text => .supplied (k.table.supply id text).1
  | .applyEffects id => .texts (k.table.applyEffects id).1
  | _ => .none

def respond (operation : Operation H) : Response where
  answer := k.answer operation
  events := (k.perform operation).scheduler.audit.drop k.scheduler.audit.length

def act (k : Kernel H) : Operation H ⊕ Upkeep → Kernel H
  | .inl operation => k.perform operation
  | .inr upkeep => k.tend upkeep

def actAll (calls : List (Operation H ⊕ Upkeep)) : Kernel H := calls.foldl act k

def responses : Kernel H → List (Operation H ⊕ Upkeep) → List Response
  | _, [] => []
  | k, .inl operation :: rest => k.respond operation :: responses (k.perform operation) rest
  | k, .inr upkeep :: rest => responses (k.tend upkeep) rest

variable {k} in
/-- A blind operation responds the same under all records. -/
theorem respond_of_blind {operation : Operation H}
    (h : Blind (fun k => (k.answer operation, k.perform operation)) k) (r : Records) :
    (recording k r).respond operation = k.respond operation ∧
      ∃ r' : Records, (recording k r).perform operation = recording (k.perform operation) r' := by
  have answered : (recording k r).answer operation = k.answer operation := h.fst r
  obtain ⟨w, written⟩ := h
  have audit (r : Records) :
      ((recording k r).perform operation).scheduler.audit = r.audit ++ w.audit :=
    congrArg (fun result : Answer × Kernel H => result.2.scheduler.audit) (written r)
  have own : (k.perform operation).scheduler.audit = k.scheduler.audit ++ w.audit :=
    audit ⟨k.table.log, k.scheduler.log, k.scheduler.audit⟩
  have before : (recording k r).scheduler.audit = r.audit := rfl
  refine ⟨?_, write r w, congrArg Prod.snd (written r)⟩
  simp only [respond, answered, audit r, own, before, List.drop_left]

theorem respond_recording (operation : Operation H) (r : Records) :
    (recording k r).respond operation = k.respond operation ∧
      ∃ r' : Records, (recording k r).perform operation = recording (k.perform operation) r' := by
  -- What leaves the audit alone records no events, and neither does clearing it.
  have kept : r.audit.drop r.audit.length = k.scheduler.audit.drop k.scheduler.audit.length := by
    rw [List.drop_length, List.drop_length]
  cases operation with
  | create name source arrivalTime schedulingClass priority =>
      have created := k.table.blind_create name source arrivalTime schedulingClass priority
      exact respond_of_blind ((k.blind_table created).answer Answer.created) r
  | setHandler id handler =>
      have installed := k.table.blind_setHandler id handler
      exact respond_of_blind ((k.blind_table installed).answer Answer.done) r
  | advance => exact respond_of_blind (k.blind_advance.pair Answer.none) r
  | schedule => exact respond_of_blind (k.blind_schedule.answer Answer.selected) r
  | execute => exact respond_of_blind (k.blind_execute.answer Answer.done) r
  | block id duration =>
      have blocked := k.table.blind_block id duration
      exact respond_of_blind ((k.blind_table blocked).answer Answer.done) r
  | terminateUnrecorded id =>
      have ended := k.table.blind_terminate id
      exact respond_of_blind ((k.blind_table ended).answer Answer.done) r
  | terminate id reason =>
      exact respond_of_blind ((k.blind_terminate id reason).answer Answer.done) r
  | supply id text =>
      have supplied := k.table.blind_supply id text
      exact respond_of_blind ((k.blind_table supplied).answer Answer.supplied) r
  | applyEffects id =>
      have applied := k.table.blind_applyEffects id
      exact respond_of_blind ((k.blind_table applied).answer Answer.texts) r
  | setQuantum quantum =>
      have set : Blind (·.setQuantum quantum) k := .of_same fun _ => rfl
      exact respond_of_blind (set.pair Answer.none) r
  | replaceCpu id cpu =>
      have replaced := k.table.blind_update id (·.withCpu cpu)
      exact respond_of_blind ((k.blind_table (replaced.pair ())).answer fun _ => Answer.none) r
  | replaceTableLog log =>
      exact ⟨congrArg (Response.mk .none) kept, ⟨log, r.scheduler, r.audit⟩, rfl⟩
  | replaceSchedulerLog log =>
      exact ⟨congrArg (Response.mk .none) kept, ⟨r.table, log, r.audit⟩, rfl⟩
  | clearAudit =>
      have cleared : ([] : List Event).drop r.audit.length = [].drop k.scheduler.audit.length := by
        rw [List.drop_nil, List.drop_nil]
      exact ⟨congrArg (Response.mk .none) cleared, ⟨r.table, r.scheduler, []⟩, rfl⟩
  | reset =>
      exact ⟨congrArg (Response.mk .none) kept,
        ⟨.keeping r.table.minimum, r.scheduler, r.audit⟩, rfl⟩

/-- Whatever is done to the records before and between operations, they leave the same kernel, but
for its records, and respond the same. -/
theorem actAll_recording (calls : List (Operation H ⊕ Upkeep)) (r : Records) :
    (∃ r' : Records, (recording k r).actAll calls =
        recording (k.performAll (calls.filterMap Sum.getLeft?)) r') ∧
      (recording k r).responses calls =
        k.responses ((calls.filterMap Sum.getLeft?).map .inl) := by
  induction calls generalizing k r with
  | nil => exact ⟨⟨r, rfl⟩, rfl⟩
  | cons call rest ih =>
      cases call with
      | inl operation =>
          obtain ⟨responded, r', performed⟩ := k.respond_recording operation r
          obtain ⟨left, responses⟩ := ih (k.perform operation) r'
          rw [← performed] at left responses
          exact ⟨left, congrArg₂ List.cons responded responses⟩
      | inr upkeep =>
          obtain ⟨r', tended⟩ := (recording k r).tend_eq_recording upkeep
          have tended : (recording k r).tend upkeep = recording k r' := tended
          obtain ⟨left, responses⟩ := ih k r'
          rw [← tended] at left responses
          exact ⟨left, responses⟩

end Responses

end Kernel

end Timeslice
