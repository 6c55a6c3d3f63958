import Timeslice.CommandLine
import Timeslice.Proofs.Process.Table

/-! # The texts of programs

Once a program is loaded its text has no further use: a simulation whose processes have lost the
texts of their programs prints what the simulation prints that still has them. Each operation does
the same and leaves the same behind whether the texts are erased before it or after it.
-/

namespace Timeslice

variable {H : Type}

/-! ## The table -/

def Process.erase (p : Process H) : Process H := { p with source := "" }

theorem Process.elapse_erase (p : Process H) (now : Nat) :
    p.erase.elapse now = (p.elapse now).erase := by
  have origin := p.origin_elapse now
  have id : (p.elapse now).id = p.id := id_eq_of_origin origin
  have name : (p.elapse now).name = p.name := congrArg Origin.name origin
  refine (p.elapse_with p.id p.name "" now).trans ?_
  rw [erase, ← id, ← name]

namespace ProcessTable

variable (table : ProcessTable H)

def erase : ProcessTable H := table.mapped Process.erase

theorem filter_erase {f : Process H → Bool} (blind : ∀ p, f p.erase = f p) :
    table.erase.processes.filter f = (table.processes.filter f).map Process.erase := by
  rw [erase, mapped, List.filter_map]
  exact congrArg (fun f => (table.processes.filter f).map Process.erase) (funext blind)

theorem first_erase {f : Process H → Bool} (blind : ∀ p, f p.erase = f p) :
    table.erase.processes.find? f = (table.processes.find? f).map Process.erase := by
  rw [erase, mapped, List.find?_map]
  exact congrArg (fun f => (table.processes.find? f).map Process.erase) (funext blind)

@[simp] theorem find?_erase (process : Pid) :
    table.erase.find? process = (table.find? process).map Process.erase :=
  table.first_erase fun _ => rfl

@[simp] theorem running?_erase : table.erase.running? = table.running?.map Process.erase :=
  table.first_erase fun _ => rfl

@[simp] theorem ready_erase : table.erase.ready = table.ready.map Process.erase :=
  table.filter_erase fun _ => rfl

@[simp] theorem isIdle_erase : table.erase.isIdle = table.isIdle := List.all_map

@[simp] theorem reports_erase : table.erase.reports = table.reports := by
  rw [reports, erase, mapped, List.map_map]
  rfl

@[simp] theorem now_erase : table.erase.now = table.now := rfl

@[simp] theorem erase_erase : table.erase.erase = table.erase := by
  simp only [erase, mapped, List.map_map]
  rfl

theorem update_erase (process : Pid) {f : Process H → Process H}
    (blind : ∀ p, f p.erase = (f p).erase) :
    table.erase.update process f = (table.update process f).erase := by
  simp only [update, erase, mapped, List.map_map]
  refine congrArg (ProcessTable.mk · table.nextId table.clock table.log)
    (List.map_congr_left fun p _ => ?_)
  show (if p.id = process then f p.erase else p.erase) =
    (if p.id = process then f p else p).erase
  rw [blind, apply_ite Process.erase]

theorem advance_erase : table.erase.advance = table.advance.erase := by
  have elapsed (now : Nat) : table.erase.processes.map (·.elapse now) =
      (table.processes.map (·.elapse now)).map Process.erase := by
    rw [erase, mapped, List.map_map, List.map_map]
    exact List.map_congr_left fun p _ => p.elapse_erase now
  have entries {f : Process H → Bool} (blind : ∀ p, f p.erase = f p) (now : Nat)
      (message : String) : (table.erase.processes.filter f).map
        (fun p => Log.Entry.of .info p.id now message []) =
      (table.processes.filter f).map fun p => Log.Entry.of .info p.id now message [] := by
    rw [table.filter_erase blind, List.map_map]
    rfl
  have clock : table.erase.clock = table.clock := rfl
  simp only [advance, elapsed, clock]
  rw [entries fun _ => rfl, entries fun _ => rfl]
  rfl

theorem block_erase (process : Pid) (duration : Nat) :
    table.erase.block process duration = (table.block process duration).map id erase := by
  have blocked := table.update_erase process (f := (·.block table.now duration)) fun _ => rfl
  have running (p : Process H) : p.erase.isRunning = p.isRunning := rfl
  simp only [block, find?_erase]
  cases table.find? process with
  | none => rfl
  | some p =>
      simp only [Option.map_some, running, now_erase, blocked]
      split <;> rfl

theorem terminate_erase (process : Pid) :
    table.erase.terminate process = (table.terminate process).map id erase := by
  have ended := table.update_erase process (f := (·.terminate)) fun _ => rfl
  simp only [terminate, find?_erase]
  cases table.find? process with
  | none => rfl
  | some p =>
      simp only [Option.map_some, ended]
      rfl

theorem apply_erase (process : Pid) (effect : Effect) :
    apply process table.erase effect = (apply process table effect).erase := by
  cases effect with
  | exit => exact congrArg Prod.snd (table.terminate_erase process)
  | block ticks => exact congrArg Prod.snd (table.block_erase process ticks)
  | output text => rfl

theorem applyEffects_erase (process : Pid) :
    table.erase.applyEffects process = (table.applyEffects process).map id erase := by
  have applied (effects : List Effect) (table : ProcessTable H) :
      effects.foldl (apply process) table.erase = (effects.foldl (apply process) table).erase := by
    induction effects generalizing table with
    | nil => rfl
    | cons effect rest ih => rw [List.foldl_cons, List.foldl_cons, apply_erase, ih]
  have taken := table.update_erase process (f := fun p => p.withCpu p.cpu.withoutEffects)
    fun _ => rfl
  have cpu (p : Process H) : p.erase.cpu = p.cpu := rfl
  simp only [applyEffects, find?_erase]
  cases table.find? process with
  | none => rfl
  | some p =>
      simp only [Option.map_some, cpu, taken, applied]
      rfl

theorem setHandler_erase (process : Pid) (handler : H) :
    table.erase.setHandler process handler = (table.setHandler process handler).map id erase := by
  have handled := table.update_erase process
    (f := fun p => p.withCpu { p.cpu with handler := some handler }) fun _ => rfl
  simp only [setHandler, find?_erase, Option.isSome_map, handled]
  rfl

theorem supply_erase [SyscallHandler H] (process : Pid) (text : String) :
    table.erase.supply process text = (table.supply process text).map id erase := by
  have cpu (p : Process H) : p.erase.cpu = p.cpu := rfl
  simp only [supply, find?_erase]
  cases table.find? process with
  | none => rfl
  | some p =>
      simp only [Option.map_some, cpu]
      rcases p.cpu.supply text with ⟨fault | _ | _, cpu⟩
      · rfl
      · rfl
      · have given := table.update_erase process (f := (·.withCpu cpu)) fun _ => rfl
        simp only [given]
        rfl

end ProcessTable

/-! ## The kernel -/

namespace Kernel

variable (k : Kernel H)

def erase : Kernel H := { k with table := k.table.erase }

@[simp] theorem table_erase : k.erase.table = k.table.erase := rfl

@[simp] theorem scheduler_erase : k.erase.scheduler = k.scheduler := rfl

theorem advance_erase : k.erase.advance = k.advance.erase :=
  congrArg (Kernel.mk · k.scheduler) k.table.advance_erase

theorem preempt_erase (process : Pid) (reason : Preemption) :
    k.erase.preempt process reason = (k.preempt process reason).erase := by
  have sent := k.table.update_erase process (f := (·.sendBack)) fun _ => rfl
  simp only [preempt, table_erase, sent]
  rfl

theorem dispatch_erase (p : Process H) : k.erase.dispatch p.erase = (k.dispatch p).erase := by
  have granted : k.erase.granted p.erase = k.granted p := rfl
  have dispatched := k.table.update_erase p.id (f := (·.dispatch (k.granted p))) fun _ => rfl
  have same : p.erase.id = p.id := rfl
  simp only [dispatch, granted, table_erase, same, dispatched]
  rfl

theorem minOn?_erase (ps : List (Process H)) :
    (ps.map Process.erase).minOn? (·.urgency) = (ps.minOn? (·.urgency)).map Process.erase := by
  cases ps with
  | nil => rfl
  | cons p ps =>
      have hom (p q : Process H) : minOn Process.urgency p.erase q.erase =
          (minOn Process.urgency p q).erase := (apply_ite Process.erase _ _ _).symm
      show some ((ps.map Process.erase).foldl (minOn Process.urgency) p.erase) =
        some (ps.foldl (minOn Process.urgency) p).erase
      rw [List.foldl_map, List.foldl_hom Process.erase fun p q => hom p q]

theorem choice?_erase : k.erase.choice? = k.choice?.map Process.erase := by
  have filtered {f : Process H → Bool} (blind : ∀ p, f p.erase = f p) :
      (k.table.ready.map Process.erase).filter f =
        (k.table.ready.filter f).map Process.erase := by
    rw [List.filter_map]
    exact congrArg (fun f => (k.table.ready.filter f).map Process.erase) (funext blind)
  simp only [choice?, table_erase, ProcessTable.ready_erase]
  rw [filtered (f := (·.isRealtime)) fun _ => rfl, filtered (f := (! ·.isRealtime)) fun _ => rfl,
    minOn?_erase, minOn?_erase]
  cases (k.table.ready.filter (·.isRealtime)).minOn? (·.urgency) <;> rfl

theorem settle_erase : k.erase.settle = k.settle.map id erase := by
  simp only [settle, table_erase, ProcessTable.running?_erase]
  cases k.table.running? with
  | none => rfl
  | some p =>
      have expired : (p.erase.isRealtime && decide (p.erase.quantumLeft ≤ 0)) =
          (p.isRealtime && decide (p.quantumLeft ≤ 0)) := rfl
      have same : p.erase.id = p.id := rfl
      simp only [Option.map_some, expired, same, preempt_erase]
      split <;> rfl

theorem dropStale_erase : k.erase.dropStale = k.dropStale.erase := by
  have state : Process.state ∘ Process.erase = Process.state (H := H) := rfl
  simp only [dropStale, scheduler_erase, table_erase, ProcessTable.find?_erase, Option.map_map,
    state]
  cases k.scheduler.current with
  | none => rfl
  | some process =>
      dsimp only
      cases (k.table.find? process).map Process.state with
      | none => rfl
      | some state => cases state <;> rfl

theorem fill_erase : k.erase.fill = k.fill.erase := by
  simp only [fill, scheduler_erase, choice?_erase]
  cases k.scheduler.current with
  | some process => rfl
  | none =>
      cases k.choice? with
      | none => rfl
      | some p => exact k.dispatch_erase p

theorem makeWay_erase : k.erase.makeWay = k.makeWay.map id erase := by
  have urgent (ps : List (Process H)) :
      (ps.map Process.erase).any (·.isRealtime) = ps.any (·.isRealtime) := List.any_map
  simp only [makeWay, scheduler_erase, table_erase, ProcessTable.find?_erase,
    ProcessTable.ready_erase, urgent, Option.any_map, preempt_erase]
  cases k.scheduler.current with
  | none => rfl
  | some process =>
      simp only
      rw [apply_ite (Prod.map id erase)]
      rfl

theorem pass_erase : k.erase.pass = k.pass.map id erase := by
  simp only [pass, settle_erase]
  rcases k.settle with ⟨_ | _, l⟩
  · show l.erase.dropStale.fill.makeWay = l.dropStale.fill.makeWay.map id erase
    rw [dropStale_erase, fill_erase, makeWay_erase]
  · rfl

theorem passes_erase (limit : Nat) : passes limit k.erase = (passes limit k).erase := by
  induction limit generalizing k with
  | zero => rfl
  | succ limit ih =>
      simp only [passes, pass_erase]
      rcases k.pass with ⟨_ | _, l⟩
      · rfl
      · exact ih l

theorem schedule_erase : k.erase.schedule = k.schedule.map id erase := by
  have length : k.erase.table.processes.length = k.table.processes.length := List.length_map _
  simp only [schedule, length, passes_erase]
  rfl

theorem terminate_erase (process : Pid) (reason : ExitCause) :
    k.erase.terminate process reason = (k.terminate process reason).map id erase := by
  simp only [terminate, table_erase, ProcessTable.terminate_erase]
  rcases k.table.terminate process with ⟨_ | _, table⟩ <;> rfl

theorem collect_erase (process : Pid) :
    k.erase.collect process = (k.collect process).erase := by
  have exited (p : Process H) : p.erase.isExited = p.isExited := rfl
  simp only [collect, table_erase, ProcessTable.applyEffects_erase, Prod.map_fst, Prod.map_snd,
    ProcessTable.find?_erase, Option.any_map, exited]
  rw [apply_ite erase]
  rfl

theorem fail_erase (p : Process H) (fault : Fault) :
    k.erase.fail p.erase fault = (k.fail p fault).erase := by
  have noted (entry : Log.Entry) :=
    terminate_erase { k with scheduler := k.scheduler.note entry } p.id .failed
  exact congrArg Prod.snd (noted _)

theorem execute_erase [SyscallHandler H] : k.erase.execute = k.execute.map id erase := by
  simp only [execute, scheduler_erase, table_erase, ProcessTable.find?_erase]
  cases k.scheduler.current with
  | none => rfl
  | some process =>
      dsimp only
      cases k.table.find? process with
      | none => rfl
      | some p =>
          have running : p.erase.isRunning = p.isRunning := rfl
          have cpu : p.erase.cpu = p.cpu := rfl
          simp only [Option.map_some, running, cpu]
          cases p.isRunning with
          | false => rfl
          | true =>
              rw [if_pos rfl, if_pos rfl]
              rcases p.cpu.step with ⟨fault | executed, cpu⟩
              · exact congrArg (Prod.mk false) (k.fail_erase p fault)
              · have stepped := k.table.update_erase process (f := (·.withCpu cpu)) fun _ => rfl
                have collected := collect_erase
                  { k with table := k.table.update process (·.withCpu cpu) } process
                simp only [stepped]
                exact congrArg (Prod.mk executed) collected

theorem tick_erase [SyscallHandler H] : k.erase.tick = k.tick.map id erase := by
  simp only [tick, advance_erase, schedule_erase, Prod.map_fst, Prod.map_snd, execute_erase]
  rfl

end Kernel

/-! ## The simulation -/

namespace Simulation

variable (s : Simulation)

def erase : Simulation := { s with kernel := s.kernel.erase }

theorem waiting?_erase : s.erase.waiting? = s.waiting?.map Process.erase :=
  s.kernel.table.first_erase fun _ => rfl

theorem ending?_erase : s.erase.ending? = s.ending? := by
  have idle : s.erase.kernel.table.isIdle = s.kernel.table.isIdle :=
    s.kernel.table.isIdle_erase
  have now : s.erase.now = s.now := rfl
  simp only [ending?, idle, waiting?_erase, Option.isSome_map, now]
  rfl

theorem report_erase : s.erase.report = s.report := by
  have reports : s.erase.kernel.table.reports = s.kernel.table.reports :=
    s.kernel.table.reports_erase
  simp only [report, ending?_erase, reports]
  rfl

theorem offer_erase (process : Pid) (input : String) :
    s.erase.offer process input = (s.offer process input).map id erase := by
  have supplied : s.erase.kernel.table.supply process input =
      (s.kernel.table.supply process input).map id ProcessTable.erase :=
    s.kernel.table.supply_erase process input
  simp only [offer, supplied]
  rcases s.kernel.table.supply process input with ⟨fault | _ | _, table⟩
  · rfl
  · rfl
  · have blocked (ticks : Nat) := (table.applyEffects process).2.block_erase process ticks
    simp only [Prod.map, id_eq, table.applyEffects_erase process, blocked]
    rfl

theorem deliver_erase : s.erase.deliver = s.deliver.map id erase := by
  have inputs : s.erase.inputs = s.inputs := rfl
  simp only [deliver, waiting?_erase, inputs]
  cases s.waiting? with
  | none => rfl
  | some p =>
      cases s.inputs with
      | nil => rfl
      | cons input inputs =>
          have offered := offer_erase { s with inputs } p.id input
          show ((Simulation.offer (erase { s with inputs }) p.id input).1.map (p.id, ·),
            (Simulation.offer (erase { s with inputs }) p.id input).2) = _
          rw [offered]
          rfl

theorem finishHalted_erase : s.erase.finishHalted = s.finishHalted.erase := by
  have running : s.erase.kernel.table.running? = s.kernel.table.running?.map Process.erase :=
    s.kernel.table.running?_erase
  simp only [finishHalted, running]
  cases s.kernel.table.running? with
  | none => rfl
  | some p =>
      have halted : (p.erase.cpu.isHalted && !p.erase.cpu.waitingForInput) =
          (p.cpu.isHalted && !p.cpu.waitingForInput) := rfl
      have ended : s.erase.kernel.terminate p.erase.id .normal =
          (s.kernel.terminate p.id .normal).map id Kernel.erase :=
        s.kernel.terminate_erase p.id .normal
      simp only [Option.map_some, halted, ended]
      rw [apply_ite erase]
      rfl

theorem conclude_erase (selected : Option Pid) (fromInput : List (Pid × String)) :
    s.erase.conclude selected fromInput = (s.conclude selected fromInput).map id erase := rfl

theorem step_erase : s.erase.step = s.step.map id erase := by
  have ticked (s : Simulation) : s.erase.kernel.tick = s.kernel.tick.map id Kernel.erase :=
    s.kernel.tick_erase
  simp only [step, deliver_erase, Prod.map_fst, Prod.map_snd, ticked]
  refine Eq.trans ?_ (conclude_erase _ _ _)
  rw [← finishHalted_erase]
  rfl

theorem foldTicks_erase {σ : Type} (onTick : σ → TickRecord → σ) (limit : Nat) (acc : σ) :
    foldTicks onTick limit acc s.erase = (foldTicks onTick limit acc s).map id erase := by
  induction limit generalizing s acc with
  | zero => rfl
  | succ limit ih =>
      simp only [foldTicks, ending?_erase, step_erase]
      cases s.ending? with
      | some ending => rfl
      | none => exact ih s.step.2 _

/-- A run shows nothing of the texts of programs. -/
theorem runWith_erase {σ : Type} (onTick : σ → TickRecord → σ) (acc : σ) :
    s.erase.runWith onTick acc = (s.runWith onTick acc).map id (Prod.map id erase) := by
  have bound : s.erase.maxTicks - s.erase.now = s.maxTicks - s.now := rfl
  simp only [runWith, bound, foldTicks_erase, Prod.map_fst, Prod.map_snd, report_erase]
  rfl

end Simulation

/-! ## The start -/

/-- What a simulation goes by in a specification: its program, and not the text of it. -/
structure ProcessSpec.Gist where
  name : String
  arrivalTime : Nat
  schedulingClass : SchedulingClass
  priority : Priority
  program : Except SetupError (Except LoadError Program)

def ProcessSpec.gist (spec : ProcessSpec) : Gist :=
  ⟨spec.name, spec.arrivalTime, spec.schedulingClass, spec.priority,
    spec.source.map Program.parse⟩

/-- Two results that come to the same are one error, or values that come to the same. -/
theorem cases_of_map_eq {ε α β γ : Type} {f : α → γ} {g : β → γ} {x : Except ε α} {y : Except ε β}
    (same : x.map f = y.map g) :
    (∃ e, x = .error e ∧ y = .error e) ∨ ∃ a b, x = .ok a ∧ y = .ok b ∧ f a = g b := by
  cases x with
  | error e =>
      cases y with
      | error e' =>
          cases same
          exact .inl ⟨e, rfl, rfl⟩
      | ok b => cases same
  | ok a =>
      cases y with
      | error e' => cases same
      | ok b => exact .inr ⟨a, b, rfl, rfl, Except.ok.inj same⟩

theorem ProcessTable.create_erase (table : ProcessTable H) (name : String)
    {source source' : String} (same : Program.parse source = Program.parse source')
    (arrivalTime : Nat) (schedulingClass : SchedulingClass) (priority : Priority) :
    (table.create name source arrivalTime schedulingClass priority).map id erase =
      (table.erase.create name source' arrivalTime schedulingClass priority).map id erase := by
  have nextId : table.erase.nextId = table.nextId := rfl
  have grown (p q : Process H) (same : p.erase = q.erase) :
      erase { table with processes := table.processes ++ [p] } =
        erase { table.erase with processes := table.erase.processes ++ [q] } := by
    simp only [erase, mapped, List.map_append, List.map_map, List.map_singleton, same]
    rfl
  simp only [create, Process.create, same, nextId]
  cases Program.parse source' with
  | error reason => exact congrArg (Prod.mk (Except.error reason)) table.erase_erase.symm
  | ok program =>
      refine congrArg (fun grown : ProcessTable H => (Except.ok table.nextId,
        ({ grown with nextId := table.nextId.next } : ProcessTable H).note .info table.nextId
          "process created" [
            ("name", name),
            ("class", schedulingClass.name),
            ("priority", Text.decimal priority.level),
            ("arrival", Text.decimal arrivalTime)])) (grown _ _ ?_)
      rfl

namespace Simulation

theorem addProcess_erase (range : BlockRange) (k : Kernel Services) {a b : ProcessSpec}
    (same : a.gist = b.gist) (index : Nat) :
    (addProcess range k a index).map Kernel.erase =
      (addProcess range k.erase b index).map Kernel.erase := by
  have name : a.name = b.name := congrArg ProcessSpec.Gist.name same
  have arrivalTime : a.arrivalTime = b.arrivalTime := congrArg ProcessSpec.Gist.arrivalTime same
  have schedulingClass : a.schedulingClass = b.schedulingClass :=
    congrArg ProcessSpec.Gist.schedulingClass same
  have priority : a.priority = b.priority := congrArg ProcessSpec.Gist.priority same
  have program : a.source.map Program.parse = b.source.map Program.parse :=
    congrArg ProcessSpec.Gist.program same
  unfold addProcess
  rcases cases_of_map_eq program with ⟨e, left, right⟩ | ⟨source, source', left, right, parsed⟩
  · rw [left, right]
    rfl
  · rw [left, right, name, arrivalTime, schedulingClass, priority]
    have created := k.table.create_erase b.name parsed b.arrivalTime b.schedulingClass b.priority
    have table : k.erase.table = k.table.erase := rfl
    simp only [bind, Except.bind, table]
    generalize k.table.create b.name source b.arrivalTime b.schedulingClass b.priority = one
      at created ⊢
    generalize k.table.erase.create b.name source' b.arrivalTime b.schedulingClass b.priority =
      other at created ⊢
    obtain ⟨answer, grown⟩ := one
    obtain ⟨answer', grown'⟩ := other
    obtain ⟨answers, tables⟩ := Prod.mk.inj created
    cases answers
    cases answer with
    | error reason => rfl
    | ok process =>
        have handled (table : ProcessTable Services) :
            (table.setHandler process ⟨.of range index⟩).2.erase =
              (table.erase.setHandler process ⟨.of range index⟩).2 :=
          congrArg Prod.snd (table.setHandler_erase process ⟨.of range index⟩).symm
        refine congrArg (fun table => Except.ok (Kernel.mk table k.scheduler)) ?_
        rw [handled, handled, tables]

theorem addAll_erase (range : BlockRange) {k l : Kernel Services} (kernels : k.erase = l.erase)
    {specs specs' : List ProcessSpec}
    (same : specs.map ProcessSpec.gist = specs'.map ProcessSpec.gist) (index : Nat) :
    ((specs.zipIdx index).foldlM
        (fun kernel entry => addProcess range kernel entry.1 entry.2) k).map Kernel.erase =
      ((specs'.zipIdx index).foldlM
        (fun kernel entry => addProcess range kernel entry.1 entry.2) l).map Kernel.erase := by
  induction specs generalizing specs' k l index with
  | nil =>
      cases List.map_eq_nil_iff.1 same.symm
      exact congrArg Except.ok kernels
  | cons a rest ih =>
      obtain ⟨b, rest', rfl, first, others⟩ := List.map_eq_cons_iff.1 same.symm
      have added : (addProcess range k a index).map Kernel.erase =
          (addProcess range l b index).map Kernel.erase := by
        rw [addProcess_erase range k first.symm, kernels, ← addProcess_erase range l rfl]
      simp only [List.zipIdx_cons, List.foldlM_cons]
      rcases cases_of_map_eq added with ⟨e, left, right⟩ | ⟨k', l', left, right, kernels'⟩
      · rw [left, right]
        rfl
      · rw [left, right]
        exact ih kernels' others.symm (index + 1)

/-- Scenarios that differ in the texts of programs alone start alike. -/
theorem create_erase (scenario : Scenario) {specs specs' : List ProcessSpec}
    (same : specs.map ProcessSpec.gist = specs'.map ProcessSpec.gist) :
    (create { scenario with processes := specs }).map erase =
      (create { scenario with processes := specs' }).map erase := by
  have added := addAll_erase scenario.blockTicks
    (k := (Kernel.empty scenario.logLevel).setQuantum scenario.quantum) rfl same 0
  simp only [create]
  rcases cases_of_map_eq added with ⟨e, left, right⟩ | ⟨k, l, left, right, kernels⟩
  · rw [left, right]
  · rw [left, right]
    exact congrArg (fun kernel => Except.ok (Simulation.mk scenario.maxTicks kernel
      scenario.inputs (.of scenario.blockTicks 0) (.keeping scenario.logLevel) [])) kernels

end Simulation

theorem CommandLine.simulate_erase (s : Simulation) (json : Bool) :
    simulate s.erase json = simulate s json := by
  simp only [simulate, s.runWith_erase]
  rfl

end Timeslice
