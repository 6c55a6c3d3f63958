import Timeslice.Proofs.Kernel.Accounting
import Timeslice.Proofs.Kernel.Containment
import Timeslice.Proofs.Machine.Stimuli

/-! # Effects from request to application

Effects are queued at the processor of the process that asks for them, and are applied when the
kernel is told to, or when it has executed an instruction. An application takes the whole queue. It
obeys an exit wherever that stands and a block only if it is the first, and over a run every effect
is taken once, in the order of the requests, or still in the queue.
-/

namespace Timeslice

variable {H : Type}

def Effect.firstBlock? (effects : List Effect) : Option Nat :=
  effects.findSome? fun
    | .block ticks => some ticks
    | _ => none

/-! ## The process that asked -/

namespace Process

/-- `p.Absorbs now q`: `q` is `p` after its effects have been applied at `now`. -/
structure Absorbs (now : Nat) (p q : Process H) : Prop where
  emptied : q.cpu.effects = []
  ended : .exit ∈ p.cpu.effects → q.state = .exit
  blocked : .exit ∉ p.cpu.effects → p.state = .running → ∀ ticks,
    Effect.firstBlock? p.cpu.effects = some ticks →
      q.state = .blocked ∧ q.blockEnd = Word.add now ticks
  spared : .exit ∉ p.cpu.effects →
    p.state ≠ .running ∨ Effect.firstBlock? p.cpu.effects = none →
      q.state = p.state ∧ q.blockEnd = p.blockEnd
  kept : ∃ state blockEnd cpu, q = { p with state, blockEnd, cpu } ∧
    cpu.freed = p.cpu.withoutEffects.freed

variable {p : Process H} {now : Nat} {effects : List Effect}

theorem exists_foldl_feel_eq (p : Process H) (now : Nat) (effects : List Effect) :
    ∃ state blockEnd cpu, effects.foldl (feel now) p = { p with state, blockEnd, cpu } := by
  induction effects generalizing p with
  | nil => exact ⟨_, _, _, rfl⟩
  | cons effect rest ih =>
      obtain ⟨state, blockEnd, cpu, same⟩ := ih (p.feel now effect)
      refine ⟨state, blockEnd, cpu, same.trans ?_⟩
      cases effect with
      | exit => rfl
      | block ticks =>
          simp only [feel]
          split <;> rfl
      | output text => rfl

/-- A process that does not run feels nothing but an exit. -/
theorem foldl_feel_of_idle (lasting : .exit ∉ effects) (idle : ¬ p.isRunning) :
    effects.foldl (feel now) p = p := by
  induction effects with
  | nil => rfl
  | cons effect rest ih =>
      have unfelt : p.feel now effect = p := by
        cases effect with
        | exit => exact (lasting List.mem_cons_self).elim
        | block ticks => exact if_neg idle
        | output text => rfl
      rw [List.foldl_cons, unfelt]
      apply ih
      intro later
      exact lasting (List.mem_cons_of_mem _ later)

/-- A process that runs feels the first block, and after that it does not run. -/
theorem foldl_feel_of_running (lasting : .exit ∉ effects) (running : p.isRunning) :
    effects.foldl (feel now) p = (Effect.firstBlock? effects).elim p (p.block now) := by
  induction effects with
  | nil => rfl
  | cons effect rest ih =>
      have lasting' : .exit ∉ rest := by
        intro later
        exact lasting (List.mem_cons_of_mem _ later)
      cases effect with
      | exit => exact (lasting List.mem_cons_self).elim
      | block ticks =>
          have felt : p.feel now (.block ticks) = p.block now ticks := if_pos running
          have idle : ¬ (p.block now ticks).isRunning := Bool.false_ne_true
          rw [List.foldl_cons, felt, foldl_feel_of_idle lasting' idle]
          rfl
      | output text => exact ih lasting'

theorem absorbs_absorb (p : Process H) (now : Nat) : p.Absorbs now (p.absorb now) where
  emptied := congrArg Cpu.effects (p.freed_absorb now)
  ended exit := by
    have exited : (p.absorb now).isExited := by
      rw [isExited_absorb, List.contains_iff_mem.2 exit, Bool.or_true]
    exact of_decide_eq_true exited
  blocked := by
    intro lasting state ticks first
    have running : (p.withCpu p.cpu.withoutEffects).isRunning := decide_eq_true state
    rw [absorb, foldl_feel_of_running lasting running, first]
    exact ⟨rfl, rfl⟩
  spared := by
    intro lasting unblocked
    by_cases state : p.state = .running
    · have running : (p.withCpu p.cpu.withoutEffects).isRunning := decide_eq_true state
      have none_asked := unblocked.resolve_left (not_not_intro state)
      rw [absorb, foldl_feel_of_running lasting running, none_asked]
      exact ⟨rfl, rfl⟩
    · have idle : ¬ (p.withCpu p.cpu.withoutEffects).isRunning := by
        intro running
        exact state (of_decide_eq_true running)
      rw [absorb, foldl_feel_of_idle lasting idle]
      exact ⟨rfl, rfl⟩
  kept := by
    have freed := p.freed_absorb now
    obtain ⟨state, blockEnd, cpu, same⟩ :=
      (p.withCpu p.cpu.withoutEffects).exists_foldl_feel_eq now p.cpu.effects
    rw [absorb, same] at freed
    exact ⟨state, blockEnd, cpu, same, freed⟩

theorem effects_only {id : Pid} {f : Process H → Process H}
    (same : (f p).cpu.effects = p.cpu.effects) :
    (only id f p).cpu.effects = p.cpu.effects := by
  unfold only
  split
  · exact same
  · rfl

end Process

/-! ## The table -/

namespace ProcessTable

/-- `table.Applies p texts after`: applying the effects of process `p` of the table gave the texts
and left `after`. -/
structure Applies (table : ProcessTable H) (p : Process H) (texts : List String)
    (after : ProcessTable H) : Prop where
  texts : texts = Effect.texts p.cpu.effects
  absorbed : ∃ q, after.find? p.id = some q ∧ p.Absorbs table.now q
  others : table.Spares (some p.id) after
  again : after.applyEffects p.id = ([], after)

variable {table : ProcessTable H} {p : Process H}

/-- Where no effects are left there is nothing to apply. -/
theorem Distinct.applyEffects_of_nil (h : table.Distinct) (hp : p ∈ table.processes)
    (clean : p.cpu.effects = []) : table.applyEffects p.id = ([], table) := by
  have same : table.update p.id (fun p => p.withCpu p.cpu.withoutEffects) = table := by
    apply mapped_eq_self
    intro q hq
    by_cases hid : q.id = p.id
    · rw [if_pos hid, h.eq_of_id hq hp hid]
      exact congrArg p.withCpu (Cpu.withoutEffects_of_nil clean)
    · exact if_neg hid
  simp only [applyEffects, h.find?_of_mem hp, clean, same, List.filterMap_nil, List.foldl_nil]

theorem Distinct.applies (h : table.Distinct) (hp : p ∈ table.processes) :
    table.Applies p (table.applyEffects p.id).1 (table.applyEffects p.id).2 := by
  have becomes := h.becomes_applyEffects p.id
  have found := h.find?_of_mem hp
  have absorbed : (table.applyEffects p.id).2.find? p.id = some (p.absorb table.now) := by
    rw [becomes.find?, found, Option.map_some, Process.only_of_eq _ rfl]
  have absorbs := p.absorbs_absorb table.now
  constructor
  case texts => exact texts_applyEffects found
  case absorbed => exact ⟨_, absorbed, absorbs⟩
  case others =>
    apply becomes.spares
    intro q hq other
    exact Process.only_of_ne _ fun same => other (congrArg some same.symm)
  case again =>
    have again := (becomes.distinct h).applyEffects_of_nil (mem_of_find? absorbed) absorbs.emptied
    rwa [find?_id absorbed] at again

end ProcessTable

/-! ## The kernel -/

namespace Operation

def stimulus? (operation : Operation H) (p : Process H) : Option Stimulus :=
  match operation with
  | execute => if p.isRunning then some .step else none
  | supply id text => if p.id = id then some (.input text) else none
  | _ => none

end Operation

namespace Kernel

variable [SyscallHandler H]

def requested (k : Kernel H) (id : Pid) (operation : Operation H) : List Effect :=
  match k.table.find? id with
  | none => []
  | some p => (operation.stimulus? p).elim [] p.cpu.requests

/-- The applications of effects in an operation: of which process, and in which table. -/
def applications (k : Kernel H) : Operation H → List (Pid × ProcessTable H)
  | .applyEffects id => [(id, k.table)]
  | .execute =>
    match k.table.running? with
    | none => []
    | some p =>
      match p.cpu.step with
      | (.ok _, cpu) => [(p.id, k.table.update p.id (·.withCpu cpu))]
      | (.error _, _) => []
  | _ => []

def taken (k : Kernel H) (id : Pid) (operation : Operation H) : List Effect :=
  (k.applications operation).flatMap fun given =>
    if given.1 = id then (given.2.find? id).elim [] (·.cpu.effects) else []

variable {k : Kernel H} {operation : Operation H} {p q : Process H}

theorem applications_of_idle (hr : k.table.running? = none) : k.applications .execute = [] := by
  simp only [applications, hr]

theorem applications_of_ok (hr : k.table.running? = some p) {executed : Bool} {cpu : Cpu H}
    (stepped : p.cpu.step = (.ok executed, cpu)) :
    k.applications .execute = [(p.id, k.table.update p.id (·.withCpu cpu))] := by
  simp only [applications, hr, stepped]

theorem applications_of_error (hr : k.table.running? = some p) {fault : Fault} {cpu : Cpu H}
    (failed : p.cpu.step = (.error fault, cpu)) : k.applications .execute = [] := by
  simp only [applications, hr, failed]

/-- What an operation does to the table, where it applies effects, is to apply them. -/
theorem Coherent.table_of_applications (h : k.Coherent) {given : Pid × ProcessTable H}
    (applied : given ∈ k.applications operation) :
    given.2.Distinct ∧ (k.perform operation).table = (given.2.applyEffects given.1).2 := by
  cases operation with
  | applyEffects id =>
      rw [List.mem_singleton.1 applied]
      exact ⟨h.distinct, rfl⟩
  | execute =>
      cases hr : k.table.running? with
      | none =>
          rw [applications_of_idle hr] at applied
          contradiction
      | some p =>
          obtain ⟨hp, running⟩ := h.running?_eq_some.1 hr
          rcases stepped : p.cpu.step with ⟨fault | executed, cpu⟩
          · rw [applications_of_error hr stepped] at applied
            contradiction
          · have stored := k.table.becomes_update p.id (f := (·.withCpu cpu)) fun _ => rfl
            have executed : (k.perform .execute).table =
                ((k.table.update p.id (·.withCpu cpu)).applyEffects p.id).2 := by
              simp only [Kernel.perform, Kernel.execute, h.selected p hp running,
                h.distinct.find?_of_mem hp, running, if_true, stepped]
              exact table_collect _ p.id
            rw [applications_of_ok hr stepped] at applied
            rw [List.mem_singleton.1 applied]
            exact ⟨stored.distinct h.distinct, executed⟩
  | _ => contradiction

/-! ## Nothing lost and nothing twice -/

/-- `k.Carries operation p q`: of the effects that process `p` had queued and those that its handler
asked for in the operation, the first were taken, and the others are those that `q` has queued. -/
def Carries (k : Kernel H) (operation : Operation H) (p q : Process H) : Prop :=
  p.cpu.effects ++ k.requested p.id operation = k.taken p.id operation ++ q.cpu.effects

namespace Coherent

section Operations

variable (h : k.Coherent) (hp : p ∈ k.table.processes)

include h hp

theorem requested_eq (operation : Operation H) :
    k.requested p.id operation = (operation.stimulus? p).elim [] p.cpu.requests := by
  simp only [requested, h.distinct.find?_of_mem hp]

/-- An operation that has nothing to do with the effects of a process carries them. -/
theorem carries_of_quiet (unasked : operation.stimulus? p = none)
    (untaken : k.taken p.id operation = []) (same : q.cpu.effects = p.cpu.effects) :
    k.Carries operation p q := by
  rw [Carries, h.requested_eq hp, unasked, untaken, same, Option.elim_none, List.append_nil,
    List.nil_append]

theorem carries_applyEffects : k.Carries (.applyEffects p.id) p (p.absorb k.now) := by
  have emptied : (p.absorb k.now).cpu.effects = [] := (p.absorbs_absorb k.now).emptied
  have taken : k.taken p.id (.applyEffects p.id) = p.cpu.effects := by
    simp only [Kernel.taken, applications, List.flatMap_cons, List.flatMap_nil, List.append_nil,
      if_true, h.distinct.find?_of_mem hp, Option.elim_some]
  have unasked : k.requested p.id (.applyEffects p.id) = [] := h.requested_eq hp _
  rw [Carries, unasked, taken, emptied]

theorem carries_supply (text : String) : k.Carries (.supply p.id text) p (p.receive text) := by
  have asked : k.requested p.id (.supply p.id text) = p.cpu.requests (.input text) := by
    rw [h.requested_eq hp, Operation.stimulus?, if_pos rfl, Option.elim_some]
  have queued : (p.receive text).cpu.effects = (p.cpu.supply text).2.effects := by
    have takes := p.cpu.takes_supply text
    rcases supplied : p.cpu.supply text with ⟨answer, cpu⟩
    rw [supplied] at takes
    cases takes <;> simp [Process.receive, supplied, Process.withCpu]
  rw [Carries, asked, queued, p.cpu.effects_supply]
  rfl

theorem carries_turn (running : p.isRunning) : k.Carries .execute p (p.turn k.now) := by
  have hr := h.running?_eq_some.2 ⟨hp, running⟩
  have asked : k.requested p.id .execute = p.cpu.requests .step := by
    rw [h.requested_eq hp, Operation.stimulus?, if_pos running, Option.elim_some]
  have queued := p.cpu.effects_step
  rcases stepped : p.cpu.step with ⟨fault | executed, cpu⟩
  · have steps := Cpu.steps_of_step stepped
    have untaken : k.taken p.id .execute = [] := by
      rw [Kernel.taken, applications_of_error hr stepped, List.flatMap_nil]
    have turned : p.turn k.now = p.terminate := by simp only [Process.turn, stepped]
    rw [stepped] at queued
    cases steps
    rw [Carries, asked, ← queued, untaken, turned]
    rfl
  · have stored := k.table.becomes_update p.id (f := (·.withCpu cpu)) fun _ => rfl
    have found : (k.table.update p.id (·.withCpu cpu)).find? p.id = some (p.withCpu cpu) := by
      rw [stored.find?, h.distinct.find?_of_mem hp, Option.map_some, Process.only_of_eq _ rfl]
    have taken : k.taken p.id .execute = cpu.effects := by
      simp only [Kernel.taken, applications_of_ok hr stepped, List.flatMap_cons, List.flatMap_nil,
        List.append_nil, if_true, found, Option.elim_some]
      rfl
    have turned : p.turn k.now = (p.withCpu cpu).absorb k.now := by
      simp only [Process.turn, stepped]
    have emptied := ((p.withCpu cpu).absorbs_absorb k.now).emptied
    rw [stepped] at queued
    rw [Carries, asked, ← queued, taken, turned, emptied, List.append_nil]

end Operations

theorem taken_of_other {id : Pid} (other : ∀ given ∈ k.applications operation, given.1 ≠ id) :
    k.taken id operation = [] := by
  apply List.flatMap_eq_nil_iff.2
  intro given member
  exact if_neg (other given member)

theorem carries_execute (h : k.Coherent) (hp : p ∈ k.table.processes) :
    k.Carries .execute p (if p.isRunning then p.turn k.now else p) := by
  by_cases running : p.isRunning
  · rw [if_pos running]
    exact h.carries_turn hp running
  · have unasked : Operation.stimulus? .execute p = none := if_neg running
    rw [if_neg running]
    apply h.carries_of_quiet hp unasked (taken_of_other ?_) rfl
    intro given member same
    cases hr : k.table.running? with
    | none =>
        rw [applications_of_idle hr] at member
        contradiction
    | some r =>
        obtain ⟨hr', running'⟩ := h.running?_eq_some.1 hr
        rcases stepped : r.cpu.step with ⟨fault | executed, cpu⟩
        · rw [applications_of_error hr stepped] at member
          contradiction
        · rw [applications_of_ok hr stepped] at member
          rw [List.mem_singleton.1 member] at same
          exact running (h.distinct.eq_of_id hr' hp same ▸ running')

/-- Every operation but a reset carries the effects of a process, unless it replaces processors. -/
theorem exists_carries (h : k.Coherent) (hp : p ∈ k.table.processes)
    (kept : ¬ operation.isReset) (unreplaced : ¬ operation.replaces) :
    ∃ q ∈ (k.perform operation).table.processes, q.id = p.id ∧ k.Carries operation p q := by
  have carried {f : Process H → Process H} (becomes : k.table.Becomes f (k.perform operation).table)
      (carries : k.Carries operation p (f p)) :
      ∃ q ∈ (k.perform operation).table.processes, q.id = p.id ∧ k.Carries operation p q := by
    exact ⟨f p, becomes.mem_of_mem hp, Process.id_eq_of_origin (becomes.origin p), carries⟩
  cases operation with
  | create name source arrivalTime schedulingClass priority =>
      obtain ⟨created, evolves⟩ :=
        k.exists_evolves_create name source arrivalTime schedulingClass priority
      exact ⟨p, evolves.mem_of_mem hp, rfl, h.carries_of_quiet hp rfl rfl rfl⟩
  | setHandler id handler =>
      apply carried (k.table.becomes_setHandler id handler)
      exact h.carries_of_quiet hp rfl rfl (Process.effects_only rfl)
  | advance =>
      have effects := congrArg Cpu.effects (p.freed_elapse k.advance.now)
      have member : p.elapse k.advance.now ∈ (k.perform .advance).table.processes :=
        List.mem_map_of_mem hp
      have same := Process.id_eq_of_origin (p.origin_elapse k.advance.now)
      exact ⟨_, member, same, h.carries_of_quiet hp rfl rfl effects⟩
  | schedule =>
      obtain ⟨f, becomes, cpu, -⟩ := h.becomes_schedule
      exact carried becomes (h.carries_of_quiet hp rfl rfl (congrArg Cpu.effects (cpu p)))
  | execute => exact carried h.becomes_execute (h.carries_execute hp)
  | block id duration =>
      have effects := congrArg Cpu.effects (p.freed_feel k.now (.block duration))
      apply carried (h.distinct.becomes_block id duration)
      exact h.carries_of_quiet hp rfl rfl (Process.effects_only effects)
  | terminateUnrecorded id =>
      apply carried (k.table.becomes_terminate id)
      exact h.carries_of_quiet hp rfl rfl (Process.effects_only rfl)
  | terminate id reason =>
      have becomes := k.table.becomes_terminate id
      rw [← k.table_terminate id reason] at becomes
      exact carried becomes (h.carries_of_quiet hp rfl rfl (Process.effects_only rfl))
  | supply id text =>
      apply carried (h.distinct.becomes_supply id text)
      by_cases hid : p.id = id
      · subst hid
        rw [Process.only_of_eq _ rfl]
        exact h.carries_supply hp text
      · have unasked : Operation.stimulus? (.supply id text) p = none := if_neg hid
        rw [Process.only_of_ne _ hid]
        exact h.carries_of_quiet hp unasked rfl rfl
  | applyEffects id =>
      apply carried (h.distinct.becomes_applyEffects id)
      by_cases hid : p.id = id
      · subst hid
        rw [Process.only_of_eq _ rfl]
        exact h.carries_applyEffects hp
      · rw [Process.only_of_ne _ hid]
        apply h.carries_of_quiet hp rfl (taken_of_other ?_) rfl
        intro given member
        rw [List.mem_singleton.1 member]
        exact Ne.symm hid
  | setQuantum quantum => exact ⟨p, hp, rfl, h.carries_of_quiet hp rfl rfl rfl⟩
  | replaceCpu id cpu => exact (unreplaced rfl).elim
  | replaceTableLog log => exact ⟨p, hp, rfl, h.carries_of_quiet hp rfl rfl rfl⟩
  | replaceSchedulerLog log => exact ⟨p, hp, rfl, h.carries_of_quiet hp rfl rfl rfl⟩
  | clearAudit => exact ⟨p, hp, rfl, h.carries_of_quiet hp rfl rfl rfl⟩
  | reset => exact (kept rfl).elim

/-- Over a run the effects that were queued and those asked for are the effects that were taken and
those still queued, in the same order. -/
theorem exists_effects_along (h : k.Coherent) (hp : p ∈ k.table.processes)
    {operations : List (Operation H)} (kept : ∀ operation ∈ operations, ¬ operation.isReset)
    (unreplaced : ∀ operation ∈ operations, ¬ operation.replaces) :
    ∃ q ∈ (k.performAll operations).table.processes, q.id = p.id ∧
      p.cpu.effects ++ k.along (·.requested p.id ·) operations =
        k.along (·.taken p.id ·) operations ++ q.cpu.effects := by
  induction operations generalizing k p with
  | nil => exact ⟨p, hp, rfl, List.append_nil p.cpu.effects⟩
  | cons operation rest ih =>
      obtain ⟨q, hq, same, carries⟩ := h.exists_carries hp (kept operation List.mem_cons_self)
        (unreplaced operation List.mem_cons_self)
      obtain ⟨r, hr, same', later⟩ := ih (h.perform operation) hq
        (fun next hn => kept next (List.mem_cons_of_mem _ hn))
        fun next hn => unreplaced next (List.mem_cons_of_mem _ hn)
      rw [same] at later
      refine ⟨r, hr, same'.trans same, ?_⟩
      calc p.cpu.effects ++ k.along (·.requested p.id ·) (operation :: rest)
          = (p.cpu.effects ++ k.requested p.id operation) ++
              (k.perform operation).along (·.requested p.id ·) rest :=
            (List.append_assoc _ _ _).symm
        _ = k.taken p.id operation ++
              (q.cpu.effects ++ (k.perform operation).along (·.requested p.id ·) rest) := by
            rw [carries, List.append_assoc]
        _ = k.along (·.taken p.id ·) (operation :: rest) ++ r.cpu.effects := by
            rw [later, along, List.append_assoc]

end Coherent

/-- Applying the effects of a process takes the whole queue: it gives the texts in their order, ends
the process for an exit anywhere, blocks it otherwise for the first block if it runs, and touches no
other process. Over a run that neither resets nor replaces a processor, what is asked for is taken
once and in order, or still queued. -/
theorem effects_applied_once (minimum : Log.Level) (before later : List (Operation H))
    (kept : ∀ operation ∈ later, ¬ operation.isReset)
    (unreplaced : ∀ operation ∈ later, ¬ operation.replaces) :
    let k := (empty minimum).performAll before
    let l := k.performAll later
    (∀ table : ProcessTable H, table.Distinct → ∀ p ∈ table.processes,
      table.Applies p (table.applyEffects p.id).1 (table.applyEffects p.id).2) ∧
    (∀ (cpu : Cpu H) (stimuli : List Stimulus),
      (cpu.after stimuli).effects = cpu.effects ++ cpu.requestsAll stimuli) ∧
    (k.table.Distinct ∧ ∀ operation : Operation H, ∀ given ∈ k.applications operation,
      given.2.Distinct ∧ (k.perform operation).table = (given.2.applyEffects given.1).2) ∧
    ∀ p ∈ k.table.processes, ∃ q ∈ l.table.processes, q.id = p.id ∧
      p.cpu.effects ++ k.along (·.requested p.id ·) later =
        k.along (·.taken p.id ·) later ++ q.cpu.effects := by
  intro k l
  have h : k.Coherent := coherent_performAll minimum before
  refine ⟨fun table distinct p hp => distinct.applies hp, fun cpu stimuli => ?_, ?_, ?_⟩
  · exact cpu.effects_after stimuli
  · exact ⟨h.distinct, fun operation given applied => h.table_of_applications applied⟩
  · exact fun p hp => h.exists_effects_along hp kept unreplaced

def queued : List (Operation Services) :=
  [.create "" "" 0 .realtime .high, .advance, .schedule,
    .replaceCpu 1 { (Cpu.load .empty : Cpu Services) with
      waitingForInput := true
      handler := some ⟨.standard⟩
      effects := [.output "a", .block 2, .block 5] }]

def drained : List (Operation Services) := [.supply 1 Cpu.sentinel, .applyEffects 1]

theorem effects_applied_once_queued :
    let k := (empty .info).performAll queued
    ∃ p ∈ k.table.processes, p.id = .first ∧ (k.table.applyEffects p.id).1 = ["a"] ∧
      (∃ q, (k.table.applyEffects p.id).2.find? p.id = some q ∧
        q.state = .blocked ∧ q.blockEnd = 3) ∧
      k.along (·.taken p.id ·) drained =
        [.output "a", .block 2, .block 5, .output Services.greeting] := by
  intro k
  have found : ∃ p ∈ k.table.processes, p.id = .first ∧ p.state = .running ∧
      p.cpu.effects = [.output "a", .block 2, .block 5] := by
    decide +kernel
  have now : k.table.now = 1 := by decide +kernel
  have asked : k.along (·.requested .first ·) drained = [.output Services.greeting] := by
    decide +kernel
  have left : ∀ q ∈ (k.performAll drained).table.processes, q.cpu.effects = [] := by
    decide +kernel
  obtain ⟨applies, -, ⟨distinct, -⟩, carried⟩ :=
    effects_applied_once .info queued drained (by decide) (by decide)
  obtain ⟨p, hp, first, state, effects⟩ := found
  have applied := applies k.table distinct p hp
  obtain ⟨q, absorbed, absorbs⟩ := applied.absorbed
  obtain ⟨r, hr, -, balance⟩ := carried p hp
  have blocked := absorbs.blocked (by rw [effects]; decide) state 2 (by rw [effects]; rfl)
  rw [now] at blocked
  rw [left r hr, List.append_nil, effects, first, asked] at balance
  refine ⟨p, hp, first, ?_, ⟨q, absorbed, blocked⟩, ?_⟩
  · rw [applied.texts, effects]
    rfl
  · rw [first]
    exact balance.symm

end Kernel

end Timeslice
