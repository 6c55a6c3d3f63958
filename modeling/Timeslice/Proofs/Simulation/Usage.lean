import Timeslice.Proofs.Kernel.Accounting
import Timeslice.Proofs.Kernel.Lifecycle
import Timeslice.Proofs.Kernel.Policy
import Timeslice.Proofs.Simulation.Steady

/-! # Use of the processor

A process is selected in one tick and charged for it at the start of the next. A tick in which it
leaves the processor by blocking or by its exit is therefore never charged, and neither is the last
one as yet. The number of ticks that selected a process is made up of these.
-/

namespace Timeslice

variable {H : Type}

namespace Process

/-- Whether what turned `p` into `q` took `p` from the processor by blocking or ending it. -/
def departs (p q : Process H) : Bool :=
  p.isRunning && (decide (q.state = .blocked) || decide (q.state = .exit))

theorem departs_iff {p q : Process H} :
    p.departs q ↔ p.state = .running ∧ (q.state = .blocked ∨ q.state = .exit) := by
  simp [departs, isRunning]

/-- `p.Yields q`: what turned `p` into `q` charged nothing to it, and changed its state by blocking
it on the processor or by ending it, if at all. -/
structure Yields (p q : Process H) : Prop where
  executionTime : q.executionTime = p.executionTime
  state : q.state = p.state ∨ q.state = .exit ∨ p.state = .running ∧ q.state = .blocked

namespace Yields

variable {p q r : Process H}

theorem refl (p : Process H) : p.Yields p := ⟨rfl, .inl rfl⟩

theorem trans (h : p.Yields q) (h' : q.Yields r) : p.Yields r where
  executionTime := h'.executionTime.trans h.executionTime
  state := by
    rcases h'.state with same | exit | ⟨running, blocked⟩
    · rw [same]
      exact h.state
    · exact .inr (.inl exit)
    · rcases h.state with same | exit | ⟨-, blocked'⟩
      · exact .inr (.inr ⟨same.symm.trans running, blocked⟩)
      · rw [exit] at running
        contradiction
      · rw [blocked'] at running
        contradiction

theorem withCpu (p : Process H) (cpu : Cpu H) : p.Yields (p.withCpu cpu) := ⟨rfl, .inl rfl⟩

theorem terminate (p : Process H) : p.Yields p.terminate := ⟨rfl, .inr (.inl rfl)⟩

theorem feel (p : Process H) (now : Nat) (effect : Effect) : p.Yields (p.feel now effect) := by
  cases effect with
  | exit => exact terminate p
  | block ticks =>
      simp only [Process.feel]
      split
      · rename_i running
        exact ⟨rfl, .inr (.inr ⟨of_decide_eq_true running, rfl⟩)⟩
      · exact refl p
  | output text => exact refl p

theorem foldl_feel (p : Process H) (now : Nat) (effects : List Effect) :
    p.Yields (effects.foldl (Process.feel now) p) := by
  induction effects generalizing p with
  | nil => exact refl p
  | cons effect rest ih => exact (feel p now effect).trans (ih (p.feel now effect))

theorem absorb (p : Process H) (now : Nat) : p.Yields (p.absorb now) :=
  (withCpu p p.cpu.withoutEffects).trans (foldl_feel _ now p.cpu.effects)

theorem close (p : Process H) : p.Yields p.close := by
  unfold Process.close
  split
  · exact terminate p
  · exact refl p

section Handled

variable [SyscallHandler H]

theorem turn (p : Process H) (now : Nat) : p.Yields (p.turn now) := by
  unfold Process.turn
  split
  · exact (withCpu p _).trans (absorb _ now)
  · exact terminate p

theorem intake (p : Process H) (now ticks : Nat) (text : String) :
    p.Yields (p.intake now ticks text) := by
  have received : p.Yields (p.receive text) := by
    unfold Process.receive
    split
    · exact withCpu p _
    · exact refl p
  exact (received.trans (absorb _ now)).trans (feel _ now (.block ticks))

end Handled

/-- A process that yields still runs, or departs if it ran. -/
theorem balance (h : p.Yields q) :
    p.isRunning.toNat = q.isRunning.toNat + (p.departs q).toNat := by
  rcases h.state with same | exit | ⟨running, blocked⟩
  · cases state : p.state <;> simp [departs, isRunning, same, state]
  · cases state : p.state <;> simp [departs, isRunning, exit, state]
  · simp [departs, isRunning, running, blocked]

end Yields

theorem not_departs_self (p : Process H) : ¬ p.departs p := by
  intro departs
  obtain ⟨running, blocked | exit⟩ := departs_iff.1 departs
  · exact absurd (running.symm.trans blocked) nofun
  · exact absurd (running.symm.trans exit) nofun

/-- Passing time leaves a process on the processor. -/
theorem not_departs_elapse (p : Process H) (now : Nat) : ¬ p.departs (p.elapse now) := by
  intro departs
  obtain ⟨state, left⟩ := departs_iff.1 departs
  have running : (p.elapse now).state = .running :=
    of_decide_eq_true ((p.isRunning_elapse now).trans (decide_eq_true state))
  simp [running] at left

end Process

namespace Kernel

def departs (k l : Kernel H) (id : Pid) : Bool :=
  (k.table.find? id).any fun p => (l.table.find? id).any p.departs

def departures (id : Pid) : List (Kernel H) → Nat
  | k :: l :: rest => (k.departs l id).toNat + departures id (l :: rest)
  | _ => 0

variable {k l : Kernel H} {p q : Process H}

/-- A process that departs, with what is known of all processes of the later kernel. -/
theorem exists_of_departs (hk : k.Coherent) {R : Process H → Process H → Prop}
    (back : ∀ q ∈ l.table.processes, ∃ p ∈ k.table.processes, q.id = p.id ∧ R p q) {id : Pid}
    (departs : k.departs l id) :
    ∃ p ∈ k.table.processes, ∃ q ∈ l.table.processes,
      p.id = id ∧ q.id = id ∧ p.departs q ∧ R p q := by
  obtain ⟨p, found, departs⟩ := (Option.any_eq_true _ _).1 departs
  obtain ⟨q, found', departs⟩ := (Option.any_eq_true _ _).1 departs
  have hp := ProcessTable.mem_of_find? found
  have hq := ProcessTable.mem_of_find? found'
  have hid := ProcessTable.find?_id found
  have hid' := ProcessTable.find?_id found'
  obtain ⟨r, hr, same, related⟩ := back q hq
  rw [hk.distinct.eq_of_id hr hp (same.symm.trans (hid'.trans hid.symm))] at related
  exact ⟨p, hp, q, hq, hid, hid', departs, related⟩

theorem departs_eq (hk : k.Coherent) (hl : l.Coherent) (hp : p ∈ k.table.processes)
    (hq : q ∈ l.table.processes) {id : Pid} (hid : p.id = id) (hid' : q.id = id) :
    k.departs l id = p.departs q := by
  have found := hk.distinct.find?_of_mem hp
  have found' := hl.distinct.find?_of_mem hq
  rw [hid] at found
  rw [hid'] at found'
  simp only [departs, found, found', Option.any_some]

end Kernel

namespace Simulation

/-! ## One tick -/

def phases (s : Simulation) : List (Kernel Services) :=
  [s.kernel, s.deliver.2.kernel, s.timed, s.poised, s.poised.execute.2, s.closed]

variable {s : Simulation} {p q : Process Services}

theorem exists_yields_deliver (h : s.kernel.Coherent)
    (hq : q ∈ s.deliver.2.kernel.table.processes) :
    ∃ p ∈ s.kernel.table.processes, q.id = p.id ∧ p.Yields q := by
  obtain ⟨p, hp, same, rfl | ⟨text, cpu, -, -, rfl⟩⟩ := exists_of_mem_deliver h hq
  · exact ⟨q, hp, same, .refl q⟩
  · exact ⟨p, hp, same, .intake p _ _ text⟩

/-- Choosing charges nothing, and whom it takes from the processor is ready again. -/
theorem exists_chosen (h : s.kernel.Coherent) (hq : q ∈ s.poised.table.processes) :
    ∃ p ∈ s.timed.table.processes, q.id = p.id ∧ q.executionTime = p.executionTime ∧
      ¬ p.departs q := by
  obtain ⟨f, evolves⟩ := (coherent_deliver h).advance.exists_evolves_schedule
  have processes : s.poised.table.processes = s.timed.table.processes.map f := by
    have mapped := evolves.processes
    rwa [Option.toList_none, List.append_nil] at mapped
  rw [processes] at hq
  obtain ⟨p, hp, rfl⟩ := List.mem_map.1 hq
  have change := evolves.change p hp
  refine ⟨p, hp, Process.id_eq_of_origin (evolves.origin p), (change.counters nofun).2, ?_⟩
  intro departs
  obtain ⟨running, left⟩ := Process.departs_iff.1 departs
  have moves := change.moves
  rw [running] at moves
  generalize (f p).state = state at moves left
  cases moves with
  | stays _ => simp at left
  | sentBack _ => simp at left
  | blocked may => contradiction
  | ended may _ => contradiction

theorem exists_yields_execute (h : s.kernel.Coherent)
    (hq : q ∈ s.poised.execute.2.table.processes) :
    ∃ p ∈ s.poised.table.processes, q.id = p.id ∧ p.Yields q := by
  obtain ⟨p, hp, same, rfl⟩ := (coherent_poised h).becomes_execute.exists_of_mem hq
  refine ⟨p, hp, same, ?_⟩
  split
  · exact .turn p _
  · exact .refl p

/-- Passing time charges the process on the processor, and leaves it there. -/
theorem exists_timed (hq : q ∈ s.timed.table.processes) :
    ∃ p ∈ s.deliver.2.kernel.table.processes, q.id = p.id ∧
      q.executionTime = p.executionTime + p.isRunning.toNat ∧ ¬ p.departs q := by
  obtain ⟨p, hp, same, rfl⟩ := s.deliver.2.kernel.table.becomes_advance.exists_of_mem hq
  exact ⟨p, hp, same, p.executionTime_elapse _, p.not_departs_elapse _⟩

theorem exists_yields_close (h : s.kernel.Coherent) (hq : q ∈ s.closed.table.processes) :
    ∃ p ∈ s.poised.execute.2.table.processes, q.id = p.id ∧ p.Yields q := by
  obtain ⟨p, hp, same, rfl⟩ := (coherent_poised h).execute.becomes_close.exists_of_mem hq
  exact ⟨p, hp, same, .close p⟩

/-- In one tick the process on the processor is charged, and then one is selected. -/
theorem exists_usage_step (h : s.kernel.Coherent) (hq : q ∈ s.step.2.kernel.table.processes) :
    ∃ p ∈ s.kernel.table.processes, q.id = p.id ∧
      p.executionTime + p.isRunning.toNat + (decide (s.step.1.selected = some p.id)).toNat =
        q.executionTime + q.isRunning.toNat + Kernel.departures p.id s.phases := by
  have delivered := coherent_deliver h
  have timed : s.timed.Coherent := delivered.advance
  have poised := coherent_poised h
  rw [(ticks_step h).processes] at hq
  -- Back through the phases: `p₀` is the process at the start of the tick, `q` the one at its end.
  obtain ⟨p₄, h₄, id₄, closes⟩ := exists_yields_close h hq
  obtain ⟨p₃, h₃, id₃, executes⟩ := exists_yields_execute h h₄
  obtain ⟨p₂, h₂, id₂, chosen, stays₂⟩ := exists_chosen h h₃
  obtain ⟨p₁, h₁, id₁, charged, stays₁⟩ := exists_timed h₂
  obtain ⟨p₀, h₀, id₀, delivers⟩ := exists_yields_deliver h h₁
  have same₂ := id₁.trans id₀
  have same₃ := id₂.trans same₂
  have same₄ := id₃.trans same₃
  have same := id₄.trans same₄
  have departures : Kernel.departures p₀.id s.phases =
      (p₀.departs p₁).toNat + (p₃.departs p₄).toNat + (p₄.departs q).toNat := by
    have input := Kernel.departs_eq h delivered h₀ h₁ rfl id₀
    have time := Kernel.departs_eq delivered timed h₁ h₂ id₀ same₂
    have choice := Kernel.departs_eq timed poised h₂ h₃ same₂ same₃
    have turn := Kernel.departs_eq poised poised.execute h₃ h₄ same₃ same₄
    have close := Kernel.departs_eq poised.execute (coherent_closed h) h₄ hq same₄ same
    simp only [Kernel.departures, phases, input, time, choice, turn, close,
      Bool.eq_false_iff.2 stays₁, Bool.eq_false_iff.2 stays₂, Bool.toNat_false]
    omega
  have selected : p₃.isRunning = decide (s.step.1.selected = some p₀.id) := by
    rw [← same₃]
    exact timed.isRunning_schedule h₃
  refine ⟨p₀, h₀, same, ?_⟩
  rw [departures, ← selected, closes.executionTime, executes.executionTime, chosen, charged,
    delivers.executionTime, delivers.balance, executes.balance, closes.balance]
  omega

/-! ## Why processes depart -/

/-- `s.Dismisses id`: what takes process `id` from the processor in the next tick, other than a
choice that makes it ready again. An input that it takes blocks it, an instruction that prints
blocks it, and all else ends it. -/
structure Dismisses (s : Simulation) (id : Pid) : Prop where
  input : s.kernel.departs s.deliver.2.kernel id → ∃ p text, s.acceptance? = some (p, text) ∧
    p.id = id ∧ ∃ q ∈ s.deliver.2.kernel.table.processes, q.id = id ∧ q.state = .blocked
  time : ¬ s.deliver.2.kernel.departs s.timed id
  choice : ¬ s.timed.departs s.poised id
  turn : s.poised.departs s.poised.execute.2 id →
    ∃ q ∈ s.poised.execute.2.table.processes, q.id = id ∧
      (q.state = .exit ∨ q.state = .blocked ∧ ∃ p, p.id = id ∧
        s.execution? = some (p, .syscall (.immediate Services.printCode)))
  close : s.poised.execute.2.departs s.closed id →
    ∃ q ∈ s.closed.table.processes, q.id = id ∧ q.state = .exit

theorem departs_input (h : s.Steady) {id : Pid}
    (departs : s.kernel.departs s.deliver.2.kernel id) :
    ∃ p text, s.acceptance? = some (p, text) ∧ p.id = id ∧
      ∃ q ∈ s.deliver.2.kernel.table.processes, q.id = id ∧ q.state = .blocked := by
  obtain ⟨p, hp, q, hq, hid, hid', departs, taken⟩ :=
    Kernel.exists_of_departs h.coherent (fun q hq => exists_of_mem_deliver h.coherent hq) departs
  rcases taken with rfl | ⟨text, cpu, accepted, supplied, rfl⟩
  · exact (q.not_departs_self departs).elim
  · have running : p.isRunning := decide_eq_true (Process.departs_iff.1 departs).1
    obtain ⟨number, -, taken⟩ := (h.settled p hp).intake_eq supplied s.now s.inputRotation.next.1
    have blocked : (p.intake s.now s.inputRotation.next.1 text).state = .blocked := by
      rw [taken]
      exact congrArg Process.state (if_pos running)
    exact ⟨p, text, accepted, hid, _, hq, hid', blocked⟩

/-- An instruction that blocks its process prints. -/
theorem departs_turn (h : s.Steady) {id : Pid}
    (departs : s.poised.departs s.poised.execute.2 id) :
    ∃ q ∈ s.poised.execute.2.table.processes, q.id = id ∧
      (q.state = .exit ∨ q.state = .blocked ∧ ∃ p, p.id = id ∧
        s.execution? = some (p, .syscall (.immediate Services.printCode))) := by
  have poised := coherent_poised h.coherent
  obtain ⟨p, hp, q, hq, hid, hid', departs, rfl⟩ :=
    Kernel.exists_of_departs poised (fun q hq => poised.becomes_execute.exists_of_mem hq) departs
  refine ⟨_, hq, hid', ?_⟩
  have running : p.isRunning := decide_eq_true (Process.departs_iff.1 departs).1
  have hr := poised.running?_eq_some.2 ⟨hp, running⟩
  rw [if_pos running] at departs ⊢
  have plays := (h.able_poised p hp).plays running s.poised.now
  generalize p.turn s.poised.now = q at plays departs
  cases plays with
  | passed waits stepped => exact (p.not_departs_self departs).elim
  | stopped awake halted stepped => exact (p.not_departs_self departs).elim
  | failed awake fault current stepped => exact .inl rfl
  | @worked awake instruction cpu current executed stepped leaves =>
      have unmoved (texts : List String) (left : cpu.effects = texts.map .output) : False := by
        rw [Process.absorb_of_outputs (p := p.withCpu cpu) texts left] at departs
        exact p.not_departs_self departs
      generalize left : cpu.effects = effects at leaves
      cases leaves with
      | greeted => exact (unmoved [Services.greeting] left).elim
      | silent stays mute => exact (unmoved [] left).elim
      | ended =>
          rw [Process.absorb, show (p.withCpu cpu).cpu.effects = [.exit] from left]
          exact .inl rfl
      | printed ticks =>
          have executes : s.execution? = some (p, .syscall (.immediate Services.printCode)) := by
            simp only [execution?, Kernel.execution?, hr, stepped, current, Option.map_some]
          rw [Process.absorb, show (p.withCpu cpu).cpu.effects = _ from left]
          refine .inr ⟨?_, p, hid, executes⟩
          exact congrArg Process.state (if_pos running)

theorem Steady.dismisses (h : s.Steady) (id : Pid) : s.Dismisses id where
  input := departs_input h
  time := by
    intro departs
    obtain ⟨p, -, q, -, -, -, departs, -, stays⟩ := Kernel.exists_of_departs
      (coherent_deliver h.coherent) (fun q hq => exists_timed hq) departs
    exact stays departs
  choice := by
    intro departs
    obtain ⟨p, -, q, -, -, -, departs, -, stays⟩ := Kernel.exists_of_departs
      (coherent_deliver h.coherent).advance (fun q hq => exists_chosen h.coherent hq) departs
    exact stays departs
  turn := departs_turn h
  close := by
    intro departs
    have executed := (coherent_poised h.coherent).execute
    obtain ⟨p, -, q, hq, -, hid', departs, rfl⟩ :=
      Kernel.exists_of_departs executed
        (fun q hq => executed.becomes_close.exists_of_mem hq) departs
    by_cases due : (p.isRunning && p.cpu.isHalted && !p.cpu.waitingForInput) = true
    · exact ⟨_, hq, hid', congrArg Process.state (if_pos due)⟩
    · have same : p.close = p := if_neg due
      rw [same] at departs
      exact (p.not_departs_self departs).elim

/-! ## Runs -/

def selections (s : Simulation) (id : Pid) (ticks : Nat) : Nat :=
  (s.records ticks).countP (·.selected = some id)

def departures (s : Simulation) (id : Pid) : Nat → Nat
  | 0 => 0
  | ticks + 1 => s.departures id ticks + Kernel.departures id (s.after ticks).phases

theorem selections_succ (s : Simulation) (id : Pid) (ticks : Nat) :
    s.selections id (ticks + 1) =
      s.selections id ticks + (decide ((s.after ticks).step.1.selected = some id)).toNat := by
  rw [selections, selections, records, List.countP_append, List.countP_singleton]
  cases decide ((s.after ticks).step.1.selected = some id) <;> rfl

theorem selections_eq (h : s.kernel.Coherent)
    (fresh : ∀ p ∈ s.kernel.table.processes, p.executionTime = 0 ∧ ¬ p.isRunning) (ticks : Nat) :
    ∀ p ∈ (s.after ticks).kernel.table.processes,
      s.selections p.id ticks =
        p.executionTime + s.departures p.id ticks + p.isRunning.toNat := by
  induction ticks with
  | zero =>
      intro p hp
      obtain ⟨uncharged, idle⟩ := fresh p hp
      rw [uncharged, Bool.eq_false_iff.2 idle]
      rfl
  | succ ticks ih =>
      intro q hq
      obtain ⟨p, hp, same, usage⟩ := exists_usage_step (coherent_after h ticks) hq
      have before := ih p hp
      rw [same, selections_succ, departures, before]
      omega

/-- After any number of ticks of any scenario, the ticks that selected a process are those that it
was charged for, those in which it left the processor by blocking or by its exit, and, if it has the
processor, the last one. It was blocked by an input that it took or by an instruction that
printed. -/
theorem selections_accounted {scenario : Scenario} (created : create scenario = .ok s)
    (ticks : Nat) :
    (∀ p ∈ (s.after ticks).kernel.table.processes,
      s.selections p.id ticks =
        p.executionTime + s.departures p.id ticks + if p.state = .running then 1 else 0) ∧
      ∀ id, (s.after ticks).Dismisses id := by
  have begins := begins_of_create created
  constructor
  · intro p hp
    have fresh : ∀ p ∈ s.kernel.table.processes, p.executionTime = 0 ∧ ¬ p.isRunning := by
      intro p hp
      obtain ⟨entry, -, source, program, -, -, rfl⟩ := begins.starts hp
      exact ⟨rfl, Bool.false_ne_true⟩
    rw [selections_eq begins.coherent fresh ticks p hp]
    by_cases state : p.state = .running
    · rw [if_pos state, Process.isRunning, decide_eq_true state, Bool.toNat_true]
    · rw [if_neg state, Process.isRunning, decide_eq_false state, Bool.toNat_false]
  · exact (begins.steady.after ticks).dismisses

def successor : Scenario where
  quantum := 2
  maxTicks := 100
  logLevel := .info
  blockTicks := .standard
  inputs := ["6"]
  processes := [⟨"successor", 0, .bestEffort, .low,
    some ".code\nSYSCALL 2\nADD #1\nSYSCALL 1\nSYSCALL 0", none⟩]

theorem selections_accounted_successor :
    ∃ s, create successor = .ok s ∧ ∃ p ∈ (s.after 12).kernel.table.processes,
      s.selections p.id 12 = 4 ∧ p.executionTime = 1 ∧ s.departures p.id 12 = 3 ∧
        p.state = .exit := by
  obtain ⟨s, hs⟩ : ∃ s, create successor = .ok s := exists_ok (by decide +kernel)
  have facts : ∀ s ∈ (create successor).toOption, (s.after 12).kernel.table.processes.map
      (fun p => (s.selections p.id 12, p.executionTime, p.state)) = [(4, 1, .exit)] := by
    decide +kernel
  rw [hs] at facts
  obtain ⟨p, single, known⟩ := List.map_eq_singleton_iff.1 (facts s rfl)
  simp only [Prod.mk.injEq] at known
  obtain ⟨selections, charged, exit⟩ := known
  have hp : p ∈ (s.after 12).kernel.table.processes := by simp [single]
  have accounted := (selections_accounted hs 12).1 p hp
  rw [selections, charged, exit, if_neg (by decide)] at accounted
  exact ⟨s, hs, p, hp, selections, charged, by omega, exit⟩

end Simulation

end Timeslice
