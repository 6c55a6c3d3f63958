import Timeslice.Proofs.Kernel.Policy
import Timeslice.Proofs.Kernel.Programs

/-! # Kernels under other ids

Ids decide nothing but ties. Two kernels mirror each other if one has the processes of the other
under other ids and names and in any order. As long as no two processes tie, mirrors stay mirrors:
a tick gives corresponding answers and records corresponding events.
-/

namespace Timeslice

variable {H : Type}

structure Relabelling where
  id : Pid → Pid
  name : Pid → String
  injective : Function.Injective id

def Event.relabel (id : Pid → Pid) : Event → Event
  | selected process tick => selected (id process) tick
  | preempted process reason tick => preempted (id process) reason tick
  | exited process cause tick => exited (id process) cause tick
  | output process text tick => output (id process) text tick

namespace Process

def relabel (r : Relabelling) (p : Process H) : Process H :=
  { p with id := r.id p.id, name := r.name p.id }

variable (r : Relabelling) (p q : Process H) (now : Nat)

@[simp] theorem cpu_relabel : (p.relabel r).cpu = p.cpu := rfl

@[simp] theorem isRealtime_relabel : (p.relabel r).isRealtime = p.isRealtime := rfl

@[simp] theorem isRunning_relabel : (p.relabel r).isRunning = p.isRunning := rfl

@[simp] theorem isExited_relabel : (p.relabel r).isExited = p.isExited := rfl

theorem relabel_elapse : (p.relabel r).elapse now = (p.elapse now).relabel r := by
  have origin := p.origin_elapse now
  have id : (p.elapse now).id = p.id := id_eq_of_origin origin
  have source : (p.elapse now).source = p.source := source_eq_of_origin origin
  refine (p.elapse_with (r.id p.id) (r.name p.id) p.source now).trans ?_
  rw [relabel, id, ← source]

theorem relabel_feel (effect : Effect) :
    (p.relabel r).feel now effect = (p.feel now effect).relabel r := by
  cases effect with
  | exit => rfl
  | block ticks =>
      cases running : p.isRunning <;> simp only [feel, isRunning_relabel, running] <;> rfl
  | output text => rfl

theorem relabel_absorb : (p.relabel r).absorb now = (p.absorb now).relabel r := by
  have felt (effects : List Effect) (q : Process H) :
      effects.foldl (feel now) (q.relabel r) = (effects.foldl (feel now) q).relabel r := by
    induction effects generalizing q with
    | nil => rfl
    | cons effect rest ih => rw [List.foldl_cons, List.foldl_cons, relabel_feel, ih]
  exact felt p.cpu.effects (p.withCpu p.cpu.withoutEffects)

theorem relabel_turn [SyscallHandler H] :
    (p.relabel r).turn now = (p.turn now).relabel r := by
  unfold turn
  rw [cpu_relabel]
  split
  · rename_i cpu _
    exact relabel_absorb r (p.withCpu cpu) now
  · rfl

theorem turnEvents_relabel [SyscallHandler H] :
    (p.relabel r).turnEvents now = (p.turnEvents now).map (Event.relabel r.id) := by
  unfold turnEvents
  rw [cpu_relabel, relabel_turn, isExited_relabel]
  split
  · rw [List.map_append, List.map_map]
    split <;> rfl
  · rfl

/-- Whether nothing but their ids can tell which of two processes is to run first. -/
def Ties : Prop :=
  p.isRealtime = q.isRealtime ∧ p.urgency.level = q.urgency.level ∧ p.arrivalTime = q.arrivalTime

variable {r p q}

/-- Without a tie the urgency of two processes does not depend on their ids. -/
theorem urgency_relabel_le (untied : p.Ties q → p = q) (same : p.isRealtime = q.isRealtime)
    (le : p.urgency ≤ q.urgency) : (p.relabel r).urgency ≤ (q.relabel r).urgency := by
  by_cases equal : p = q
  · rw [equal]
    exact (Urgency.le_total _ _).elim (fun le => le) fun le => le
  · have same' : (p.relabel r).isRealtime = (q.relabel r).isRealtime := same
    rw [urgency_le_iff same] at le
    rw [urgency_le_iff same']
    rcases le with level | ⟨level, arrival | ⟨arrival, -⟩⟩
    · exact .inl level
    · exact .inr ⟨level, .inl arrival⟩
    · exact (equal (untied ⟨same, (level_urgency_eq_iff same).2 level, arrival⟩)).elim

theorem ties_iff_of_origin {p' q' : Process H} (hp : p'.origin = p.origin)
    (hq : q'.origin = q.origin) : p'.Ties q' ↔ p.Ties q := by
  have arrivalP : p'.arrivalTime = p.arrivalTime := congrArg Origin.arrivalTime hp
  have arrivalQ : q'.arrivalTime = q.arrivalTime := congrArg Origin.arrivalTime hq
  rw [Ties, Ties, isRealtime_eq_of_origin hp, isRealtime_eq_of_origin hq, urgency_eq_of_origin hp,
    urgency_eq_of_origin hq, arrivalP, arrivalQ]

end Process

namespace Kernel

def Untied (k : Kernel H) : Prop :=
  ∀ p ∈ k.table.processes, ∀ q ∈ k.table.processes, p.Ties q → p = q

theorem Untied.becomes {k l : Kernel H} {f : Process H → Process H} (untied : k.Untied)
    (ht : k.table.Becomes f l.table) : l.Untied := by
  intro p' hp' q' hq' ties
  obtain ⟨p, hp, rfl⟩ := ht.mem hp'
  obtain ⟨q, hq, rfl⟩ := ht.mem hq'
  rw [untied p hp q hq ((Process.ties_iff_of_origin (ht.origin p) (ht.origin q)).1 ties)]

theorem Untied.advance {k : Kernel H} (untied : k.Untied) : k.advance.Untied :=
  Untied.becomes (k := { k with table := { k.table with clock := k.table.clock.tick } }) untied
    k.table.becomes_advance

theorem Untied.tick [SyscallHandler H] {k : Kernel H} (untied : k.Untied) (h : k.Coherent) :
    k.tick.2.Untied := by
  obtain ⟨f, chosen, -⟩ := h.advance.becomes_schedule
  exact (untied.advance.becomes chosen).becomes h.advance.schedule.becomes_execute

/-- With nothing running, executing at most drops a selection that denotes no process. -/
theorem scheduler_execute_of_idle [SyscallHandler H] {k : Kernel H}
    (hr : k.table.running? = none) : k.execute.2.scheduler =
      k.scheduler.select (k.scheduler.current.filter fun id => (k.table.find? id).isSome) := by
  have selected {id : Option Pid} (same : k.scheduler.current = id) :
      k.scheduler.select id = k.scheduler := by rw [← same]; rfl
  unfold Kernel.execute
  cases current : k.scheduler.current with
  | none => exact (selected current).symm
  | some id =>
      cases found : k.table.find? id with
      | none =>
          simp only [found, Option.filter_some, Option.isSome_none, Bool.false_eq_true, if_false]
      | some p =>
          have idle : ¬ p.isRunning := List.find?_eq_none.1 hr p (ProcessTable.mem_of_find? found)
          simp only [found, idle, Option.filter_some, Option.isSome_some, if_false, if_true,
            Bool.false_eq_true, selected current]

/-- `k.Mirrors r l`: `l` is `k` with every process under the id and name that `r` gives it, in any
order and apart from the logs. -/
structure Mirrors (r : Relabelling) (k l : Kernel H) : Prop where
  processes : l.table.processes.Perm (k.table.processes.map (Process.relabel r))
  clock : l.table.clock = k.table.clock
  settings : l.scheduler.settings = k.scheduler.settings
  current : l.scheduler.current = k.scheduler.current.map r.id
  audit : l.scheduler.audit = k.scheduler.audit.map (Event.relabel r.id)

namespace Mirrors

variable {r : Relabelling} {k l k' l' : Kernel H} {p q : Process H}

theorem now (m : k.Mirrors r l) : l.now = k.now := congrArg Clock.ticks m.clock

theorem mem (m : k.Mirrors r l) {q : Process H} :
    q ∈ l.table.processes ↔ ∃ p ∈ k.table.processes, p.relabel r = q := by
  rw [m.processes.mem_iff, List.mem_map]

/-- Corresponding functions on the processes lead from mirrors to mirrors. -/
theorem becomes (m : k.Mirrors r l) {f g : Process H → Process H}
    (hk : k.table.Becomes f k'.table) (hl : l.table.Becomes g l'.table)
    (agree : ∀ p ∈ k.table.processes, g (p.relabel r) = (f p).relabel r)
    (settings : l'.scheduler.settings = k'.scheduler.settings)
    (current : l'.scheduler.current = k'.scheduler.current.map r.id)
    (audit : l'.scheduler.audit = k'.scheduler.audit.map (Event.relabel r.id)) :
    k'.Mirrors r l' where
  processes := by
    rw [hl.processes, hk.processes, List.map_map]
    have same : k.table.processes.map (g ∘ Process.relabel r) =
        k.table.processes.map (Process.relabel r ∘ f) := List.map_congr_left agree
    rw [← same, ← List.map_map]
    exact m.processes.map g
  clock := by rw [hl.clock, hk.clock, m.clock]
  settings := settings
  current := current
  audit := audit

theorem advance (m : k.Mirrors r l) : k.advance.Mirrors r l.advance := by
  have clock : l.table.clock.tick = k.table.clock.tick := by rw [m.clock]
  have now : l.table.advance.now = k.table.advance.now := congrArg Clock.ticks clock
  have ticked : Mirrors r { k with table := { k.table with clock := k.table.clock.tick } }
      { l with table := { l.table with clock := l.table.clock.tick } } :=
    ⟨m.processes, clock, m.settings, m.current, m.audit⟩
  refine ticked.becomes k.table.becomes_advance l.table.becomes_advance (fun p _ => ?_) m.settings
    m.current m.audit
  rw [now, Process.relabel_elapse]

/-! ## Scheduling -/

theorem running? (m : k.Mirrors r l) (hk : k.Coherent) (hl : l.Coherent) :
    l.table.running? = k.table.running?.map (Process.relabel r) := by
  cases hr : k.table.running? with
  | some p =>
      obtain ⟨hp, running⟩ := hk.running?_eq_some.1 hr
      exact hl.running?_eq_some.2 ⟨m.mem.2 ⟨p, hp, rfl⟩, running⟩
  | none =>
      have idle : ∀ p ∈ k.table.processes, ¬ p.isRunning := List.find?_eq_none.1 hr
      refine List.find?_eq_none.2 fun q hq => ?_
      obtain ⟨p, hp, rfl⟩ := m.mem.1 hq
      exact idle p hp

theorem find? (m : k.Mirrors r l) (hl : l.Coherent) (id : Pid) :
    l.table.find? (r.id id) = (k.table.find? id).map (Process.relabel r) := by
  cases found : k.table.find? id with
  | some p =>
      have member := m.mem.2 ⟨p, ProcessTable.mem_of_find? found, rfl⟩
      rw [← ProcessTable.find?_id found]
      exact hl.distinct.find?_of_mem member
  | none =>
      refine List.find?_eq_none.2 fun q hq => ?_
      obtain ⟨p, hp, rfl⟩ := m.mem.1 hq
      have other := ProcessTable.ne_of_find?_none found hp
      exact fun same => other (r.injective (of_decide_eq_true same))

theorem granted (m : k.Mirrors r l) (p : Process H) : l.granted (p.relabel r) = k.granted p := by
  simp only [Kernel.granted, Scheduler.quantum, m.settings, Process.isRealtime_relabel]

theorem retains_iff (m : k.Mirrors r l) (p : Process H) :
    l.Retains (p.relabel r) ↔ k.Retains p := by
  have alone : (∀ q ∈ l.table.processes, q.isReady → ¬ q.isRealtime) ↔
      ∀ q ∈ k.table.processes, q.isReady → ¬ q.isRealtime := by
    constructor
    · intro all q hq
      exact all (q.relabel r) (m.mem.2 ⟨q, hq, rfl⟩)
    · intro all q hq
      obtain ⟨p, hp, rfl⟩ := m.mem.1 hq
      exact all p hp
  unfold Retains
  rw [alone]
  exact Iff.rfl

theorem given (m : k.Mirrors r l) (hk : k.Coherent) (hl : l.Coherent)
    (given : ∀ p, k.table.running? = some p → ¬ k.Retains p) :
    ∀ q, l.table.running? = some q → ¬ l.Retains q := by
  intro q hq
  rw [m.running? hk hl, Option.map_eq_some_iff] at hq
  obtain ⟨p, hp, rfl⟩ := hq
  rw [m.retains_iff]
  exact given p hp

theorem mem_candidates (m : k.Mirrors r l) :
    q ∈ l.candidates ↔ ∃ p ∈ k.candidates, p.relabel r = q := by
  rw [Kernel.mem_candidates, m.mem]
  constructor
  · rintro ⟨⟨p, hp, rfl⟩, eligible⟩
    exact ⟨p, Kernel.mem_candidates.2 ⟨hp, eligible⟩, rfl⟩
  · rintro ⟨p, hp, rfl⟩
    obtain ⟨hp, eligible⟩ := Kernel.mem_candidates.1 hp
    exact ⟨⟨p, hp, rfl⟩, eligible⟩

/-- The same process is first under either id, since no choice comes down to ids. -/
theorem isFirst (m : k.Mirrors r l) (untied : k.Untied) (first : p.IsFirst k.candidates) :
    (p.relabel r).IsFirst l.candidates where
  mem := m.mem_candidates.2 ⟨p, first.mem, rfl⟩
  realtime q' hq' := by
    obtain ⟨q, hq, rfl⟩ := m.mem_candidates.1 hq'
    exact first.realtime q hq
  least q' hq' same := by
    obtain ⟨q, hq, rfl⟩ := m.mem_candidates.1 hq'
    have hp := (Kernel.mem_candidates.1 first.mem).1
    exact Process.urgency_relabel_le (untied p hp q (Kernel.mem_candidates.1 hq).1) same.symm
      (first.least q hq same)

theorem partings (m : k.Mirrors r l) (hk : k.Coherent) (hl : l.Coherent) :
    l.partings = k.partings.map (Event.relabel r.id) := by
  unfold Kernel.partings
  rw [m.running? hk hl, m.current, m.now]
  cases k.table.running? with
  | some p => rfl
  | none =>
      cases k.scheduler.current with
      | none => rfl
      | some id =>
          simp only [Option.map_none, Option.map_some, m.find? hl id, Option.any_map]
          show (if (k.table.find? id).any (·.isExited) then _ else _) = _
          split <;> rfl

theorem handOver (m : k.Mirrors r l) (p q : Process H) :
    l.handOver (p.relabel r) (q.relabel r) = (k.handOver p q).relabel r := by
  have same : (q.relabel r).id = (p.relabel r).id ↔ q.id = p.id := r.injective.eq_iff
  unfold Kernel.handOver
  simp only [same, m.granted, Process.isRunning_relabel]
  by_cases hid : q.id = p.id
  · rw [if_pos hid, if_pos hid]
    rfl
  · rw [if_neg hid, if_neg hid]
    rw [apply_ite (Process.relabel r)]
    rfl

theorem schedule (m : k.Mirrors r l) (hk : k.Coherent) (hl : l.Coherent) (untied : k.Untied) :
    k.schedule.2.Mirrors r l.schedule.2 ∧ l.schedule.1 = k.schedule.1.map r.id := by
  rcases hk.schedule_cases with ⟨p, hp, kept, same⟩ | ⟨given, ⟨p, answer, chooses⟩ |
      ⟨answer, rests⟩⟩
  · have hp' : l.table.running? = some (p.relabel r) := by rw [m.running? hk hl, hp]; rfl
    rw [same, hl.schedule_of_retains hp' ((m.retains_iff p).2 kept)]
    exact ⟨m, rfl⟩
  · obtain ⟨answer', chooses'⟩ :=
      hl.chooses_of_isFirst (m.given hk hl given) (m.isFirst untied chooses.first)
    refine ⟨?_, by rw [answer, answer']; rfl⟩
    have became : k.table.Becomes (k.handOver p) k.schedule.2.table :=
      chooses.table ▸ k.table.becomes_mapped (k.origin_handOver p)
    have became' : l.table.Becomes (l.handOver (p.relabel r)) l.schedule.2.table :=
      chooses'.table ▸ l.table.becomes_mapped (l.origin_handOver (p.relabel r))
    refine m.becomes became became' (fun q _ => m.handOver p q) ?_ ?_ ?_
    · rw [chooses.settings, chooses'.settings, m.settings]
    · rw [chooses.current, chooses'.current]
      rfl
    · rw [chooses.audit, chooses'.audit, m.audit, m.partings hk hl, m.now, List.map_append,
        List.map_append]
      rfl
  · have empty : l.candidates = [] := by
      refine List.eq_nil_iff_forall_not_mem.2 fun q hq => ?_
      obtain ⟨p, hp, rfl⟩ := m.mem_candidates.1 hq
      rw [rests.candidates] at hp
      contradiction
    have rests' := hl.rests_of_candidates empty
    refine ⟨?_, by rw [answer, hl.schedule_eq_none.2 empty]; rfl⟩
    refine m.becomes (.of_eq rests.table) (.of_eq rests'.table) (fun _ _ => rfl) ?_ ?_ ?_
    · rw [rests.settings, rests'.settings, m.settings]
    · rw [rests.current, rests'.current]
      rfl
    · rw [rests.audit, rests'.audit, m.audit, m.partings hk hl, List.map_append]

/-! ## Executing -/

variable [SyscallHandler H]

theorem execute_answer (m : k.Mirrors r l) (hk : k.Coherent) (hl : l.Coherent) :
    l.execute.1 = k.execute.1 := by
  rw [← hk.isSome_execution?, ← hl.isSome_execution?]
  unfold execution?
  rw [m.running? hk hl]
  cases k.table.running? with
  | none => rfl
  | some p =>
      simp only [Option.map_some, Process.cpu_relabel]
      split
      · rw [Option.isSome_map, Option.isSome_map]
      · rfl

theorem execute_of_idle (m : k.Mirrors r l) (hk : k.Coherent) (hl : l.Coherent)
    (hr : k.table.running? = none) : k.execute.2.Mirrors r l.execute.2 := by
  have hr' : l.table.running? = none := by rw [m.running? hk hl, hr]; rfl
  have table := (hk.execute_of_idle hr).2.1
  have table' := (hl.execute_of_idle hr').2.1
  refine m.becomes (.of_eq table) (.of_eq table') (fun _ _ => rfl) ?_ ?_ ?_
  · rw [Kernel.scheduler_execute_of_idle hr, Kernel.scheduler_execute_of_idle hr']
    exact m.settings
  · rw [Kernel.scheduler_execute_of_idle hr, Kernel.scheduler_execute_of_idle hr']
    simp only [Scheduler.select, m.current]
    cases k.scheduler.current with
    | none => rfl
    | some id =>
        simp only [Option.map_some, Option.filter_some, m.find? hl id, Option.isSome_map]
        split <;> rfl
  · rw [Kernel.scheduler_execute_of_idle hr, Kernel.scheduler_execute_of_idle hr']
    exact m.audit

theorem execute (m : k.Mirrors r l) (hk : k.Coherent) (hl : l.Coherent) :
    k.execute.2.Mirrors r l.execute.2 := by
  cases hr : k.table.running? with
  | none => exact m.execute_of_idle hk hl hr
  | some p =>
      have hr' : l.table.running? = some (p.relabel r) := by rw [m.running? hk hl, hr]; rfl
      have turns := hk.turns_execute hr
      have turns' := hl.turns_execute hr'
      refine m.becomes turns.table turns'.table (fun q _ => ?_) ?_ ?_ ?_
      · rw [Process.isRunning_relabel, m.now, Process.relabel_turn]
        rw [apply_ite (Process.relabel r)]
      · rw [turns.settings, turns'.settings, m.settings]
      · rw [turns.current, turns'.current, m.now, Process.relabel_turn, Process.isExited_relabel]
        split <;> rfl
      · rw [turns.audit, turns'.audit, m.now, m.audit, Process.turnEvents_relabel, List.map_append]

theorem tick (m : k.Mirrors r l) (hk : k.Coherent) (hl : l.Coherent) (untied : k.Untied) :
    k.tick.2.Mirrors r l.tick.2 ∧ l.tick.1 = (k.tick.1.1.map r.id, k.tick.1.2) := by
  obtain ⟨chosen, answer⟩ := m.advance.schedule hk.advance hl.advance untied.advance
  have hk' := hk.advance.schedule
  have hl' := hl.advance.schedule
  exact ⟨chosen.execute hk' hl', Prod.ext answer (chosen.execute_answer hk' hl')⟩

end Mirrors

/-! ## Runs of ticks -/

def after [SyscallHandler H] (k : Kernel H) : Nat → Kernel H
  | 0 => k
  | n + 1 => (k.after n).tick.2

variable [SyscallHandler H]

theorem Coherent.tick {k : Kernel H} (h : k.Coherent) : k.tick.2.Coherent :=
  h.advance.schedule.execute

theorem Coherent.after {k : Kernel H} (h : k.Coherent) (n : Nat) : (k.after n).Coherent := by
  induction n with
  | zero => exact h
  | succ n ih => exact ih.tick

/-- Every process of a later kernel has been there from the start. -/
theorem Coherent.exists_origin_after {k : Kernel H} (h : k.Coherent) (n : Nat) :
    ∀ p ∈ (k.after n).table.processes, ∃ q ∈ k.table.processes, p.origin = q.origin := by
  induction n with
  | zero => exact fun p hp => ⟨p, hp, rfl⟩
  | succ n ih =>
      intro p hp
      have before := (h.after n).advance
      obtain ⟨f, chosen, -⟩ := before.becomes_schedule
      have executed := before.schedule.becomes_execute
      have advanced := (k.after n).table.becomes_advance
      obtain ⟨p₃, h₃, rfl⟩ := executed.mem hp
      obtain ⟨p₂, h₂, rfl⟩ := chosen.mem h₃
      obtain ⟨p₁, h₁, rfl⟩ := advanced.mem h₂
      obtain ⟨q, hq, same⟩ := ih p₁ h₁
      refine ⟨q, hq, ?_⟩
      rw [executed.origin, chosen.origin, advanced.origin, same]

theorem Untied.after {k : Kernel H} (untied : k.Untied) (h : k.Coherent) (n : Nat) :
    (k.after n).Untied := by
  induction n with
  | zero => exact untied
  | succ n ih => exact ih.tick (h.after n)

theorem Mirrors.after {r : Relabelling} {k l : Kernel H} (m : k.Mirrors r l) (hk : k.Coherent)
    (hl : l.Coherent) (untied : k.Untied) (n : Nat) : (k.after n).Mirrors r (l.after n) := by
  induction n with
  | zero => exact m
  | succ n ih => exact (ih.tick (hk.after n) (hl.after n) (untied.after hk n)).1

end Kernel

end Timeslice
