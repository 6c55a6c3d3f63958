import Timeslice.Proofs.Kernel.Coherence

/-! # Scheduling in one choice

Scheduling is a loop of passes. On a coherent kernel it comes to one of two things: the running
process keeps the processor and nothing changes, or the processor is vacated and then filled once
with the first of the processes that can have it.
-/

namespace Timeslice

variable {H : Type}

/-! ## The first of several processes -/

namespace Process

variable {p q : Process H}

theorem level_urgency_eq_iff (same : p.isRealtime = q.isRealtime) :
    p.urgency.level = q.urgency.level ↔
      (p.isRealtime → p.priority.level = q.priority.level) := by
  unfold urgency
  rw [← same]
  cases p.isRealtime with
  | true => simp
  | false => simp

/-- Among processes of one class the earlier arrival goes first, then the lower id. Priority counts
before both, but among realtime processes alone. -/
theorem urgency_le_iff (same : p.isRealtime = q.isRealtime) :
    p.urgency ≤ q.urgency ↔
      p.isRealtime ∧ p.priority.level < q.priority.level ∨
        (p.isRealtime → p.priority.level = q.priority.level) ∧
          (p.arrivalTime < q.arrivalTime ∨ p.arrivalTime = q.arrivalTime ∧ p.id ≤ q.id) := by
  rw [Urgency.le_def, level_urgency_eq_iff same]
  unfold urgency
  rw [← same]
  cases p.isRealtime with
  | true => simp
  | false => simp

end Process

/-- `p.IsFirst ps`: of `ps`, process `p` is to run. Realtime goes before best effort, and then
counts urgency. -/
structure Process.IsFirst (p : Process H) (ps : List (Process H)) : Prop where
  mem : p ∈ ps
  realtime : ∀ q ∈ ps, q.isRealtime → p.isRealtime
  least : ∀ q ∈ ps, q.isRealtime = p.isRealtime → p.urgency ≤ q.urgency

namespace Process.IsFirst

variable {p q : Process H} {ps : List (Process H)}

/-- Urgency ends with the id, so distinct processes never tie. -/
theorem id_unique (hp : p.IsFirst ps) (hq : q.IsFirst ps) : p.id = q.id := by
  have same : p.isRealtime = q.isRealtime :=
    Bool.eq_iff_iff.2 ⟨hq.realtime p hp.mem, hp.realtime q hq.mem⟩
  have urgency := Urgency.le_antisymm (hp.least q hq.mem same.symm) (hq.least p hp.mem same)
  exact congrArg Urgency.id urgency

/-- Being first is a matter of what processes were created with. -/
theorem of_map {f : Process H → Process H} (origin : ∀ p, (f p).origin = p.origin)
    (h : q.IsFirst (ps.map f)) : ∃ p, q = f p ∧ p.IsFirst ps := by
  obtain ⟨p, hp, rfl⟩ := List.mem_map.1 h.mem
  have realtime (r : Process H) := isRealtime_eq_of_origin (origin r)
  have urgency (r : Process H) := urgency_eq_of_origin (origin r)
  refine ⟨p, rfl, hp, fun r hr rt => ?_, fun r hr same => ?_⟩
  · rw [← realtime]
    exact h.realtime (f r) (List.mem_map_of_mem hr) ((realtime r).trans rt)
  · rw [← urgency p, ← urgency r]
    refine h.least (f r) (List.mem_map_of_mem hr) ?_
    rw [realtime, realtime, same]

end Process.IsFirst

namespace Kernel

theorem minOn?_spec {ps : List (Process H)} {p : Process H} (h : ps.minOn? (·.urgency) = some p) :
    p ∈ ps ∧ ∀ q ∈ ps, p.urgency ≤ q.urgency := by
  refine ⟨List.minOn?_mem h, fun q hq => ?_⟩
  have le := List.apply_get_minOn?_le_of_mem (f := Process.urgency) hq
  simpa only [h, Option.get_some] using le

theorem minOn?_eq_none {ps : List (Process H)} (h : ps.minOn? (·.urgency) = none) : ps = [] := by
  refine Decidable.byContradiction fun nonempty => ?_
  have some := List.isSome_minOn?_iff (f := Process.urgency).2 nonempty
  rw [h] at some
  contradiction

theorem isFirst_of_choice? {k : Kernel H} {p : Process H} (h : k.choice? = some p) :
    p.IsFirst k.table.ready := by
  simp only [choice?] at h
  split at h
  · rename_i rt found
    cases h
    obtain ⟨hp, least⟩ := minOn?_spec found
    obtain ⟨ready, realtime⟩ := List.mem_filter.1 hp
    refine ⟨ready, fun _ _ _ => realtime, fun q hq same => ?_⟩
    exact least q (List.mem_filter.2 ⟨hq, same.trans realtime⟩)
  · rename_i none_realtime
    have idle := minOn?_eq_none none_realtime
    obtain ⟨hp, least⟩ := minOn?_spec h
    obtain ⟨ready, effort⟩ := List.mem_filter.1 hp
    refine ⟨ready, fun q hq realtime => ?_, fun q hq same => ?_⟩
    · have member := List.mem_filter.2 ⟨hq, realtime⟩
      rw [idle] at member
      contradiction
    · exact least q (List.mem_filter.2 ⟨hq, by rw [same]; exact effort⟩)

theorem ready_of_choice?_none {k : Kernel H} (h : k.choice? = none) : k.table.ready = [] := by
  simp only [choice?] at h
  split at h
  · contradiction
  · rename_i none_realtime
    have realtime := minOn?_eq_none none_realtime
    have effort := minOn?_eq_none h
    refine List.eq_nil_iff_forall_not_mem.2 fun p hp => ?_
    cases hc : p.isRealtime with
    | true =>
        have member := List.mem_filter.2 ⟨hp, hc⟩
        rw [realtime] at member
        contradiction
    | false =>
        have member : p ∈ k.table.ready.filter (! ·.isRealtime) :=
          List.mem_filter.2 ⟨hp, by rw [hc]; rfl⟩
        rw [effort] at member
        contradiction

/-! ## Filling a vacant processor -/

structure Vacant (k : Kernel H) : Prop where
  idle : ∀ p ∈ k.table.processes, ¬ p.isRunning
  unselected : k.scheduler.current = none

variable {k : Kernel H}

theorem Vacant.running? (v : k.Vacant) : k.table.running? = none :=
  List.find?_eq_none.2 v.idle

theorem becomes_dispatch (k : Kernel H) (p : Process H) :
    k.table.Becomes (Process.only p.id (·.dispatch (k.granted p))) (k.dispatch p).table :=
  k.table.becomes_update p.id fun _ => rfl

/-- A process that is dispatched goes before every process that stays ready. -/
theorem makeWay_dispatch (h : k.table.Distinct) {p : Process H} (first : p.IsFirst k.table.ready) :
    (k.dispatch p).makeWay = (false, k.dispatch p) := by
  have dispatched := k.becomes_dispatch p
  have found : (k.dispatch p).table.find? p.id = some (p.dispatch (k.granted p)) := by
    rw [dispatched.find?, h.find?_of_mem (List.mem_filter.1 first.mem).1, Option.map_some,
      Process.only_of_eq _ rfl]
  have current : (k.dispatch p).scheduler.current = some p.id := rfl
  have settled : ((k.dispatch p).table.find? p.id).any (! ·.isRealtime) = true →
      (k.dispatch p).table.ready.any (·.isRealtime) = false := by
    intro effort
    rw [found, Option.any_some] at effort
    refine List.any_eq_false.2 fun q hq realtime => ?_
    obtain ⟨hq, ready⟩ := List.mem_filter.1 hq
    obtain ⟨r, hr, rfl⟩ := dispatched.mem hq
    -- A process that is still ready was ready before, so the dispatched one is realtime too.
    have ready' : r.isReady := by
      unfold Process.only at ready
      split at ready
      · simp [Process.isReady, Process.dispatch] at ready
      · exact ready
    have realtime' := first.realtime r (List.mem_filter.2 ⟨hr, ready'⟩)
      ((Process.isRealtime_eq_of_origin (dispatched.origin r)).symm.trans realtime)
    have effort' : (! p.isRealtime) = true := effort
    rw [realtime'] at effort'
    contradiction
  simp only [makeWay, current]
  split
  · rename_i due
    obtain ⟨effort, waiting⟩ := Bool.and_eq_true_iff.1 due
    rw [settled effort] at waiting
    contradiction
  · rfl

theorem Vacant.dropStale (v : k.Vacant) : k.dropStale = k := by
  simp only [Kernel.dropStale, v.unselected]

theorem Vacant.makeWay_fill (v : k.Vacant) (h : k.table.Distinct) :
    k.fill.makeWay = (false, k.fill) := by
  simp only [fill, v.unselected]
  split
  · rename_i p chosen
    exact makeWay_dispatch h (isFirst_of_choice? chosen)
  · simp only [makeWay, v.unselected]

theorem Vacant.pass (v : k.Vacant) (h : k.table.Distinct) : k.pass = (false, k.fill) := by
  have settled : k.settle = (false, k) := by simp only [settle, v.running?]
  simp only [Kernel.pass, settled, v.dropStale, v.makeWay_fill h]

/-! ## Vacating the processor -/

/-- The running process `r` keeps the processor: it is realtime with some of its quantum left, or
best effort and either waits for input or has no realtime process to make way for. -/
def Retains (k : Kernel H) (r : Process H) : Prop :=
  r.isRealtime ∧ 0 < r.quantumLeft ∨
    ¬ r.isRealtime ∧ r.cpu.waitingForInput ∨
    ¬ r.isRealtime ∧ ∀ p ∈ k.table.processes, p.isReady → ¬ p.isRealtime

/-- The kernel with the processor taken from the process that runs, or with a selection dropped
that does not run. -/
def vacated (k : Kernel H) : Kernel H :=
  match k.table.running? with
  | some r => k.preempt r.id (if r.isRealtime then .quantumExpired else .realtimeArrival)
  | none => k.dropStale

def partings (k : Kernel H) : List Event :=
  match k.table.running? with
  | some r => [.preempted r.id (if r.isRealtime then .quantumExpired else .realtimeArrival) k.now]
  | none =>
    match k.scheduler.current with
    | some id =>
      if (k.table.find? id).any (·.isExited) then [.exited id .terminated k.now] else []
    | none => []

theorem vacant_dropStale (hr : k.table.running? = none) :
    k.dropStale.Vacant ∧ k.dropStale.table = k.table := by
  have idle : ∀ p ∈ k.table.processes, ¬ p.isRunning := List.find?_eq_none.1 hr
  unfold dropStale
  split
  · rename_i current
    exact ⟨⟨idle, current⟩, rfl⟩
  · rename_i id _
    split
    · rename_i state
      obtain ⟨p, found, running⟩ := Option.map_eq_some_iff.1 state
      exact absurd (decide_eq_true running) (idle p (ProcessTable.mem_of_find? found))
    · exact ⟨⟨idle, rfl⟩, rfl⟩
    · exact ⟨⟨idle, rfl⟩, rfl⟩

namespace Coherent

theorem vacant_preempt (h : k.Coherent) {r : Process H} (hr : k.table.running? = some r)
    (reason : Preemption) :
    (k.preempt r.id reason).Vacant ∧
      (k.preempt r.id reason).table =
        k.table.mapped fun q => if q.isRunning then q.sendBack else q := by
  obtain ⟨hp, running⟩ := h.running?_eq_some.1 hr
  have sent : (k.preempt r.id reason).table =
      k.table.mapped fun q => if q.isRunning then q.sendBack else q := by
    refine ProcessTable.mapped_congr fun q hq => ?_
    exact h.only_running hr Process.sendBack hq
  refine ⟨⟨fun q hq => ?_, ?_⟩, sent⟩
  · rw [sent] at hq
    obtain ⟨p, -, rfl⟩ := List.mem_map.1 hq
    split
    · exact p.not_isRunning_sendBack
    · assumption
  · simp only [preempt, Scheduler.note, Scheduler.record, current_deselect,
      h.selected r hp running]
    simp [Option.filter]

/-- Vacating sends the running process back, touches no other, and grants nothing. -/
theorem vacant_vacated (h : k.Coherent) :
    k.vacated.Vacant ∧
      k.vacated.table = k.table.mapped fun q => if q.isRunning then q.sendBack else q := by
  unfold vacated
  split
  · rename_i r hr
    exact h.vacant_preempt hr _
  · rename_i hr
    obtain ⟨vacant, table⟩ := vacant_dropStale hr
    have idle : ∀ p ∈ k.table.processes, ¬ p.isRunning := List.find?_eq_none.1 hr
    refine ⟨vacant, table.trans (ProcessTable.mapped_eq_self fun q hq => ?_).symm⟩
    rw [if_neg (idle q hq)]

theorem becomes_vacated (h : k.Coherent) :
    k.table.Becomes (fun q => if q.isRunning then q.sendBack else q) k.vacated.table :=
  h.vacant_vacated.2 ▸ k.table.becomes_mapped fun q => by split <;> rfl

theorem select_running (h : k.Coherent) {r : Process H} (hr : k.table.running? = some r) :
    ({ k with scheduler := k.scheduler.select (some r.id) } : Kernel H) = k := by
  obtain ⟨hp, running⟩ := h.running?_eq_some.1 hr
  have current : k.scheduler.select (some r.id) = k.scheduler := by
    rw [Scheduler.select, ← h.selected r hp running]
  rw [current]

theorem pass_of_running (h : k.Coherent) {r : Process H} (hr : k.table.running? = some r)
    (quantum : r.isRealtime → 0 < r.quantumLeft) :
    k.pass = if r.cpu.waitingForInput then (false, k) else k.makeWay := by
  obtain ⟨hp, running⟩ := h.running?_eq_some.1 hr
  have current := h.selected r hp running
  have unexpired : (r.isRealtime && decide (r.quantumLeft ≤ 0)) = false := by
    cases hc : r.isRealtime with
    | false => rfl
    | true => simpa using quantum hc
  have settled : k.settle = (r.cpu.waitingForInput, k) := by
    simp only [settle, hr, unexpired, h.select_running hr, Bool.false_eq_true, if_false]
  have state : (k.table.find? r.id).map Process.state = some .running := by
    rw [h.distinct.find?_of_mem hp, Option.map_some]
    exact congrArg some (of_decide_eq_true running)
  have dropped : k.dropStale = k := by simp only [dropStale, current, state]
  have filled : k.fill = k := by simp only [fill, current]
  simp only [pass, settled]
  cases r.cpu.waitingForInput with
  | true => rfl
  | false => simp only [dropped, filled, Bool.false_eq_true, if_false]

theorem makeWay_of_running (h : k.Coherent) {r : Process H} (hr : k.table.running? = some r) :
    k.makeWay = if (! r.isRealtime && k.table.ready.any (·.isRealtime)) = true then
      (true, k.preempt r.id .realtimeArrival) else (false, k) := by
  obtain ⟨hp, running⟩ := h.running?_eq_some.1 hr
  simp only [makeWay, h.selected r hp running, h.distinct.find?_of_mem hp, Option.any_some]

/-- A running process that keeps the processor ends the loop at once, with nothing changed. -/
theorem pass_of_retains (h : k.Coherent) {r : Process H} (hr : k.table.running? = some r)
    (kept : k.Retains r) : k.pass = (false, k) := by
  rw [h.pass_of_running hr, h.makeWay_of_running hr]
  · rcases kept with ⟨realtime, -⟩ | ⟨-, waiting⟩ | ⟨-, alone⟩
    · simp [realtime]
    · simp [waiting]
    · have none_ready : k.table.ready.any (·.isRealtime) = false :=
        List.any_eq_false.2 fun p hp => by
          obtain ⟨hp, ready⟩ := List.mem_filter.1 hp
          exact alone p hp ready
      simp [none_ready]
  · intro realtime
    rcases kept with ⟨-, quantum⟩ | ⟨effort, -⟩ | ⟨effort, -⟩
    · exact quantum
    · exact (effort realtime).elim
    · exact (effort realtime).elim

end Coherent

/-! ## The loop -/

/-- `k.Settles n l`: the loop of passes from `k` ends in `l`, after `n` passes. -/
inductive Settles : Kernel H → Nat → Kernel H → Prop where
  | last {k l : Kernel H} (done : k.pass = (false, l)) : Settles k 1 l
  | again {k l m : Kernel H} {n : Nat} (due : k.pass = (true, l)) (rest : Settles l n m) :
      Settles k (n + 1) m

theorem Settles.passes {k l : Kernel H} {n : Nat} (h : k.Settles n l) (limit : Nat)
    (enough : n ≤ limit) : Kernel.passes limit k = l := by
  induction h generalizing limit with
  | last done =>
      obtain ⟨limit, rfl⟩ : ∃ m, limit = m + 1 := ⟨limit - 1, by omega⟩
      simp only [Kernel.passes, done]
  | again due rest ih =>
      obtain ⟨limit, rfl⟩ : ∃ m, limit = m + 1 := ⟨limit - 1, by omega⟩
      simp only [Kernel.passes, due]
      exact ih limit (by omega)

namespace Coherent

/-- A kernel whose running process gives the processor up, or that runs none, settles on the one
filled after vacating it. A second pass is due when best effort has made way. -/
theorem settles_vacated (h : k.Coherent)
    (given : ∀ r, k.table.running? = some r → ¬ k.Retains r) :
    ∃ n, n ≤ 2 ∧ n ≤ k.table.processes.length + 1 ∧ k.Settles n k.vacated.fill := by
  have vacant := h.vacant_vacated.1
  have distinct := h.becomes_vacated.distinct h.distinct
  -- One pass does all of it, unless the process that runs is best effort: that one is sent back at
  -- the end of its pass, and the next pass finds the processor vacant.
  cases hr : k.table.running? with
  | none =>
      have vacated : k.vacated = k.dropStale := by simp only [Kernel.vacated, hr]
      rw [vacated] at vacant distinct ⊢
      have settled : k.settle = (false, k) := by simp only [settle, hr]
      refine ⟨1, by omega, by omega, .last ?_⟩
      simp only [pass, settled, vacant.makeWay_fill distinct]
  | some r =>
      have notRetained := given r hr
      cases hc : r.isRealtime with
      | true =>
          have vacated : k.vacated = k.preempt r.id .quantumExpired := by
            simp only [Kernel.vacated, hr, hc, if_true]
          rw [vacated] at vacant distinct ⊢
          have expired : r.quantumLeft ≤ 0 :=
            Int.not_lt.1 fun left => notRetained (.inl ⟨hc, left⟩)
          have settled : k.settle = (false, k.preempt r.id .quantumExpired) := by
            simp only [settle, hr, hc, expired, decide_true, Bool.and_self, if_true]
          refine ⟨1, by omega, by omega, .last ?_⟩
          simp only [pass, settled, vacant.dropStale, vacant.makeWay_fill distinct]
      | false =>
          have effort : ¬ r.isRealtime := by simp [hc]
          have vacated : k.vacated = k.preempt r.id .realtimeArrival := by
            simp only [Kernel.vacated, hr, hc, Bool.false_eq_true, if_false]
          have busy : ¬ r.cpu.waitingForInput := fun waiting =>
            notRetained (.inr (.inl ⟨effort, waiting⟩))
          have arrived : k.table.ready.any (·.isRealtime) = true := by
            refine Decidable.byContradiction fun none_ready => ?_
            refine notRetained (.inr (.inr ⟨effort, ?_⟩))
            intro p hp ready realtime
            exact none_ready (List.any_eq_true.2 ⟨p, List.mem_filter.2 ⟨hp, ready⟩, realtime⟩)
          have made : k.pass = (true, k.vacated) := by
            rw [h.pass_of_running hr fun realtime => (effort realtime).elim, if_neg busy,
              h.makeWay_of_running hr, hc, arrived, vacated]
            rfl
          have nonempty : 0 < k.table.processes.length :=
            List.length_pos_of_mem (h.running?_eq_some.1 hr).1
          exact ⟨2, by omega, by omega, .again made (.last (vacant.pass distinct))⟩

theorem schedule_of_retains (h : k.Coherent) {r : Process H} (hr : k.table.running? = some r)
    (kept : k.Retains r) : k.schedule = (some r.id, k) := by
  obtain ⟨hp, running⟩ := h.running?_eq_some.1 hr
  have settled : passes (k.table.processes.length + 1) k = k :=
    (Settles.last (h.pass_of_retains hr kept)).passes _ (by omega)
  simp only [schedule, settled, h.selected r hp running]

theorem schedule_of_given (h : k.Coherent)
    (given : ∀ r, k.table.running? = some r → ¬ k.Retains r) :
    k.schedule = (k.vacated.fill.scheduler.current, k.vacated.fill) := by
  obtain ⟨n, -, enough, settled⟩ := h.settles_vacated given
  simp only [schedule, settled.passes _ enough]

theorem settles_schedule (h : k.Coherent) : ∃ n, n ≤ 2 ∧ k.Settles n k.schedule.2 := by
  by_cases kept : ∃ r, k.table.running? = some r ∧ k.Retains r
  · obtain ⟨r, hr, kept⟩ := kept
    rw [h.schedule_of_retains hr kept]
    exact ⟨1, by omega, .last (h.pass_of_retains hr kept)⟩
  · have given : ∀ r, k.table.running? = some r → ¬ k.Retains r := fun r hr held =>
      kept ⟨r, hr, held⟩
    obtain ⟨n, two, -, settled⟩ := h.settles_vacated given
    rw [h.schedule_of_given given]
    exact ⟨n, two, settled⟩

end Coherent

/-! ## What scheduling does -/

/-- The processes that can have the processor next, the running one among them. -/
def candidates (k : Kernel H) : List (Process H) :=
  k.table.processes.filter fun p => p.isReady || p.isRunning

theorem mem_candidates {p : Process H} :
    p ∈ k.candidates ↔ p ∈ k.table.processes ∧ (p.isReady ∨ p.isRunning) := by
  rw [candidates, List.mem_filter, Bool.or_eq_true]

theorem Coherent.ready_vacated (h : k.Coherent) :
    k.vacated.table.ready =
      k.candidates.map fun q => if q.isRunning then q.sendBack else q := by
  have same : (fun q : Process H => (if q.isRunning then q.sendBack else q).isReady) =
      fun q => q.isReady || q.isRunning := by
    funext q
    split
    · rename_i running
      rw [running, Bool.or_true]
      rfl
    · rename_i idle
      rw [Bool.eq_false_iff.2 idle, Bool.or_false]
  rw [ProcessTable.ready, h.vacant_vacated.2, ProcessTable.mapped, List.filter_map, candidates,
    ← same]
  rfl

theorem settings_vacated (k : Kernel H) :
    k.vacated.scheduler.settings = k.scheduler.settings := by
  unfold vacated
  split
  · simp only [preempt, Scheduler.deselect]
    split <;> rfl
  · unfold dropStale
    split
    · rfl
    · split <;> rfl

theorem audit_vacated (k : Kernel H) :
    k.vacated.scheduler.audit = k.scheduler.audit ++ k.partings := by
  cases hr : k.table.running? with
  | some r =>
      simp only [vacated, partings, hr, preempt, Scheduler.deselect]
      split <;> rfl
  | none =>
      have idle : ∀ p ∈ k.table.processes, ¬ p.isRunning := List.find?_eq_none.1 hr
      simp only [vacated, partings, hr, dropStale]
      cases current : k.scheduler.current with
      | none => exact (List.append_nil _).symm
      | some id =>
          cases found : k.table.find? id with
          | none =>
              simp only [found, Option.map_none, Option.any_none]
              exact (List.append_nil _).symm
          | some p =>
              cases state : p.state with
              | running =>
                  exact absurd (decide_eq_true state) (idle p (ProcessTable.mem_of_find? found))
              | exit =>
                  simp only [found, Option.map_some, Option.any_some, Process.isExited, state]
                  rfl
              | _ =>
                  simp only [found, Option.map_some, Option.any_some, Process.isExited, state]
                  exact (List.append_nil _).symm

/-- The configured quantum goes to a realtime process. The quantum of a best-effort one is the
largest signed 64-bit word. -/
theorem granted_eq (k : Kernel H) (p : Process H) :
    k.granted p = if p.isRealtime then (k.scheduler.quantum : Int) else 0x7fffffffffffffff :=
  rfl

/-- What becomes of process `q` when process `p` is put on the processor: `p` runs with a fresh
quantum, and any other process that ran is ready again. -/
def handOver (k : Kernel H) (p q : Process H) : Process H :=
  if q.id = p.id then q.dispatch (k.granted p) else if q.isRunning then q.sendBack else q

section HandOver

variable (k : Kernel H) (p q : Process H)

@[simp] theorem origin_handOver : (k.handOver p q).origin = q.origin := by
  unfold handOver
  split
  · rfl
  · split <;> rfl

@[simp] theorem cpu_handOver : (k.handOver p q).cpu = q.cpu := by
  unfold handOver
  split
  · rfl
  · split <;> rfl

variable {k p q}

theorem not_isExited_of_candidate (h : p ∈ k.candidates) : ¬ p.isExited := by
  obtain ⟨-, ready | running⟩ := mem_candidates.1 h
  · exact Process.not_isExited_of_isReady ready
  · exact Process.not_isExited_of_isRunning running

theorem isExited_handOver (alive : q.id = p.id → ¬ q.isExited) :
    (k.handOver p q).isExited = q.isExited := by
  unfold handOver
  split
  · rename_i hid
    rw [Bool.eq_false_iff.2 (alive hid)]
    rfl
  · split
    · rename_i running
      rw [Bool.eq_false_iff.2 (Process.not_isExited_of_isRunning running)]
      rfl
    · rfl

theorem id_eq_of_handOver (h : (k.handOver p q).isRunning) : q.id = p.id := by
  unfold handOver at h
  split at h
  · assumption
  · split at h
    · exact (q.not_isRunning_sendBack h).elim
    · contradiction

end HandOver

/-- `k.Chooses p l`: `l` is `k` after process `p` was put on the processor in place of the one
that had it. -/
structure Chooses (k : Kernel H) (p : Process H) (l : Kernel H) : Prop where
  first : p.IsFirst k.candidates
  table : l.table = k.table.mapped (k.handOver p)
  settings : l.scheduler.settings = k.scheduler.settings
  current : l.scheduler.current = some p.id
  audit : l.scheduler.audit = k.scheduler.audit ++ k.partings ++ [.selected p.id k.now]

/-- `k.Rests l`: `l` is `k` after no process was found to put on the processor. -/
structure Rests (k : Kernel H) (l : Kernel H) : Prop where
  candidates : k.candidates = []
  table : l.table = k.table
  settings : l.scheduler.settings = k.scheduler.settings
  current : l.scheduler.current = none
  audit : l.scheduler.audit = k.scheduler.audit ++ k.partings

/-- What scheduling records. -/
def switches (k : Kernel H) : List Event :=
  k.schedule.2.scheduler.audit.drop k.scheduler.audit.length

theorem switches_of_kept {answer : Option Pid} (kept : k.schedule = (answer, k)) :
    k.switches = [] := by
  rw [switches, kept, List.drop_length]

theorem Chooses.mem_dispatch {p : Process H} {l : Kernel H} (chooses : k.Chooses p l) :
    p.dispatch (k.granted p) ∈ l.table.processes := by
  rw [chooses.table]
  refine List.mem_map.2 ⟨p, (mem_candidates.1 chooses.first.mem).1, ?_⟩
  rw [handOver, if_pos rfl]

theorem Chooses.switches {p : Process H} (chooses : k.Chooses p k.schedule.2) :
    k.switches = k.partings ++ [.selected p.id k.now] := by
  rw [Kernel.switches, chooses.audit, List.append_assoc, List.drop_left]

theorem Rests.switches (rests : k.Rests k.schedule.2) : k.switches = k.partings := by
  rw [Kernel.switches, rests.audit, List.drop_left]

theorem mem_partings {event : Event} (h : event ∈ k.partings) :
    (∃ r, k.table.running? = some r ∧
      event = .preempted r.id (if r.isRealtime then .quantumExpired else .realtimeArrival) k.now) ∨
    k.table.running? = none ∧ ∃ id, k.scheduler.current = some id ∧
      (∃ p, k.table.find? id = some p ∧ p.isExited) ∧ event = .exited id .terminated k.now := by
  unfold partings at h
  split at h
  · rename_i r hr
    exact .inl ⟨r, hr, List.mem_singleton.1 h⟩
  · rename_i idle
    split at h
    · rename_i id current
      split at h
      · rename_i exited
        obtain ⟨p, found, exited⟩ := (Option.any_eq_true _ _).1 exited
        exact .inr ⟨idle, id, current, ⟨p, found, exited⟩, List.mem_singleton.1 h⟩
      · contradiction
    · contradiction

namespace Coherent

theorem chooses_or_rests (h : k.Coherent) :
    (∃ p, k.Chooses p k.vacated.fill) ∨ k.Rests k.vacated.fill := by
  obtain ⟨vacant, table⟩ := h.vacant_vacated
  have becomes := h.becomes_vacated
  cases chosen : k.vacated.choice? with
  | none =>
      have filled : k.vacated.fill = k.vacated := by
        simp only [fill, vacant.unselected, chosen]
      have ready := ready_of_choice?_none chosen
      rw [h.ready_vacated, List.map_eq_nil_iff] at ready
      have idle : ∀ p ∈ k.table.processes, ¬ p.isRunning := fun p hp running => by
        have member : p ∈ k.candidates := mem_candidates.2 ⟨hp, .inr running⟩
        rw [ready] at member
        exact List.not_mem_nil member
      rw [filled]
      refine .inr ⟨ready, ?_, k.settings_vacated, vacant.unselected, k.audit_vacated⟩
      rw [table]
      exact ProcessTable.mapped_eq_self fun q hq => if_neg (idle q hq)
  | some c =>
      have filled : k.vacated.fill = k.vacated.dispatch c := by
        simp only [fill, vacant.unselected, chosen]
      have firstReady := isFirst_of_choice? chosen
      rw [h.ready_vacated] at firstReady
      obtain ⟨p, rfl, first⟩ := firstReady.of_map becomes.origin
      have origin := becomes.origin p
      have id_eq := Process.id_eq_of_origin origin
      have granted : k.vacated.granted (if p.isRunning then p.sendBack else p) = k.granted p := by
        simp only [Kernel.granted, Process.isRealtime_eq_of_origin origin, Scheduler.quantum,
          k.settings_vacated]
      rw [filled]
      refine .inl ⟨p, first, ?_, k.settings_vacated, ?_, ?_⟩
      · simp only [dispatch, granted, id_eq, table]
        rw [ProcessTable.update_mapped]
        refine ProcessTable.mapped_congr fun q _ => ?_
        unfold handOver
        by_cases hid : q.id = p.id
        · have hid' : (if q.isRunning then q.sendBack else q).id = p.id :=
            (Process.id_eq_of_origin (becomes.origin q)).trans hid
          rw [Process.only_of_eq _ hid', if_pos hid]
          split <;> rfl
        · have hid' : (if q.isRunning then q.sendBack else q).id ≠ p.id := fun same =>
            hid ((Process.id_eq_of_origin (becomes.origin q)).symm.trans same)
          rw [Process.only_of_ne _ hid', if_neg hid]
      · exact congrArg some id_eq
      · have time : k.vacated.now = k.now := becomes.now
        simp only [dispatch, Scheduler.note, Scheduler.record, Scheduler.select, k.audit_vacated,
          id_eq, time]

/-- Scheduling keeps the running process, chooses the first of the candidates, or finds none. -/
theorem schedule_cases (h : k.Coherent) :
    (∃ r, k.table.running? = some r ∧ k.Retains r ∧ k.schedule = (some r.id, k)) ∨
      (∀ r, k.table.running? = some r → ¬ k.Retains r) ∧
        ((∃ p, k.schedule.1 = some p.id ∧ k.Chooses p k.schedule.2) ∨
          k.schedule.1 = none ∧ k.Rests k.schedule.2) := by
  by_cases kept : ∃ r, k.table.running? = some r ∧ k.Retains r
  · obtain ⟨r, hr, kept⟩ := kept
    exact .inl ⟨r, hr, kept, h.schedule_of_retains hr kept⟩
  · have given : ∀ r, k.table.running? = some r → ¬ k.Retains r := fun r hr held =>
      kept ⟨r, hr, held⟩
    refine .inr ⟨given, ?_⟩
    rw [h.schedule_of_given given]
    rcases h.chooses_or_rests with ⟨p, chooses⟩ | rests
    · exact .inl ⟨p, chooses.current, chooses⟩
    · exact .inr ⟨rests.current, rests⟩

/-- What scheduling records is what vacating the processor does, and the selection if there is one;
nothing when the running process is kept. -/
theorem audit_schedule (h : k.Coherent) :
    k.schedule.2.scheduler.audit = k.scheduler.audit ++ k.switches := by
  unfold switches
  rcases h.schedule_cases with ⟨r, -, -, kept⟩ | ⟨-, ⟨p, -, chooses⟩ | ⟨-, rests⟩⟩
  · rw [kept, List.drop_length, List.append_nil]
  · rw [chooses.audit, List.append_assoc, List.drop_left]
  · rw [rests.audit, List.drop_left]

/-- Scheduling records what it does to the process on the processor, unless that is retained, and
which process it puts there. -/
theorem mem_switches (h : k.Coherent) {event : Event} (member : event ∈ k.switches) :
    ((∀ r, k.table.running? = some r → ¬ k.Retains r) ∧ event ∈ k.partings) ∨
      ∃ p, event = .selected p.id k.now ∧ k.schedule.1 = some p.id ∧
        k.Chooses p k.schedule.2 := by
  rcases h.schedule_cases with ⟨r, -, -, kept⟩ | ⟨given, ⟨p, answer, chooses⟩ | ⟨-, rests⟩⟩
  · rw [switches_of_kept kept] at member
    contradiction
  · rw [chooses.switches] at member
    rcases List.mem_append.1 member with parted | selected
    · exact .inl ⟨given, parted⟩
    · exact .inr ⟨p, List.mem_singleton.1 selected, answer, chooses⟩
  · rw [rests.switches] at member
    exact .inl ⟨given, member⟩

/-- Scheduling touches neither processors nor processes that have exited, and leaves the selection
to the process that runs. -/
theorem becomes_schedule (h : k.Coherent) :
    ∃ f, k.table.Becomes f k.schedule.2.table ∧ (∀ p, (f p).cpu = p.cpu) ∧
      (∀ p ∈ k.table.processes, (f p).isExited = p.isExited) ∧
      ∀ p ∈ k.table.processes, (f p).isRunning →
        k.schedule.2.scheduler.current = some p.id := by
  rcases h.schedule_cases with ⟨r, -, -, kept⟩ | ⟨-, ⟨p, -, chooses⟩ | ⟨-, rests⟩⟩
  · rw [kept]
    exact ⟨_, .refl k.table, fun _ => rfl, fun _ _ => rfl, h.selected⟩
  · refine ⟨k.handOver p, ?_, k.cpu_handOver p, fun q hq => ?_, fun q _ running => ?_⟩
    · rw [chooses.table]
      exact k.table.becomes_mapped (k.origin_handOver p)
    · refine isExited_handOver fun hid => ?_
      rw [h.distinct.eq_of_id hq (mem_candidates.1 chooses.first.mem).1 hid]
      exact not_isExited_of_candidate chooses.first.mem
    · rw [chooses.current, id_eq_of_handOver running]
  · rw [rests.table]
    refine ⟨_, .refl k.table, fun _ => rfl, fun _ _ => rfl, fun p hp running => ?_⟩
    have member : p ∈ k.candidates := mem_candidates.2 ⟨hp, .inr running⟩
    rw [rests.candidates] at member
    exact (List.not_mem_nil member).elim

/-- Scheduling leaves a process alone that can neither have the processor nor has it. -/
theorem mem_schedule (h : k.Coherent) {q : Process H} (hq : q ∈ k.table.processes)
    (unready : ¬ q.isReady) (idle : ¬ q.isRunning) : q ∈ k.schedule.2.table.processes := by
  rcases h.schedule_cases with ⟨r, -, -, kept⟩ | ⟨-, ⟨p, -, chooses⟩ | ⟨-, rests⟩⟩
  · rwa [kept]
  · obtain ⟨hp, eligible⟩ := mem_candidates.1 chooses.first.mem
    have other : q.id ≠ p.id := fun same => by
      rw [← h.distinct.eq_of_id hq hp same] at eligible
      exact eligible.elim unready idle
    rw [chooses.table]
    exact List.mem_map.2 ⟨q, hq, by rw [handOver, if_neg other, if_neg idle]⟩
  · rwa [rests.table]

theorem schedule (h : k.Coherent) : k.schedule.2.Coherent := by
  obtain ⟨f, becomes, -, -, kept⟩ := h.becomes_schedule
  exact h.becomes becomes kept

end Coherent

end Kernel

end Timeslice
