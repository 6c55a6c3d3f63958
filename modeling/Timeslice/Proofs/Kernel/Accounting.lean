import Mathlib.Algebra.GroupWithZero.Nat
import Timeslice.Proofs.Kernel.Change
import Timeslice.Services

/-! # Where time goes

From its admission on, a process is charged every tick, as waiting or as running, but for the ticks
that blocks keep it from. This is an equation between the counters of the process, its birth, its
stays and the clock. It is kept by each operation as long as the clock has not reached its limit.
-/

namespace Timeslice

variable {H : Type}

/-! ## Births and stays -/

def Birth.admission (birth : Birth) : Nat := max (birth.now + 1) birth.arrivalTime

theorem Birth.admission_pos (birth : Birth) : 0 < birth.admission := by
  unfold admission
  omega

/-- The ticks that a stay, when it is over, has kept its process from being charged. -/
def Stay.uncharged (stay : Stay) : Nat := max stay.duration 1 - 1

def Stay.sum (stays : List Stay) : Nat := (stays.map uncharged).sum

theorem Stay.sum_concat (stays : List Stay) (stay : Stay) :
    sum (stays ++ [stay]) = sum stays + stay.uncharged := by
  simp [sum]

/-- `p.Balances birth stays now`: the counters of `p` at `now` are those of a process with that
birth and those stays. -/
structure Process.Balances (p : Process H) (birth : Birth) (stays : List Stay) (now : Nat) :
    Prop where
  new : p.state = .new → p.waitingTime = 0 ∧ p.executionTime = 0 ∧ stays = [] ∧
    birth.now ≤ now ∧ now < birth.admission
  charged : p.state = .ready ∨ p.state = .running →
    p.waitingTime + p.executionTime + Stay.sum stays + birth.admission = now + 1
  /-- The last stay is the one that the process is under. -/
  blocked : p.state = .blocked → ∃ earlier last, stays = earlier ++ [last] ∧
    p.blockEnd = Word.add last.since last.duration ∧
    last.since ≤ now ∧ now < last.since + max last.duration 1 ∧
    p.waitingTime + p.executionTime + Stay.sum earlier + (now - last.since) + birth.admission =
      now + 1
  bounded : p.waitingTime + p.executionTime ≤ now

namespace Process.Balances

variable {p q : Process H} {birth : Birth} {stays : List Stay} {now : Nat}

/-! ## By the state of the process -/

theorem of_new (state : p.state = .new) (waited : p.waitingTime = 0) (ran : p.executionTime = 0)
    (unstayed : stays = []) (born : birth.now ≤ now) (early : now < birth.admission) :
    p.Balances birth stays now where
  new _ := ⟨waited, ran, unstayed, born, early⟩
  charged able := by simp [state] at able
  blocked blocked := by simp [state] at blocked
  bounded := by omega

theorem of_charged (state : p.state = .ready ∨ p.state = .running)
    (balance : p.waitingTime + p.executionTime + Stay.sum stays + birth.admission = now + 1) :
    p.Balances birth stays now where
  new new := by simp [new] at state
  charged _ := balance
  blocked blocked := by simp [blocked] at state
  bounded := by
    have admitted := birth.admission_pos
    omega

theorem of_blocked (state : p.state = .blocked) {last : Stay}
    (blockEnd : p.blockEnd = Word.add last.since last.duration) (since : last.since ≤ now)
    (early : now < last.since + max last.duration 1)
    (balance : p.waitingTime + p.executionTime + Stay.sum stays + (now - last.since) +
      birth.admission = now + 1) : p.Balances birth (stays ++ [last]) now where
  new new := by simp [new] at state
  charged able := by simp [state] at able
  blocked _ := ⟨stays, last, rfl, blockEnd, since, early, balance⟩
  bounded := by
    have admitted := birth.admission_pos
    omega

theorem of_exit (state : p.state = .exit) (bounded : p.waitingTime + p.executionTime ≤ now) :
    p.Balances birth stays now where
  new new := by simp [new] at state
  charged able := by simp [state] at able
  blocked blocked := by simp [blocked] at state
  bounded := bounded

/-! ## Steps -/

/-- A tick below the limit of the clock charges the process, or is one that its stay accounts for,
or is before its admission. -/
theorem elapses (h : p.Balances birth stays now) (arrival : birth.arrivalTime = p.arrivalTime)
    (below : now + 1 < Word.limit) (elapses : p.Elapses (now + 1) q) :
    q.Balances birth stays (now + 1) := by
  cases elapses with
  | early state early =>
      obtain ⟨waited, ran, unstayed, born, -⟩ := h.new state
      refine of_new state waited ran unstayed (by omega) ?_
      unfold Birth.admission
      omega
  | arrived state due =>
      obtain ⟨waited, ran, rfl, born, early⟩ := h.new state
      have admission : birth.admission = now + 1 := by
        unfold Birth.admission at early ⊢
        omega
      refine of_charged (.inl rfl) ?_
      show p.waitingTime + 1 + p.executionTime + Stay.sum [] + birth.admission = now + 1 + 1
      rw [waited, ran, admission, Stay.sum, List.map_nil, List.sum_nil]
      omega
  | waited state =>
      have balance := h.charged (.inl state)
      refine of_charged (.inl state) ?_
      show p.waitingTime + 1 + p.executionTime + Stay.sum stays + birth.admission = now + 1 + 1
      omega
  | ran state =>
      have balance := h.charged (.inr state)
      refine of_charged (.inr state) ?_
      show p.waitingTime + (p.executionTime + 1) + Stay.sum stays + birth.admission = now + 1 + 1
      omega
  | stayed state early =>
      obtain ⟨earlier, last, rfl, blockEnd, since, -, balance⟩ := h.blocked state
      -- The end of the stay is ahead, so it does not matter that it may be cut to the limit.
      have ahead : now + 1 < last.since + last.duration := by
        rw [blockEnd, Word.add] at early
        omega
      exact of_blocked state blockEnd (by omega) (by omega) (by omega)
  | woke state due =>
      obtain ⟨earlier, last, rfl, blockEnd, since, early, balance⟩ := h.blocked state
      have passed : last.since + last.duration ≤ now + 1 := by
        rw [blockEnd, Word.add] at due
        omega
      have uncharged : last.uncharged = now - last.since := by
        unfold Stay.uncharged
        omega
      refine of_charged (.inl rfl) ?_
      show p.waitingTime + 1 + p.executionTime + Stay.sum (earlier ++ [last]) + birth.admission =
        now + 1 + 1
      rw [Stay.sum_concat, uncharged]
      omega
  | ended state => exact of_exit state (Nat.le_succ_of_le h.bounded)

end Process.Balances

namespace Kernel

variable {k : Kernel H} {operation : Operation H} {p q : Process H} {birth : Birth}
  {births : List Birth} {stays more : List Stay}

/-- An operation that is not a tick leaves counters alone. -/
theorem Change.counters (h : k.Change operation p stays q) (untimed : operation ≠ .advance) :
    q.waitingTime = p.waitingTime ∧ q.executionTime = p.executionTime := by
  cases h with
  | elapsed due => exact (untimed due).elim
  | dispatched due able => exact ⟨rfl, rfl⟩
  | sentBack due running => exact ⟨rfl, rfl⟩
  | spared _ _ => exact ⟨rfl, rfl⟩
  | blocked may running duration _ => exact ⟨rfl, rfl⟩
  | ended may cpu => exact ⟨rfl, rfl⟩
  | cutShort mayBlock mayEnd running duration cpu => exact ⟨rfl, rfl⟩

theorem Change.balances (h : k.Change operation p more q) (untimed : operation ≠ .advance)
    (balances : p.Balances birth stays k.now) : q.Balances birth (stays ++ more) k.now := by
  cases h with
  | elapsed due => exact (untimed due).elim
  | dispatched due able =>
      rw [List.append_nil]
      exact .of_charged (.inr rfl)
        (balances.charged (able.imp of_decide_eq_true of_decide_eq_true))
  | sentBack due running =>
      rw [List.append_nil]
      exact .of_charged (.inl rfl) (balances.charged (.inr (of_decide_eq_true running)))
  | spared _ _ =>
      rw [List.append_nil]
      exact ⟨balances.new, balances.charged, balances.blocked, balances.bounded⟩
  | blocked may running duration _ =>
      have balance := balances.charged (.inr (of_decide_eq_true running))
      refine .of_blocked rfl rfl (Nat.le_refl k.now) ?_ ?_
      · show k.now < k.now + max duration 1
        omega
      · show p.waitingTime + p.executionTime + Stay.sum stays + (k.now - k.now) +
          birth.admission = k.now + 1
        omega
  | ended may cpu => exact .of_exit rfl balances.bounded
  | cutShort mayBlock mayEnd running duration cpu => exact .of_exit rfl balances.bounded

/-! ## The sum of all that was executed -/

def executionSum (k : Kernel H) : Nat := (k.table.processes.map (·.executionTime)).sum

theorem sum_executionTime_elapse (processes : List (Process H)) (now : Nat) :
    ((processes.map (·.elapse now)).map (·.executionTime)).sum =
      (processes.map (·.executionTime)).sum +
        (processes.filter (·.state = .running)).length := by
  induction processes with
  | nil => rfl
  | cons p rest ih =>
      simp only [List.map_cons, List.sum_cons, ih, p.executionTime_elapse, Process.isRunning,
        List.filter_cons]
      by_cases running : p.state = .running
      · simp only [running, decide_true, if_true, List.length_cons, Bool.toNat_true]
        omega
      · simp only [running, decide_false, if_false, Bool.false_eq_true, Bool.toNat_false]
        omega

/-- As at most one process runs, a tick is charged to one process as running at most. -/
theorem Coherent.executionSum_advance (h : k.Coherent) :
    k.advance.executionSum ≤ k.executionSum + 1 := by
  have sum := sum_executionTime_elapse k.table.processes k.advance.now
  have one := h.length_running
  unfold ProcessTable.inState at one
  show ((k.table.processes.map (·.elapse k.advance.now)).map (·.executionTime)).sum ≤ _
  rw [sum, executionSum]
  omega

/-! ## One operation -/

theorem now_advance (below : k.advance.now < Word.limit) : k.advance.now = k.now + 1 := by
  have added : k.advance.now = min (k.now + 1) Word.limit := rfl
  omega

/-- Blocks are of processes that there are. -/
theorem exists_of_mem_stays [SyscallHandler H] {stay : Stay} (h : stay ∈ k.stays operation) :
    ∃ p ∈ k.table.processes, p.id = stay.process := by
  have found {id : Pid} {p : Process H} (hp : k.table.find? id = some p) (durations : List Nat)
      (member : stay ∈ durations.map (Stay.mk id k.now)) :
      ∃ p ∈ k.table.processes, p.id = stay.process := by
    obtain ⟨duration, -, rfl⟩ := List.mem_map.1 member
    exact ⟨p, ProcessTable.mem_of_find? hp, ProcessTable.find?_id hp⟩
  cases operation with
  | block id duration =>
      simp only [Kernel.stays, ProcessTable.fst_block] at h
      split at h
      · rename_i running
        obtain ⟨p, hp, -⟩ := (Option.any_eq_true _ _).1 running
        exact found hp [duration] h
      · contradiction
  | applyEffects id =>
      cases hp : k.table.find? id with
      | none => simp [Kernel.stays, ProcessTable.effectStays, hp] at h
      | some p => exact found hp _ h
  | execute =>
      simp only [Kernel.stays, executionStays] at h
      split at h
      · contradiction
      · split at h
        · contradiction
        · rename_i p hp
          split at h
          · split at h
            · exact found hp _ h
            · contradiction
          · contradiction
  | _ => contradiction

/-- `k.Accounted births stays`: the counters of every process of `k` are those that its birth and
its stays account for. -/
structure Accounted (k : Kernel H) (births : List Birth) (stays : List Stay) : Prop where
  coherent : k.Coherent
  balances : ∀ p ∈ k.table.processes, ∃ birth, births.filter (·.process = p.id) = [birth] ∧
    birth.arrivalTime = p.arrivalTime ∧
    p.Balances birth (stays.filter (·.process = p.id)) k.now
  births : ∀ birth ∈ births, ∃ p ∈ k.table.processes, p.id = birth.process
  stays : ∀ stay ∈ stays, ∃ p ∈ k.table.processes, p.id = stay.process
  executed : k.executionSum ≤ k.now

theorem accounted_empty (minimum : Log.Level) : (empty minimum : Kernel H).Accounted [] [] where
  coherent := coherent_empty minimum
  balances _ hp := (List.not_mem_nil hp).elim
  births _ member := (List.not_mem_nil member).elim
  stays _ member := (List.not_mem_nil member).elim
  executed := Nat.le_refl 0

variable [SyscallHandler H]

namespace Evolves

variable {f : Process H → Process H} {created : Option (Process H)}

/-- The process that is created has an id of its own. -/
theorem id_ne_created (e : k.Evolves operation f created) (h : (k.perform operation).Coherent)
    {new : Process H} (hn : new ∈ created) (hp : p ∈ k.table.processes) : new.id ≠ p.id := by
  have nodup := h.distinct.nodup
  rw [e.processes, Option.mem_def.1 hn, Option.toList_some, List.map_append, List.map_cons,
    List.map_nil, ← List.concat_eq_append, List.nodup_concat] at nodup
  intro same
  refine nodup.1 ?_
  rw [List.map_map]
  refine List.mem_map.2 ⟨p, hp, ?_⟩
  exact (Process.id_eq_of_origin (e.origin p)).trans same.symm

theorem filter_births (e : k.Evolves operation f created) (h : (k.perform operation).Coherent)
    (hp : p ∈ k.table.processes) : (k.births operation).filter (·.process = p.id) = [] := by
  rw [e.births]
  refine List.filter_eq_nil_iff.2 fun birth member same => ?_
  obtain ⟨new, hn, rfl⟩ := List.mem_map.1 member
  exact e.id_ne_created h (Option.mem_toList.1 hn) hp (of_decide_eq_true same)

theorem balances (e : k.Evolves operation f created) (hp : p ∈ k.table.processes)
    (below : (k.perform operation).now < Word.limit) (arrival : birth.arrivalTime = p.arrivalTime)
    (balances : p.Balances birth stays k.now) :
    (f p).Balances birth (stays ++ (k.stays operation).filter (·.process = p.id))
      (k.perform operation).now := by
  have change := e.change p hp
  by_cases timed : operation = .advance
  · subst timed
    have tick := now_advance below
    have unstayed : (k.stays .advance).filter (·.process = p.id) = [] := rfl
    rw [unstayed] at change ⊢
    have elapsed := balances.elapses arrival (tick ▸ below) (p.elapses (k.now + 1))
    rw [← tick] at elapsed
    rw [List.append_nil, change.of_advance.2]
    exact elapsed
  · rw [e.now timed]
    exact change.balances timed balances

/-- A process starts its life with nothing charged. -/
theorem balances_created (e : k.Evolves operation f created) {new : Process H}
    (hn : new ∈ created) : new.executionTime = 0 ∧
      new.Balances ⟨new.id, k.now, new.arrivalTime⟩ [] k.now := by
  obtain ⟨_, _, _, _, _, _, made⟩ := e.fresh new hn
  obtain ⟨program, -, rfl⟩ := Process.eq_of_create made
  refine ⟨rfl, .of_new rfl rfl rfl rfl (Nat.le_refl k.now) ?_⟩
  unfold Birth.admission
  show k.now < max (k.now + 1) _
  omega

theorem ne_advance (e : k.Evolves operation f created) {new : Process H} (hn : new ∈ created) :
    operation ≠ .advance := fun timed => by
  subst timed
  have births := e.births
  rw [Option.mem_def.1 hn] at births
  contradiction

theorem executionSum_eq (e : k.Evolves operation f created) (untimed : operation ≠ .advance) :
    (k.perform operation).executionSum = k.executionSum := by
  have fresh : (created.toList.map (·.executionTime)).sum = 0 := by
    cases made : created with
    | none => rfl
    | some new => simp [(e.balances_created (Option.mem_def.2 made)).1]
  have kept : ∀ p ∈ k.table.processes, (f p).executionTime = p.executionTime := fun p hp =>
    ((e.change p hp).counters untimed).2
  unfold executionSum
  rw [e.processes, List.map_append, List.sum_append, fresh, List.map_map, Nat.add_zero]
  exact congrArg List.sum (List.map_congr_left kept)

end Evolves

/-- While the clock is below its limit, a run moves it forward. -/
theorem Coherent.now_lt (h : k.Coherent) (kept : ¬ operation.isReset)
    (below : (k.perform operation).now < Word.limit) : k.now < Word.limit := by
  by_cases timed : operation = .advance
  · subst timed
    have tick := now_advance below
    have below' : k.advance.now < Word.limit := below
    omega
  · obtain ⟨f, created, evolves⟩ := h.evolves operation kept
    rwa [← evolves.now timed]

/-- Nothing is on record of a process that is yet to be created. -/
theorem Accounted.filter_created (a : k.Accounted births stays) {f : Process H → Process H}
    {created : Option (Process H)} (e : k.Evolves operation f created) {new : Process H}
    (hn : new ∈ created) : births.filter (·.process = new.id) = [] ∧
      (stays ++ k.stays operation).filter (·.process = new.id) = [] := by
  have other {id : Pid} (known : ∃ p ∈ k.table.processes, p.id = id) : id ≠ new.id := by
    obtain ⟨p, hp, rfl⟩ := known
    exact (e.id_ne_created (a.coherent.perform operation) hn hp).symm
  refine ⟨List.filter_eq_nil_iff.2 fun birth member same => ?_,
    List.filter_eq_nil_iff.2 fun stay member same => ?_⟩
  · exact other (a.births birth member) (of_decide_eq_true same)
  · have known : ∃ p ∈ k.table.processes, p.id = stay.process :=
      (List.mem_append.1 member).elim (a.stays stay) exists_of_mem_stays
    exact other known (of_decide_eq_true same)

theorem Accounted.perform (a : k.Accounted births stays) (kept : ¬ operation.isReset)
    (below : (k.perform operation).now < Word.limit) :
    (k.perform operation).Accounted (births ++ k.births operation)
      (stays ++ k.stays operation) := by
  obtain ⟨f, created, evolves⟩ := a.coherent.evolves operation kept
  have coherent := a.coherent.perform operation
  have mem (p) (hp : p ∈ k.table.processes) :
      ∃ q ∈ (k.perform operation).table.processes, q.id = p.id :=
    ⟨f p, evolves.mem_of_mem hp, Process.id_eq_of_origin (evolves.origin p)⟩
  constructor
  case coherent => exact coherent
  case balances =>
    intro q hq
    rw [evolves.processes] at hq
    rcases List.mem_append.1 hq with old | new
    · obtain ⟨p, hp, rfl⟩ := List.mem_map.1 old
      obtain ⟨birth, born, arrival, balances⟩ := a.balances p hp
      have same : (f p).id = p.id := Process.id_eq_of_origin (evolves.origin p)
      have arrivalTime : (f p).arrivalTime = p.arrivalTime :=
        congrArg Origin.arrivalTime (evolves.origin p)
      refine ⟨birth, ?_, arrival.trans arrivalTime.symm, ?_⟩
      · rw [same, List.filter_append, born, evolves.filter_births coherent hp, List.append_nil]
      · rw [same, List.filter_append]
        exact evolves.balances hp below arrival balances
    · have hn := Option.mem_toList.1 new
      obtain ⟨unborn, unstayed⟩ := a.filter_created evolves hn
      refine ⟨⟨q.id, k.now, q.arrivalTime⟩, ?_, rfl, ?_⟩
      · rw [List.filter_append, unborn, evolves.births, Option.mem_def.1 hn]
        simp
      · rw [evolves.now (evolves.ne_advance hn), unstayed]
        exact (evolves.balances_created hn).2
  case births =>
    intro birth member
    rcases List.mem_append.1 member with old | new
    · obtain ⟨p, hp, hid⟩ := a.births birth old
      rw [← hid]
      exact mem p hp
    · rw [evolves.births] at new
      obtain ⟨p, hp, rfl⟩ := List.mem_map.1 new
      refine ⟨p, ?_, rfl⟩
      rw [evolves.processes]
      exact List.mem_append_right _ hp
  case stays =>
    intro stay member
    have found : ∃ p ∈ k.table.processes, p.id = stay.process :=
      (List.mem_append.1 member).elim (a.stays stay) exists_of_mem_stays
    obtain ⟨p, hp, hid⟩ := found
    rw [← hid]
    exact mem p hp
  case executed =>
    by_cases timed : operation = .advance
    · subst timed
      have tick := now_advance below
      have sum := a.coherent.executionSum_advance
      have executed := a.executed
      show k.advance.executionSum ≤ k.advance.now
      omega
    · rw [evolves.executionSum_eq timed, evolves.now timed]
      exact a.executed

/-! ## Runs -/

def along {α : Type} (note : Kernel H → Operation H → List α) :
    Kernel H → List (Operation H) → List α
  | _, [] => []
  | k, operation :: rest => note k operation ++ (k.perform operation).along note rest

theorem Coherent.now_lt_performAll (h : k.Coherent) {operations : List (Operation H)}
    (kept : ∀ operation ∈ operations, ¬ operation.isReset)
    (below : (k.performAll operations).now < Word.limit) : k.now < Word.limit := by
  induction operations generalizing k with
  | nil => exact below
  | cons operation rest ih =>
      refine h.now_lt (kept operation List.mem_cons_self) ?_
      exact ih (h.perform operation) (fun next hn => kept next (List.mem_cons_of_mem _ hn)) below

theorem Accounted.performAll (a : k.Accounted births stays) {operations : List (Operation H)}
    (kept : ∀ operation ∈ operations, ¬ operation.isReset)
    (below : (k.performAll operations).now < Word.limit) :
    (k.performAll operations).Accounted (births ++ k.along Kernel.births operations)
      (stays ++ k.along Kernel.stays operations) := by
  induction operations generalizing k births stays with
  | nil =>
      simp only [along, List.append_nil]
      exact a
  | cons operation rest ih =>
      have later (next) (hn : next ∈ rest) : ¬ next.isReset := kept next (List.mem_cons_of_mem _ hn)
      have first := kept operation List.mem_cons_self
      have reached := (a.coherent.perform operation).now_lt_performAll later below
      simp only [along, ← List.append_assoc]
      exact ih (a.perform first reached) later below

/-- Over a run that resets nothing, with the clock below its limit, every process has one birth, and
its counters are those that its birth, its stays and the clock account for. So no counter comes to
its limit before the clock does, and no more ticks are executed than the clock has counted. -/
theorem time_conserved (minimum : Log.Level) (operations : List (Operation H))
    (kept : ∀ operation ∈ operations, ¬ operation.isReset)
    (below : ((empty minimum).performAll operations).now < Word.limit) :
    let start : Kernel H := empty minimum
    let k := start.performAll operations
    (∀ p ∈ k.table.processes,
      (∃ birth, (start.along Kernel.births operations).filter (·.process = p.id) = [birth] ∧
        birth.arrivalTime = p.arrivalTime ∧
        p.Balances birth ((start.along Kernel.stays operations).filter (·.process = p.id)) k.now) ∧
      p.waitingTime + p.executionTime ≤ k.now ∧ p.waitingTime + p.executionTime < Word.limit) ∧
    (k.table.processes.map (·.executionTime)).sum ≤ k.now := by
  intro start k
  have accounted := (accounted_empty minimum).performAll kept below
  refine ⟨fun p hp => ?_, accounted.executed⟩
  obtain ⟨birth, born, arrival, balances⟩ := accounted.balances p hp
  have bounded := balances.bounded
  exact ⟨⟨birth, born, arrival, balances⟩, bounded, Nat.lt_of_le_of_lt bounded below⟩

def nap : List (Operation Services) :=
  [.create "" "" 0 .realtime .high, .advance, .schedule, .block 1 3, .advance, .advance, .advance,
    .schedule, .advance]

theorem time_conserved_nap :
    (∀ operation ∈ nap, ¬ operation.isReset) ∧ ((empty .info).performAll nap).now < Word.limit ∧
      ∃ p ∈ ((empty .info).performAll nap).table.processes,
        p.state = .running ∧ p.waitingTime = 2 ∧ p.executionTime = 1 ∧
          p.Balances ⟨.first, 0, 0⟩ [⟨.first, 1, 3⟩] 5 := by
  have kept : ∀ operation ∈ nap, ¬ operation.isReset := by decide
  have below : ((empty .info).performAll nap).now < Word.limit := by decide +kernel
  have counted : ∃ p ∈ ((empty .info).performAll nap).table.processes,
      p.id = .first ∧ p.state = .running ∧ p.waitingTime = 2 ∧ p.executionTime = 1 := by
    decide +kernel
  have born : ((empty .info).along Kernel.births nap).filter (·.process = .first) =
      [⟨.first, 0, 0⟩] := by
    decide +kernel
  have stayed : ((empty .info).along Kernel.stays nap).filter (·.process = .first) =
      [⟨.first, 1, 3⟩] := by
    decide +kernel
  have now : ((empty .info).performAll nap).now = 5 := by decide +kernel
  obtain ⟨p, hp, id, state, waited, ran⟩ := counted
  obtain ⟨⟨birth, born', -, balances⟩, -⟩ := (time_conserved .info nap kept below).1 p hp
  rw [id, born] at born'
  rw [id, stayed, now] at balances
  cases born'
  exact ⟨kept, below, p, hp, state, waited, ran, balances⟩

end Kernel

end Timeslice
