import Timeslice.Process.Table
import Mathlib.Data.List.Nodup
import Timeslice.Proofs.Process.Basic

/-! # What table operations do to processes

Every operation but creation and reset applies one function to each process and leaves the ids, the
order and what a process was created with alone. `Becomes` states this, and one theorem for each
operation names its function.
-/

namespace Timeslice

variable {H : Type}

namespace ProcessTable

/-- An id denotes at most one process, and a new process gets one that denotes none. -/
structure Distinct (table : ProcessTable H) : Prop where
  nodup : (table.processes.map (·.id)).Nodup
  below : ∀ p ∈ table.processes, p.id < table.nextId

theorem Distinct.eq_of_id {table : ProcessTable H} (h : table.Distinct) {p q : Process H}
    (hp : p ∈ table.processes) (hq : q ∈ table.processes) (hid : p.id = q.id) : p = q := by
  exact List.inj_on_of_nodup_map h.nodup hp hq hid

/-- Ids are handed out from 1 in the order of creation, without gaps. -/
structure Numbered (table : ProcessTable H) : Prop where
  ids : table.processes.map (·.id) = List.range' 1 table.processes.length
  nextId : table.nextId = table.processes.length + 1

theorem Numbered.distinct {table : ProcessTable H} (h : table.Numbered) : table.Distinct where
  nodup := by
    rw [h.ids]
    exact List.nodup_range'
  below p hp := by
    have hid : p.id ∈ table.processes.map (·.id) := List.mem_map_of_mem hp
    rw [h.ids, List.mem_range'_1, Nat.add_comm] at hid
    rw [h.nextId]
    exact hid.2

theorem find?_id {table : ProcessTable H} {id : Pid} {p : Process H}
    (h : table.find? id = some p) : p.id = id := by
  simpa using List.find?_some h

theorem mem_of_find? {table : ProcessTable H} {id : Pid} {p : Process H}
    (h : table.find? id = some p) : p ∈ table.processes :=
  List.mem_of_find?_eq_some h

theorem ne_of_find?_none {table : ProcessTable H} {id : Pid} (h : table.find? id = none)
    {p : Process H} (hp : p ∈ table.processes) : p.id ≠ id := by
  simpa using List.find?_eq_none.1 h p hp

theorem Distinct.find?_of_mem {table : ProcessTable H} (h : table.Distinct) {p : Process H}
    (hp : p ∈ table.processes) : table.find? p.id = some p := by
  cases hf : table.find? p.id with
  | none => exact absurd rfl (ne_of_find?_none hf hp)
  | some q => rw [h.eq_of_id (mem_of_find? hf) hp (find?_id hf)]

/-! ## One function on every process -/

/-- `table.Becomes f after`: `after` is `table` with each process `p` turned into `f p`, at the same
time and apart from the log. -/
structure Becomes (table : ProcessTable H) (f : Process H → Process H)
    (after : ProcessTable H) : Prop where
  processes : after.processes = table.processes.map f
  origin : ∀ p, (f p).origin = p.origin
  nextId : after.nextId = table.nextId
  clock : after.clock = table.clock

namespace Becomes

variable {table middle after : ProcessTable H} {f g : Process H → Process H}

theorem refl (table : ProcessTable H) : table.Becomes (fun p => p) table where
  processes := by simp
  origin _ := rfl
  nextId := rfl
  clock := rfl

theorem of_eq (h : after = table) : table.Becomes (fun p => p) after := h ▸ refl table

theorem trans (h : table.Becomes f middle) (hg : middle.Becomes g after) :
    table.Becomes (fun p => g (f p)) after where
  processes := by rw [hg.processes, h.processes, List.map_map]; rfl
  origin p := (hg.origin (f p)).trans (h.origin p)
  nextId := hg.nextId.trans h.nextId
  clock := hg.clock.trans h.clock

/-- Only what the function does to the processes of the table counts. -/
theorem congr (h : table.Becomes f after) (origin : ∀ p, (g p).origin = p.origin)
    (agree : ∀ p ∈ table.processes, f p = g p) : table.Becomes g after where
  processes := by rw [h.processes]; exact List.map_congr_left agree
  origin := origin
  nextId := h.nextId
  clock := h.clock

theorem now (h : table.Becomes f after) : after.now = table.now := congrArg Clock.ticks h.clock

theorem length (h : table.Becomes f after) :
    after.processes.length = table.processes.length := by
  rw [h.processes, List.length_map]

theorem ids (h : table.Becomes f after) :
    after.processes.map (·.id) = table.processes.map (·.id) := by
  rw [h.processes, List.map_map]
  exact List.map_congr_left fun p _ => Process.id_eq_of_origin (h.origin p)

theorem mem (h : table.Becomes f after) {q : Process H} (hq : q ∈ after.processes) :
    ∃ p ∈ table.processes, f p = q := by
  rw [h.processes] at hq
  exact List.mem_map.1 hq

theorem mem_of_mem (h : table.Becomes f after) {p : Process H} (hp : p ∈ table.processes) :
    f p ∈ after.processes := by
  rw [h.processes]
  exact List.mem_map_of_mem hp

theorem exists_of_mem (h : table.Becomes f after) {q : Process H} (hq : q ∈ after.processes) :
    ∃ p ∈ table.processes, q.id = p.id ∧ q = f p := by
  obtain ⟨p, hp, rfl⟩ := h.mem hq
  exact ⟨p, hp, Process.id_eq_of_origin (h.origin p), rfl⟩

theorem distinct (h : table.Becomes f after) (hd : table.Distinct) : after.Distinct where
  nodup := by
    rw [h.ids]
    exact hd.nodup
  below q hq := by
    obtain ⟨p, hp, rfl⟩ := h.mem hq
    rw [h.nextId, Process.id_eq_of_origin (h.origin p)]
    exact hd.below p hp

theorem numbered (h : table.Becomes f after) (hn : table.Numbered) : after.Numbered where
  ids := by rw [h.ids, h.length, hn.ids]
  nextId := by rw [h.nextId, h.length, hn.nextId]

theorem find? (h : table.Becomes f after) (id : Pid) :
    after.find? id = (table.find? id).map f := by
  have same : (fun p => decide ((f p).id = id)) = fun p : Process H => decide (p.id = id) := by
    funext p
    rw [Process.id_eq_of_origin (h.origin p)]
  rw [ProcessTable.find?, ProcessTable.find?, h.processes, List.find?_map]
  exact congrArg (fun pred => (table.processes.find? pred).map f) same

theorem filter_realtime (h : table.Becomes f after) :
    after.processes.filter (·.isRealtime) = (table.processes.filter (·.isRealtime)).map f := by
  have same : (fun p => (f p).isRealtime) = fun p : Process H => p.isRealtime := by
    funext p
    exact Process.isRealtime_eq_of_origin (h.origin p)
  rw [h.processes, List.filter_map]
  exact congrArg (fun pred => (table.processes.filter pred).map f) same

end Becomes

def mapped (table : ProcessTable H) (f : Process H → Process H) : ProcessTable H :=
  { table with processes := table.processes.map f }

theorem mapped_congr {table : ProcessTable H} {f g : Process H → Process H}
    (agree : ∀ p ∈ table.processes, f p = g p) : table.mapped f = table.mapped g := by
  rw [mapped, List.map_congr_left agree, mapped]

theorem mapped_eq_self {table : ProcessTable H} {f : Process H → Process H}
    (fixed : ∀ p ∈ table.processes, f p = p) : table.mapped f = table := by
  rw [mapped, List.map_congr_left fixed, List.map_id']

theorem update_mapped (table : ProcessTable H) (f g : Process H → Process H) (id : Pid) :
    (table.mapped f).update id g = table.mapped fun p => Process.only id g (f p) := by
  simp only [update, mapped, List.map_map]
  rfl

theorem becomes_mapped (table : ProcessTable H) {f : Process H → Process H}
    (hf : ∀ p, (f p).origin = p.origin) : table.Becomes f (table.mapped f) where
  processes := rfl
  origin := hf
  nextId := rfl
  clock := rfl

namespace Becomes

variable {table middle after : ProcessTable H} {f g : Process H → Process H}

/-! ## One function on one process -/

theorem refl_only (table : ProcessTable H) (id : Pid) :
    table.Becomes (Process.only id fun p => p) table :=
  (refl table).congr (Process.origin_only fun _ => rfl) fun p _ => by
    simp only [Process.only, ite_self]

theorem refl_only_of_none {id : Pid} (h : table.find? id = none)
    (hf : ∀ p, (f p).origin = p.origin) : table.Becomes (Process.only id f) table :=
  (refl table).congr (Process.origin_only hf) fun _ hp =>
    (Process.only_of_ne f (ne_of_find?_none h hp)).symm

theorem trans_only {id : Pid} (h : table.Becomes (Process.only id f) middle)
    (hg : middle.Becomes (Process.only id g) after) (hf : ∀ p, (f p).origin = p.origin)
    (origin : ∀ p, (g p).origin = p.origin) :
    table.Becomes (Process.only id fun p => g (f p)) after := by
  refine (h.trans hg).congr (Process.origin_only fun p => (origin (f p)).trans (hf p))
    fun p _ => ?_
  by_cases hid : p.id = id
  · have hid' : (f p).id = id := (Process.id_eq_of_origin (hf p)).trans hid
    rw [Process.only_of_eq _ hid, Process.only_of_eq _ hid, Process.only_of_eq _ hid']
  · rw [Process.only_of_ne _ hid, Process.only_of_ne _ hid, Process.only_of_ne _ hid]

/-- On one id, only what the function does to the process of that id counts. -/
theorem congr_only {id : Pid} {p : Process H} (h : table.Becomes (Process.only id f) after)
    (hn : table.Distinct) (hp : table.find? id = some p) (origin : ∀ p, (g p).origin = p.origin)
    (agree : f p = g p) : table.Becomes (Process.only id g) after := by
  refine h.congr (Process.origin_only origin) fun q hq => ?_
  by_cases hid : q.id = id
  · have hqp : q = p := hn.eq_of_id hq (mem_of_find? hp) (hid.trans (find?_id hp).symm)
    rw [Process.only_of_eq _ hid, Process.only_of_eq _ hid, hqp, agree]
  · rw [Process.only_of_ne _ hid, Process.only_of_ne _ hid]

end Becomes

/-! ## The operations -/

theorem becomes_update (table : ProcessTable H) (id : Pid) {f : Process H → Process H}
    (hf : ∀ p, (f p).origin = p.origin) :
    table.Becomes (Process.only id f) (table.update id f) where
  processes := rfl
  origin := Process.origin_only hf
  nextId := rfl
  clock := rfl

theorem becomes_note (table : ProcessTable H) (level : Log.Level) (id : Pid) (message : String)
    (fields : List (String × String)) :
    table.Becomes (fun p => p) (table.note level id message fields) where
  processes := by simp [note]
  origin _ := rfl
  nextId := rfl
  clock := rfl

theorem becomes_advance (table : ProcessTable H) :
    ({ table with clock := table.clock.tick } : ProcessTable H).Becomes
      (Process.elapse · table.advance.now) table.advance where
  processes := rfl
  origin p := Process.origin_elapse p table.advance.now
  nextId := rfl
  clock := rfl

theorem Distinct.becomes_block {table : ProcessTable H} (h : table.Distinct) (id : Pid)
    (duration : Nat) :
    table.Becomes (Process.only id fun p => p.feel table.now (.block duration))
      (table.block id duration).2 := by
  have origin (p : Process H) : (p.feel table.now (.block duration)).origin = p.origin := by simp
  cases hf : table.find? id with
  | none =>
      simp only [block, hf]
      exact Becomes.refl_only_of_none hf origin
  | some p =>
      simp only [block, hf]
      split
      · rename_i running
        have blocked := becomes_update table id (f := (·.block table.now duration)) fun _ => rfl
        refine (blocked.trans (becomes_note _ _ _ _ _)).congr_only h hf origin ?_
        simp only [Process.feel, running, if_true]
      · rename_i idle
        refine (Becomes.refl_only table id).congr_only h hf origin ?_
        simp only [Process.feel, idle, if_false, Bool.false_eq_true]

theorem becomes_terminate (table : ProcessTable H) (id : Pid) :
    table.Becomes (Process.only id Process.terminate) (table.terminate id).2 := by
  have origin (p : Process H) : p.terminate.origin = p.origin := rfl
  cases hf : table.find? id with
  | none =>
      simp only [terminate, hf]
      exact Becomes.refl_only_of_none hf origin
  | some p =>
      simp only [terminate, hf]
      exact (becomes_update table id origin).trans (becomes_note _ _ _ _ _)

theorem Distinct.becomes_apply {table : ProcessTable H} (h : table.Distinct) (id : Pid)
    (effect : Effect) :
    table.Becomes (Process.only id fun p => p.feel table.now effect) (apply id table effect) := by
  cases effect with
  | exit => exact becomes_terminate table id
  | block ticks => exact h.becomes_block id ticks
  | output text => exact Becomes.refl_only table id

theorem Distinct.becomes_foldl_apply {table : ProcessTable H} (h : table.Distinct) (id : Pid)
    (effects : List Effect) :
    table.Becomes (Process.only id fun p => effects.foldl (Process.feel table.now) p)
      (effects.foldl (apply id) table) := by
  induction effects generalizing table with
  | nil => exact Becomes.refl_only table id
  | cons effect rest ih =>
      have first := h.becomes_apply id effect
      have later := ih (first.distinct h)
      rw [first.now] at later
      exact first.trans_only later (Process.origin_feel table.now · effect)
        (Process.origin_foldl_feel table.now rest)

theorem texts_applyEffects {table : ProcessTable H} {id : Pid} {p : Process H}
    (h : table.find? id = some p) : (table.applyEffects id).1 = p.cpu.texts := by
  simp only [applyEffects, h]
  refine List.filterMap_congr fun effect _ => ?_
  cases effect <;> rfl

/-- The effects of a process act on that process alone. -/
theorem Distinct.becomes_applyEffects {table : ProcessTable H} (h : table.Distinct) (id : Pid) :
    table.Becomes (Process.only id (Process.absorb table.now)) (table.applyEffects id).2 := by
  cases hf : table.find? id with
  | none =>
      simp only [applyEffects, hf]
      exact Becomes.refl_only_of_none hf (Process.origin_absorb table.now)
  | some p =>
      simp only [applyEffects, hf]
      have taken := becomes_update table id
        (f := fun q => q.withCpu q.cpu.withoutEffects) fun q => rfl
      have applied := (taken.distinct h).becomes_foldl_apply id p.cpu.effects
      rw [taken.now] at applied
      have both := taken.trans_only applied (fun _ => rfl)
        (Process.origin_foldl_feel table.now p.cpu.effects)
      exact both.congr_only h hf (Process.origin_absorb table.now) rfl

theorem eq_of_create {table after : ProcessTable H} {name source : String} {arrivalTime : Nat}
    {schedulingClass : SchedulingClass} {priority : Priority} {id : Pid}
    (h : table.create name source arrivalTime schedulingClass priority = (.ok id, after)) :
    ∃ p, Process.create table.nextId name source arrivalTime schedulingClass priority = .ok p ∧
      id = table.nextId ∧ after.processes = table.processes ++ [p] ∧
      after.clock = table.clock := by
  unfold create at h
  split at h
  · simp at h
  · rename_i p created
    cases h
    exact ⟨p, created, rfl, rfl, rfl⟩

theorem Distinct.create {table : ProcessTable H} (h : table.Distinct) (name source : String)
    (arrivalTime : Nat) (schedulingClass : SchedulingClass) (priority : Priority) :
    (table.create name source arrivalTime schedulingClass priority).2.Distinct := by
  unfold ProcessTable.create
  split
  · exact h
  · rename_i p created
    have id_eq : p.id = table.nextId := Process.id_of_create created
    constructor
    · rw [note, List.map_append, List.map_cons, List.map_nil, id_eq, ← List.concat_eq_append]
      refine List.Nodup.concat (fun member => ?_) h.nodup
      obtain ⟨q, hq, hid⟩ := List.mem_map.1 member
      exact absurd hid (Nat.ne_of_lt (h.below q hq))
    · intro q hq
      rcases List.mem_append.1 hq with hq | hq
      · exact Nat.lt_succ_of_lt (h.below q hq)
      · rw [List.mem_singleton.1 hq, id_eq]
        exact Nat.lt_succ_self _

theorem Numbered.create {table : ProcessTable H} (h : table.Numbered) (name source : String)
    (arrivalTime : Nat) (schedulingClass : SchedulingClass) (priority : Priority) :
    (table.create name source arrivalTime schedulingClass priority).2.Numbered := by
  unfold ProcessTable.create
  split
  · exact h
  · rename_i p created
    have id_eq : p.id = table.nextId := Process.id_of_create created
    constructor
    · simp only [note, List.map_append, List.map_cons, List.map_nil, List.length_append,
        List.length_cons, List.length_nil, Nat.zero_add, List.range'_1_concat, h.ids, id_eq,
        h.nextId, Nat.add_comm 1]
    · simp only [note, Pid.next, h.nextId, List.length_append, List.length_cons, List.length_nil,
        Nat.zero_add, Nat.succ_eq_add_one]

theorem becomes_setHandler (table : ProcessTable H) (id : Pid) (handler : H) :
    table.Becomes (Process.only id (Process.handledBy handler)) (table.setHandler id handler).2 :=
  becomes_update table id fun _ => rfl

theorem Distinct.becomes_supply [SyscallHandler H] {table : ProcessTable H} (h : table.Distinct)
    (id : Pid) (text : String) :
    table.Becomes (Process.only id (Process.receive text)) (table.supply id text).2 := by
  have origin := Process.origin_receive (H := H) text
  cases hf : table.find? id with
  | none =>
      simp only [supply, hf]
      exact Becomes.refl_only_of_none hf origin
  | some p =>
      simp only [supply, hf]
      split
      · rename_i cpu hs
        have received := becomes_update table id (f := (·.withCpu cpu)) fun _ => rfl
        refine (received.trans (becomes_note _ _ _ _ _)).congr_only h hf origin ?_
        simp only [Process.receive, hs]
      · rename_i answer cpu refused answered
        refine (Becomes.refl_only table id).congr_only h hf origin ?_
        unfold Process.receive
        split
        · rename_i hs
          rw [answered] at hs
          exact (refused (congrArg Prod.fst hs)).elim
        · rfl

end ProcessTable

end Timeslice
