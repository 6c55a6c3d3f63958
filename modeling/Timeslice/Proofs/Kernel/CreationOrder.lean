import Mathlib.Data.List.Pairwise
import Mathlib.Data.List.Perm.Basic
import Timeslice.Proofs.Kernel.Relabelling
import Timeslice.Services

/-! # The order of creation

Processes that are created in another order get other ids and stand elsewhere in the table. If no
two of them tie, that is all: every run of ticks then goes the same way under the other ids.
-/

namespace Timeslice

variable {H : Type}

structure Recipe (H : Type) where
  source : String
  arrivalTime : Nat
  schedulingClass : SchedulingClass
  priority : Priority
  /-- The handler installed at once, if there is one. -/
  handler : Option H
  deriving DecidableEq

namespace Recipe

/-- Whether two processes would tie. The priority of best-effort processes does not count. -/
def Ties (r s : Recipe H) : Prop :=
  r.schedulingClass = s.schedulingClass ∧ r.arrivalTime = s.arrivalTime ∧
    (r.schedulingClass = .realtime → r.priority = s.priority)

def process? (r : Recipe H) (id : Pid) (name : String) : Option (Process H) :=
  match Program.parse r.source with
  | .ok program => some {
      id, name
      source := r.source
      arrivalTime := r.arrivalTime
      schedulingClass := r.schedulingClass
      priority := r.priority
      state := .new
      cpu := { (Cpu.load program : Cpu H) with handler := r.handler }
      blockEnd := 0
      quantumLeft := 0
      executionTime := 0
      waitingTime := 0 }
  | .error _ => none

end Recipe

namespace Process

def bare (p : Process H) : Process H := { p with id := 0, name := "" }

/-- What a process was created from, read off the process before it first runs. -/
def recipe (p : Process H) : Recipe H :=
  ⟨p.source, p.arrivalTime, p.schedulingClass, p.priority, p.cpu.handler⟩

theorem eq_of_bare {p q : Process H} (same : p.bare = q.bare) :
    p = { q with id := p.id, name := p.name } := by
  cases p
  cases q
  simp only [bare, Process.mk.injEq] at same ⊢
  simp [same]

theorem ties_recipe {p q : Process H} (ties : p.Ties q) : p.recipe.Ties q.recipe := by
  obtain ⟨realtime, level, arrival⟩ := ties
  have same : p.schedulingClass = q.schedulingClass := by
    unfold isRealtime SchedulingClass.isRealtime at realtime
    cases hp : p.schedulingClass <;> cases hq : q.schedulingClass <;> simp_all
  refine ⟨same, arrival, fun rt : p.schedulingClass = .realtime => ?_⟩
  have levels : p.priority.level = q.priority.level :=
    (level_urgency_eq_iff realtime).1 level (decide_eq_true rt)
  show p.priority = q.priority
  cases hp : p.priority <;> cases hq : q.priority <;> simp_all [Priority.level]

end Process

namespace Recipe

variable {r : Recipe H} {id : Pid} {name : String} {p : Process H}

theorem eq_of_process? (h : r.process? id name = some p) :
    p.id = id ∧ p.name = name ∧ p.recipe = r ∧ p.state = .new := by
  unfold process? at h
  split at h
  · cases h
    exact ⟨rfl, rfl, rfl, rfl⟩
  · contradiction

theorem bare_process? (r : Recipe H) (id : Pid) (name : String) :
    (r.process? id name).map Process.bare = r.process? 0 "" := by
  unfold process?
  split <;> rfl

end Recipe

namespace Kernel

/-- Creates the process of a recipe and installs its handler. A recipe whose source is not that of a
program is passed over. -/
def enrol (k : Kernel H) (name : String) (r : Recipe H) : Kernel H :=
  match k.table.create name r.source r.arrivalTime r.schedulingClass r.priority with
  | (.error _, _) => k
  | (.ok id, table) =>
    match r.handler with
    | some handler => { k with table := (table.setHandler id handler).2 }
    | none => { k with table }

def staffed (minimum : Log.Level) (quantum : Int) (entries : List (String × Recipe H)) : Kernel H :=
  entries.foldl (fun k entry => k.enrol entry.1 entry.2) ((empty minimum).setQuantum quantum)

/-- `k.Fresh settings entries`: nothing has happened to `k` but the creation of the processes of
`entries`. -/
structure Fresh (k : Kernel H) (settings : SchedulerSettings)
    (entries : List (String × Recipe H)) : Prop where
  coherent : k.Coherent
  numbered : k.table.Numbered
  bare : k.table.processes.map Process.bare = entries.filterMap (·.2.process? 0 "")
  recipe : ∀ p ∈ k.table.processes, (p.name, p.recipe) ∈ entries
  clock : k.table.clock = .zero
  settings : k.scheduler.settings = settings
  current : k.scheduler.current = none
  audit : k.scheduler.audit = []

theorem Coherent.enrol {k : Kernel H} (h : k.Coherent) (name : String) (r : Recipe H) :
    (k.enrol name r).Coherent := by
  have created := h.create name r.source r.arrivalTime r.schedulingClass r.priority
  unfold Kernel.enrol
  split
  · exact h
  · rename_i id table made
    simp only [made] at created
    split
    · exact created.setHandler id _
    · exact created

/-- Enrolling a process leaves the other processes, the clock and the scheduler as they are. -/
theorem enrol_spec {k : Kernel H} (n : k.table.Numbered) (name : String) (r : Recipe H) :
    (k.enrol name r).table.Numbered ∧ (k.enrol name r).table.clock = k.table.clock ∧
      (k.enrol name r).scheduler = k.scheduler ∧
      (k.enrol name r).table.processes =
        k.table.processes ++ (r.process? k.table.nextId name).toList := by
  have created := n.create name r.source r.arrivalTime r.schedulingClass r.priority
  cases parsed : Program.parse r.source with
  | error reason =>
      have refused : k.table.create name r.source r.arrivalTime r.schedulingClass r.priority =
          (.error reason, k.table) := by
        simp only [ProcessTable.create, Process.create, parsed]
        rfl
      unfold Kernel.enrol Recipe.process?
      rw [refused, parsed]
      exact ⟨n, rfl, rfl, (List.append_nil _).symm⟩
  | ok program =>
      obtain ⟨table, made⟩ : ∃ table, k.table.create name r.source r.arrivalTime r.schedulingClass
          r.priority = (.ok k.table.nextId, table) := by
        simp only [ProcessTable.create, Process.create, parsed]
        exact ⟨_, rfl⟩
      obtain ⟨p, built, -, processes, clock⟩ := ProcessTable.eq_of_create made
      obtain ⟨program', parsed', rfl⟩ := Process.eq_of_create built
      rw [parsed, Except.ok.injEq] at parsed'
      subst parsed'
      rw [made] at created
      unfold Kernel.enrol Recipe.process?
      rw [made, parsed]
      cases r.handler with
      | none => exact ⟨created, clock, rfl, processes⟩
      | some handler =>
          have handled := table.becomes_setHandler k.table.nextId handler
          have others : k.table.processes.map
              (Process.only k.table.nextId (Process.handledBy handler)) = k.table.processes := by
            refine (List.map_congr_left fun q hq => ?_).trans (List.map_id' _)
            exact Process.only_of_ne _ (Nat.ne_of_lt (n.distinct.below q hq))
          refine ⟨handled.numbered created, handled.clock.trans clock, rfl, ?_⟩
          show (table.setHandler k.table.nextId handler).2.processes = _
          rw [handled.processes, processes, List.map_append, others, List.map_singleton,
            Process.only, if_pos rfl]
          rfl

theorem Fresh.enrol {k : Kernel H} {settings : SchedulerSettings}
    {entries : List (String × Recipe H)} (h : k.Fresh settings entries)
    (name : String) (r : Recipe H) :
    (k.enrol name r).Fresh settings (entries ++ [(name, r)]) := by
  obtain ⟨numbered, clock, scheduler, processes⟩ := enrol_spec h.numbered name r
  refine ⟨h.coherent.enrol name r, numbered, ?_, fun p hp => ?_, clock.trans h.clock, ?_, ?_, ?_⟩
  · rw [processes, List.map_append, h.bare, List.filterMap_append, ← Option.toList_map,
      Recipe.bare_process?, List.filterMap_cons, List.filterMap_nil]
    cases r.process? 0 "" <;> rfl
  · rw [processes] at hp
    rcases List.mem_append.1 hp with old | new
    · exact List.mem_append_left _ (h.recipe p old)
    · obtain ⟨-, named, made, -⟩ := Recipe.eq_of_process? (Option.mem_toList.1 new)
      rw [named, made]
      exact List.mem_append_right _ (List.mem_singleton_self _)
  · rw [scheduler, h.settings]
  · rw [scheduler, h.current]
  · rw [scheduler, h.audit]

theorem Fresh.enrolAll {k : Kernel H} {settings : SchedulerSettings}
    {entries : List (String × Recipe H)} (h : k.Fresh settings entries)
    (more : List (String × Recipe H)) :
    (more.foldl (fun k entry => k.enrol entry.1 entry.2) k).Fresh settings (entries ++ more) := by
  induction more generalizing k entries with
  | nil =>
      rw [List.append_nil]
      exact h
  | cons entry rest ih =>
      rw [List.append_cons]
      exact ih (h.enrol entry.1 entry.2)

theorem fresh_staffed (minimum : Log.Level) (quantum : Int) (entries : List (String × Recipe H)) :
    (staffed minimum quantum entries).Fresh ((Scheduler.idle minimum).setQuantum quantum).settings
      entries := by
  have start : ((empty minimum : Kernel H).setQuantum quantum).Fresh
      ((Scheduler.idle minimum).setQuantum quantum).settings [] := by
    refine ⟨?_, ⟨rfl, rfl⟩, rfl, fun _ hp => (List.not_mem_nil hp).elim, rfl, rfl, rfl, rfl⟩
    exact ⟨(coherent_empty minimum).distinct, (coherent_empty minimum).selected⟩
  exact start.enrolAll entries

/-! ## Corresponding processes -/

/-- Where the ids 1, 2, ... go if the processes with them become those of a list, in order. -/
def idAt (ps : List (Process H)) : Pid → Pid
  | 0 => 0
  | i + 1 => (ps[i]?.map (·.id)).getD (i + 1)

theorem idAt_succ {ps : List (Process H)} {i : Nat} (below : i < ps.length) :
    idAt ps (i + 1) = ps[i].id := by
  rw [idAt, List.getElem?_eq_getElem below]
  rfl

theorem idAt_of_le {ps : List (Process H)} {i : Nat} (beyond : ps.length ≤ i) :
    idAt ps (i + 1) = i + 1 := by
  rw [idAt, List.getElem?_eq_none beyond]
  rfl

theorem idAt_le_iff {ps : List (Process H)}
    (ids : (ps.map (·.id)).Perm (List.range' 1 ps.length)) (i : Nat) :
    0 < idAt ps (i + 1) ∧ (idAt ps (i + 1) ≤ ps.length ↔ i < ps.length) := by
  rcases Nat.lt_or_ge i ps.length with below | beyond
  · have member : ps[i].id ∈ ps.map (·.id) := List.mem_map_of_mem (List.getElem_mem below)
    rw [ids.mem_iff, List.mem_range'_1, Nat.add_comm] at member
    rw [idAt_succ below]
    exact ⟨member.1, iff_of_true (Nat.le_of_lt_succ member.2) below⟩
  · rw [idAt_of_le beyond]
    exact ⟨Nat.succ_pos i, iff_of_false (Nat.not_le.2 (Nat.lt_succ_of_le beyond))
      (Nat.not_lt.2 beyond)⟩

/-- The ids 1, 2, ... go to themselves in another order, and so do all others. -/
theorem idAt_injective {ps : List (Process H)}
    (ids : (ps.map (·.id)).Perm (List.range' 1 ps.length)) : Function.Injective (idAt ps) := by
  intro i j same
  cases i with
  | zero =>
      cases j with
      | zero => rfl
      | succ j => exact absurd same (Nat.ne_of_lt (idAt_le_iff ids j).1)
  | succ i =>
      cases j with
      | zero => exact absurd same.symm (Nat.ne_of_lt (idAt_le_iff ids i).1)
      | succ j =>
          have together : i < ps.length ↔ j < ps.length := by
            rw [← (idAt_le_iff ids i).2, ← (idAt_le_iff ids j).2, same]
          rcases Nat.lt_or_ge i ps.length with hi | hi
          · have hj := together.1 hi
            rw [idAt_succ hi, idAt_succ hj] at same
            have nodup : (ps.map (·.id)).Nodup := ids.nodup_iff.2 List.nodup_range'
            have equal := List.inj_on_of_nodup_map nodup (List.getElem_mem hi)
              (List.getElem_mem hj) same
            rw [(nodup.of_map.getElem_inj_iff).1 equal]
          · have hj := Nat.not_lt.1 fun hj => Nat.not_lt.2 hi (together.2 hj)
            rwa [idAt_of_le hi, idAt_of_le hj] at same

/-- Processes that are the same but for ids, names and order are the same under other ids and
names. -/
theorem exists_relabelling {ps qs : List (Process H)}
    (hp : ps.map (·.id) = List.range' 1 ps.length) (hq : qs.map (·.id) = List.range' 1 qs.length)
    (same : (qs.map Process.bare).Perm (ps.map Process.bare)) :
    ∃ r : Relabelling, qs.Perm (ps.map (Process.relabel r)) := by
  -- `zs` has the processes of `qs` in the order of those of `ps` that they correspond to.
  obtain ⟨zs, bare, perm⟩ : ∃ zs : List (Process H),
      ps.map Process.bare = zs.map Process.bare ∧ zs.Perm qs :=
    (congrFun₂ (List.eq_map_comp_perm Process.bare) (ps.map Process.bare) qs).mpr same.symm
  have length : zs.length = ps.length := by simpa using congrArg List.length bare.symm
  have ids : (zs.map (·.id)).Perm (List.range' 1 zs.length) := by
    rw [perm.length_eq, ← hq]
    exact perm.map _
  let r : Relabelling :=
    ⟨idAt zs, fun id => (zs[id - 1]?.map (·.name)).getD "", idAt_injective ids⟩
  refine ⟨r, ?_⟩
  suffices relabelled : ps.map (Process.relabel r) = zs from relabelled ▸ perm.symm
  refine List.ext_getElem (by simp [length]) fun i hi hi' => ?_
  have below : i < ps.length := length ▸ hi'
  have id : ps[i].id = i + 1 := by
    have at_i := List.getElem_of_eq hp (i := i) (by simpa using below)
    rw [List.getElem_map, List.getElem_range'] at at_i
    exact at_i.trans (show 1 + 1 * i = i + 1 by omega)
  have alike : ps[i].bare = zs[i].bare := by
    have at_i := List.getElem_of_eq bare (i := i) (by simpa using below)
    rwa [List.getElem_map, List.getElem_map] at at_i
  have renumbered : r.id ps[i].id = zs[i].id := by
    rw [id]
    exact idAt_succ hi'
  have renamed : r.name ps[i].id = zs[i].name := by
    rw [id]
    show (zs[i]?.map (·.name)).getD "" = zs[i].name
    rw [List.getElem?_eq_getElem hi']
    rfl
  rw [List.getElem_map, Process.relabel, renumbered, renamed, Process.eq_of_bare alike]

theorem Fresh.mirrors {k l : Kernel H} {settings : SchedulerSettings}
    {xs ys : List (String × Recipe H)} (hk : k.Fresh settings xs) (hl : l.Fresh settings ys)
    (same : (ys.map Prod.snd).Perm (xs.map Prod.snd)) : ∃ r, k.Mirrors r l := by
  have bare : (l.table.processes.map Process.bare).Perm (k.table.processes.map Process.bare) := by
    have loaded (entries : List (String × Recipe H)) :
        entries.filterMap (·.2.process? 0 "") =
          (entries.map Prod.snd).filterMap (·.process? 0 "") := by
      rw [List.filterMap_map]
      rfl
    rw [hk.bare, hl.bare, loaded, loaded]
    exact same.filterMap _
  obtain ⟨r, processes⟩ := exists_relabelling hk.numbered.ids hl.numbered.ids bare
  refine ⟨r, processes, hl.clock.trans hk.clock.symm, hl.settings.trans hk.settings.symm, ?_, ?_⟩
  · rw [hl.current, hk.current]
    rfl
  · rw [hl.audit, hk.audit]
    rfl

theorem Fresh.untied {k : Kernel H} {settings : SchedulerSettings}
    {entries : List (String × Recipe H)} (h : k.Fresh settings entries)
    (untied : (entries.map Prod.snd).Pairwise fun r s => ¬ r.Ties s) : k.Untied := by
  have distinct : (k.table.processes.map Process.bare).Pairwise fun p q => ¬ p.Ties q := by
    rw [h.bare]
    refine (List.pairwise_map.1 untied).filterMap _ fun r s distinct p hp q hq ties => distinct ?_
    obtain ⟨-, -, made, -⟩ := Recipe.eq_of_process? hp
    obtain ⟨-, -, made', -⟩ := Recipe.eq_of_process? hq
    rw [← made, ← made']
    exact Process.ties_recipe ties
  have apart : k.table.processes.Pairwise fun p q => p.Ties q → p = q :=
    (List.pairwise_map.1 distinct).imp fun different ties => (different ties).elim
  have symm : Std.Symm fun p q : Process H => p.Ties q → p = q :=
    ⟨fun p q same ties => (same ⟨ties.1.symm, ties.2.1.symm, ties.2.2.symm⟩).symm⟩
  exact fun p hp q hq => apart.forall_of_forall (fun _ _ _ => rfl) hp hq

/-- Of recipes that do not tie each is there once, and so it has one name. -/
theorem Fresh.name_unique {k : Kernel H} {settings : SchedulerSettings}
    {entries : List (String × Recipe H)} (h : k.Fresh settings entries)
    (untied : (entries.map Prod.snd).Pairwise fun r s => ¬ r.Ties s) {p : Process H}
    (hp : p ∈ k.table.processes) {name : String} (named : (name, p.recipe) ∈ entries) :
    name = p.name := by
  have nodup : (entries.map Prod.snd).Nodup := by
    refine List.nodup_iff_pairwise_ne.2 (untied.imp fun apart same => apart ?_)
    rw [same]
    exact ⟨rfl, rfl, fun _ => rfl⟩
  exact congrArg Prod.fst (List.inj_on_of_nodup_map nodup named (h.recipe p hp) rfl)

/-- Creating the same processes in another order changes nothing but their ids, as long as no two
of them tie: after any number of ticks they are as they would have been, every choice fell on the
corresponding process, every execution gave the same answer, and the same events were recorded. If
the processes are created under other names, they also differ in those. -/
theorem creation_order_immaterial [SyscallHandler H] (minimum minimum' : Log.Level) (quantum : Int)
    {xs ys : List (String × Recipe H)} (same : (ys.map Prod.snd).Perm (xs.map Prod.snd))
    (untied : (xs.map Prod.snd).Pairwise fun r s => ¬ r.Ties s) :
    ∃ (id : Pid → Pid) (name : Pid → String), Function.Injective id ∧
      (∀ p ∈ (staffed minimum quantum xs).table.processes,
        (p.name, p.recipe) ∈ xs ∧ (name p.id, p.recipe) ∈ ys) ∧
      ∀ n,
        let k := (staffed minimum quantum xs).after n
        let l := (staffed minimum' quantum ys).after n
        l.table.processes.Perm
            (k.table.processes.map fun p => { p with id := id p.id, name := name p.id }) ∧
          (ys.Perm xs →
            l.table.processes.Perm (k.table.processes.map fun p => { p with id := id p.id })) ∧
          l.tick.1 = (k.tick.1.1.map id, k.tick.1.2) ∧
          l.scheduler.audit = k.scheduler.audit.map (Event.relabel id) := by
  have hk := fresh_staffed minimum quantum xs
  have hl := fresh_staffed minimum' quantum ys
  obtain ⟨r, m⟩ := hk.mirrors hl same
  have apart := hk.untied untied
  refine ⟨r.id, r.name, r.injective, fun p hp => ?_, fun n => ?_⟩
  · have member := hl.recipe _ (m.mem.2 ⟨p, hp, rfl⟩)
    exact ⟨hk.recipe p hp, member⟩
  · have later := m.after hk.coherent hl.coherent apart n
    have answers := (later.tick (hk.coherent.after n) (hl.coherent.after n)
      (apart.after hk.coherent n)).2
    refine ⟨later.processes, fun named => ?_, answers, later.audit⟩
    refine later.processes.trans (.of_eq (List.map_congr_left fun p hp => ?_))
    obtain ⟨q, hq, origin⟩ := hk.coherent.exists_origin_after n p hp
    have member : (r.name q.id, q.recipe) ∈ ys :=
      hl.recipe (q.relabel r) (m.mem.2 ⟨q, hq, rfl⟩)
    have kept := hk.name_unique untied hq (named.mem_iff.1 member)
    have same : r.name p.id = p.name := by
      rw [Process.id_eq_of_origin origin]
      exact kept.trans (congrArg Origin.name origin).symm
    rw [Process.relabel, same]

def unequal : List (String × Recipe Services) := [
  ("early", ⟨".code\nloop:\nADD #1\nBRANY loop", 0, .bestEffort, .high, none⟩),
  ("late", ⟨".code\nSYSCALL 1\nSYSCALL 0", 3, .realtime, .high, some ⟨.standard⟩⟩)]

theorem creation_order_immaterial_reversed :
    (unequal.reverse.map Prod.snd).Perm (unequal.map Prod.snd) ∧
      (unequal.map Prod.snd).Pairwise (fun r s => ¬ r.Ties s) ∧
      ∃ id : Pid → Pid, id 1 = 2 ∧ id 2 = 1 ∧ ∀ n,
        let k := (staffed .info 4 unequal).after n
        let l := (staffed .debug 4 unequal.reverse).after n
        l.table.processes.Perm (k.table.processes.map fun p => { p with id := id p.id }) ∧
          l.scheduler.audit = k.scheduler.audit.map (Event.relabel id) := by
  have named : unequal.reverse.Perm unequal := List.reverse_perm unequal
  have same : (unequal.reverse.map Prod.snd).Perm (unequal.map Prod.snd) := named.map Prod.snd
  have untied : (unequal.map Prod.snd).Pairwise fun r s => ¬ r.Ties s := by
    simp [unequal, Recipe.Ties]
  obtain ⟨id, name, -, -, alike⟩ := creation_order_immaterial .info .debug 4 same untied
  refine ⟨same, untied, id, ?_, ?_, fun n => ⟨(alike n).2.1 named, (alike n).2.2.2⟩⟩
  · have chosen := congrArg Prod.fst (alike 0).2.2.1
    have early : ((staffed .info 4 unequal).after 0).tick.1.1 = some 1 := by decide +kernel
    have early' : ((staffed .debug 4 unequal.reverse).after 0).tick.1.1 = some 2 := by
      decide +kernel
    rw [early, early'] at chosen
    exact (Option.some.inj chosen).symm
  · have chosen := congrArg Prod.fst (alike 2).2.2.1
    have late : ((staffed .info 4 unequal).after 2).tick.1.1 = some 2 := by decide +kernel
    have late' : ((staffed .debug 4 unequal.reverse).after 2).tick.1.1 = some 1 := by
      decide +kernel
    rw [late, late'] at chosen
    exact (Option.some.inj chosen).symm

end Kernel

end Timeslice
