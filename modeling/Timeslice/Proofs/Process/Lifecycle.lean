import Timeslice.Proofs.Process.Table

/-! # What befalls a process

Effects leave a process as it was but for its processor, block it, or end it. A block is granted
only to a process that runs, so a list of effects blocks at most once, and only before it ends the
process. Time moves a process from new or blocked to ready and charges it one tick at most.
-/

namespace Timeslice

variable {H : Type}

def Cpu.contents (cpu : Cpu H) : Int32 × Nat × Store :=
  (cpu.accumulator, cpu.programCounter, cpu.data)

theorem Cpu.contents_eq_of_freed {c d : Cpu H} (h : c.freed = d.freed) : c.contents = d.contents :=
  congrArg (fun cpu => cpu.contents) h

namespace Process

/-! ## Effects -/

/-- `p.Suffers now stays q`: effects applied at `now` can turn `p` into `q`, after they have blocked
it for each of `stays` ticks. -/
inductive Suffers (now : Nat) (p : Process H) : List Nat → Process H → Prop
  | spared {cpu : Cpu H} (goes : p.cpu.Continues cpu) : Suffers now p [] (p.withCpu cpu)
  | blocked (running : p.isRunning) (duration : Nat) {cpu : Cpu H}
      (goes : (p.block now duration).cpu.Continues cpu) :
      Suffers now p [duration] ((p.block now duration).withCpu cpu)
  | ended (cpu : Cpu H) : Suffers now p [] (p.terminate.withCpu cpu)
  | cutShort (running : p.isRunning) (duration : Nat) (cpu : Cpu H) :
      Suffers now p [duration] ((p.block now duration).terminate.withCpu cpu)

def staysOf (p : Process H) : Effect → List Nat
  | .block ticks => if p.isRunning then [ticks] else []
  | .exit | .output _ => []

def stays (now : Nat) : Process H → List Effect → List Nat
  | _, [] => []
  | p, effect :: rest => p.staysOf effect ++ stays now (p.feel now effect) rest

namespace Suffers

variable {now : Nat} {p q : Process H} {durations : List Nat}

theorem of_withCpu {cpu : Cpu H} (goes : p.cpu.Continues cpu)
    (h : (p.withCpu cpu).Suffers now durations q) : p.Suffers now durations q := by
  cases h with
  | spared goes' => exact .spared (goes.trans goes')
  | blocked running duration goes' =>
      exact .blocked (show p.isRunning from running) duration ⟨goes'.blocked, fun first =>
        goes'.running (goes.running first)⟩
  | ended cpu => exact .ended cpu
  | cutShort running duration cpu => exact .cutShort (show p.isRunning from running) duration cpu

theorem terminate (h : p.Suffers now durations q) : p.Suffers now durations q.terminate := by
  cases h with
  | spared _ => exact .ended _
  | blocked running duration _ => exact .cutShort running duration _
  | ended cpu => exact .ended _
  | cutShort running duration cpu => exact .cutShort running duration _

/-- A process that has been blocked or ended runs no more, so it is blocked no more. -/
theorem block (h : p.Suffers now durations q) (running : q.isRunning) (duration : Nat) :
    p.Suffers now (durations ++ [duration]) (q.block now duration) := by
  cases h with
  | @spared cpu goes =>
      have blocked :
          (p.block now duration).cpu.Continues ((p.withCpu cpu).block now duration).cpu :=
        ⟨rfl, goes.running⟩
      exact .blocked (show p.isRunning from running) duration blocked
  | blocked _ _ _ => contradiction
  | ended cpu => contradiction
  | cutShort _ _ cpu => contradiction

theorem feel (h : p.Suffers now durations q) (effect : Effect) :
    p.Suffers now (durations ++ q.staysOf effect) (q.feel now effect) := by
  cases effect with
  | exit =>
      rw [staysOf, List.append_nil]
      exact h.terminate
  | block ticks =>
      simp only [staysOf, Process.feel]
      split
      · exact h.block ‹_› ticks
      · rw [List.append_nil]
        exact h
  | output text =>
      rw [staysOf, List.append_nil]
      exact h

theorem foldl_feel (h : p.Suffers now durations q) (effects : List Effect) :
    p.Suffers now (durations ++ q.stays now effects) (effects.foldl (Process.feel now) q) := by
  induction effects generalizing durations q with
  | nil =>
      rw [stays, List.append_nil]
      exact h
  | cons effect rest ih =>
      rw [stays, ← List.append_assoc]
      exact ih (h.feel effect)

end Suffers

theorem suffers_absorb (p : Process H) (now : Nat) :
    p.Suffers now ((p.withCpu p.cpu.withoutEffects).stays now p.cpu.effects) (p.absorb now) := by
  have spared : p.Suffers now [] (p.withCpu p.cpu.withoutEffects) := .spared ⟨rfl, fun goes => goes⟩
  exact spared.foldl_feel p.cpu.effects

theorem contents_absorb (p : Process H) (now : Nat) :
    (p.absorb now).cpu.contents = p.cpu.contents :=
  Cpu.contents_eq_of_freed (d := p.cpu.withoutEffects) (p.freed_absorb now)

/-! ## Time -/

/-- `p.Elapses now q`: the tick that sets the clock to `now` turns `p` into `q`. -/
inductive Elapses (now : Nat) (p : Process H) : Process H → Prop
  | early (state : p.state = .new) (early : now < p.arrivalTime) : Elapses now p p
  | arrived (state : p.state = .new) (due : p.arrivalTime ≤ now) :
      Elapses now p { p with state := .ready, waitingTime := p.waitingTime + 1 }
  | waited (state : p.state = .ready) :
      Elapses now p { p with waitingTime := p.waitingTime + 1 }
  | ran (state : p.state = .running) :
      Elapses now p { p with
        executionTime := p.executionTime + 1
        quantumLeft := max (p.quantumLeft - 1) leastQuantum }
  | stayed (state : p.state = .blocked) (early : now < p.blockEnd) : Elapses now p p
  | woke (state : p.state = .blocked) (due : p.blockEnd ≤ now) :
      Elapses now p { p.wake with waitingTime := p.waitingTime + 1 }
  | ended (state : p.state = .exit) : Elapses now p p

theorem elapses (p : Process H) (now : Nat) : p.Elapses now (p.elapse now) := by
  cases state : p.state with
  | new =>
      by_cases due : p.arrivalTime ≤ now
      · have result : p.elapse now =
            { p with state := .ready, waitingTime := p.waitingTime + 1 } := by
          simp [elapse, arrives, charge, state, due]
        rw [result]
        exact .arrived state due
      · have result : p.elapse now = p := by simp [elapse, arrives, wakes, charge, state, due]
        rw [result]
        exact .early state (by omega)
  | ready =>
      have result : p.elapse now = { p with waitingTime := p.waitingTime + 1 } := by
        simp [elapse, arrives, wakes, charge, state]
      rw [result]
      exact .waited state
  | running =>
      have result : p.elapse now = { p with
          executionTime := p.executionTime + 1
          quantumLeft := max (p.quantumLeft - 1) leastQuantum } := by
        simp [elapse, arrives, wakes, charge, state]
      rw [result]
      exact .ran state
  | blocked =>
      by_cases due : p.blockEnd ≤ now
      · have result : p.elapse now = { p.wake with waitingTime := p.waitingTime + 1 } := by
          simp [elapse, arrives, wakes, wake, charge, state, due]
        rw [result]
        exact .woke state due
      · have result : p.elapse now = p := by simp [elapse, arrives, wakes, charge, state, due]
        rw [result]
        exact .stayed state (by omega)
  | exit =>
      have result : p.elapse now = p := by simp [elapse, arrives, wakes, charge, state]
      rw [result]
      exact .ended state

theorem executionTime_elapse (p : Process H) (now : Nat) :
    (p.elapse now).executionTime = p.executionTime + p.isRunning.toNat := by
  have elapses := p.elapses now
  generalize p.elapse now = q at elapses
  cases elapses <;> simp_all [isRunning, wake]

end Process

/-! ## Effects by way of the table -/

namespace ProcessTable

/-- The duration for which an effect of process `id` blocks it, if blocking it succeeds. -/
def staysOf (table : ProcessTable H) (id : Pid) : Effect → List Nat
  | .block ticks => if (table.block id ticks).1 then [ticks] else []
  | .exit | .output _ => []

def stays (id : Pid) : ProcessTable H → List Effect → List Nat
  | _, [] => []
  | table, effect :: rest => table.staysOf id effect ++ stays id (apply id table effect) rest

def effectStays (table : ProcessTable H) (id : Pid) : List Nat :=
  match table.find? id with
  | none => []
  | some p => stays id (table.update id fun p => p.withCpu p.cpu.withoutEffects) p.cpu.effects

theorem fst_block (table : ProcessTable H) (id : Pid) (duration : Nat) :
    (table.block id duration).1 = (table.find? id).any (·.isRunning) := by
  cases found : table.find? id with
  | none => simp only [block, found, Option.any_none]
  | some p =>
      simp only [block, found, Option.any_some]
      split
      · rename_i running
        exact running.symm
      · rename_i idle
        exact (Bool.eq_false_iff.2 idle).symm

theorem Distinct.stays_eq {table : ProcessTable H} (h : table.Distinct) {id : Pid} {p : Process H}
    (found : table.find? id = some p) (effects : List Effect) :
    table.stays id effects = p.stays table.now effects := by
  induction effects generalizing table p with
  | nil => rfl
  | cons effect rest ih =>
      have becomes := h.becomes_apply id effect
      have found' : (apply id table effect).find? id = some (p.feel table.now effect) := by
        rw [becomes.find?, found, Option.map_some, Process.only_of_eq _ (find?_id found)]
      have later := ih (becomes.distinct h) found'
      rw [becomes.now] at later
      rw [stays, Process.stays, later]
      congr 1
      cases effect with
      | block ticks => simp only [staysOf, fst_block, found, Option.any_some, Process.staysOf]
      | exit => rfl
      | output text => rfl

theorem Distinct.effectStays_eq {table : ProcessTable H} (h : table.Distinct) {id : Pid}
    {p : Process H} (found : table.find? id = some p) :
    table.effectStays id = (p.withCpu p.cpu.withoutEffects).stays table.now p.cpu.effects := by
  have taken := table.becomes_update id (f := fun p => p.withCpu p.cpu.withoutEffects) fun _ => rfl
  have found' : (table.update id fun p => p.withCpu p.cpu.withoutEffects).find? id =
      some (p.withCpu p.cpu.withoutEffects) := by
    rw [taken.find?, found, Option.map_some, Process.only_of_eq _ (find?_id found)]
  have same := (taken.distinct h).stays_eq found' p.cpu.effects
  rw [taken.now] at same
  simp only [effectStays, found, same]

end ProcessTable

end Timeslice
