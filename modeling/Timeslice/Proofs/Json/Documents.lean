import Timeslice.CommandLine
import Timeslice.Proofs.Json.Codec

/-! # Documents

What is written of scenarios, reports, events, logs and processors is read back as it was. The
numbers have to fit their words; the texts may be any at all.
-/

namespace Timeslice

/-! ## Names -/

theorem SchedulingClass.restores (c : SchedulingClass) : codec.Restores c :=
  Codec.restores_choice (by cases c <;> rfl)

theorem Priority.restores (p : Priority) : codec.Restores p :=
  Codec.restores_choice (by cases p <;> rfl)

theorem ProcessState.restores (s : ProcessState) : codec.Restores s :=
  Codec.restores_choice (by cases s <;> rfl)

theorem Log.Level.restores (l : Log.Level) : codec.Restores l :=
  Codec.restores_choice (by cases l <;> rfl)

theorem Preemption.restores (p : Preemption) : codec.Restores p :=
  Codec.restores_choice (by cases p <;> rfl)

theorem ExitCause.restores (c : ExitCause) : codec.Restores c :=
  Codec.restores_choice (by cases c <;> rfl)

theorem Ending.restores (e : Ending) : codec.Restores e :=
  Codec.restores_choice (by cases e <;> rfl)

theorem Pid.restores {id : Pid} (fits : id ≤ Word.limit) : codec.Restores id :=
  Codec.restores_word fits

/-! ## Records -/

structure SchedulerSettings.Fits (settings : SchedulerSettings) : Prop where
  quantum : settings.quantum ≤ Word.limit32

theorem SchedulerSettings.restores {settings : SchedulerSettings} (fits : settings.Fits) :
    codec.Restores settings := by
  have quantum := Codec.restores_natural fits.quantum
  refine ⟨.record_cons quantum.integral .record_nil, ?_⟩
  exact (Record.bind_of? (by decide) (by exact .refl _)).trans (Record.bind_required rfl quantum)

structure BlockRange.Fits (range : BlockRange) : Prop where
  min : range.min ≤ Word.limit
  max : range.max ≤ Word.limit

theorem BlockRange.restores {range : BlockRange} (fits : range.Fits) : codec.Restores range := by
  have min := Codec.restores_word fits.min
  have max := Codec.restores_word fits.max
  refine ⟨.record_cons min.integral (.record_cons max.integral .record_nil), ?_⟩
  exact (Record.bind_of? (by decide) (by exact .refl _)).trans <|
    (Record.bind_required rfl min).trans (Record.bind_required rfl max)

structure Output.Fits (l : Output) : Prop where
  tick : l.tick ≤ Word.limit
  process : l.process ≤ Word.limit

theorem Output.restores {l : Output} (fits : l.Fits) : codec.Restores l := by
  have tick := Codec.restores_word fits.tick
  have process := Pid.restores fits.process
  have text := Codec.restores_text l.text
  refine ⟨.record_cons tick.integral <| .record_cons process.integral <|
    .record_cons text.integral .record_nil, ?_⟩
  exact (Record.bind_of? (by decide) (by exact .refl _)).trans <|
    (Record.bind_required rfl tick).trans <| (Record.bind_required rfl process).trans <|
    Record.bind_required rfl text

structure Registers.Fits (r : Registers) : Prop where
  programCounter : r.programCounter ≤ Word.limit
  blockTime : r.blockTime ≤ Word.limit

theorem Registers.restores {r : Registers} (fits : r.Fits) : codec.Restores r := by
  have accumulator := Codec.restores_int32 r.accumulator
  have programCounter := Codec.restores_word fits.programCounter
  have data := Codec.restores_store r.data
  have running := Codec.restores_bool r.running
  have blocked := Codec.restores_bool r.blocked
  have blockTime := Codec.restores_word fits.blockTime
  have waiting := Codec.restores_bool r.waitingForInput
  refine ⟨.record_cons accumulator.integral <| .record_cons programCounter.integral <|
    .record_cons data.integral <| .record_cons running.integral <|
    .record_cons blocked.integral <| .record_cons blockTime.integral <|
    .record_cons waiting.integral .record_nil, ?_⟩
  exact (Record.bind_of? (by decide) (by exact .refl _)).trans <|
    (Record.bind_required rfl accumulator).trans <|
    (Record.bind_required rfl programCounter).trans <| (Record.bind_required rfl data).trans <|
    (Record.bind_required rfl running).trans <| (Record.bind_required rfl blocked).trans <|
    (Record.bind_required rfl blockTime).trans <| Record.bind_required rfl waiting

structure Log.Entry.Fits (entry : Log.Entry) : Prop where
  source : ∀ id ∈ entry.source, id ≤ Word.limit
  tick : entry.tick ≤ Word.limit

theorem Log.Entry.restores {entry : Log.Entry} (fits : entry.Fits) : codec.Restores entry := by
  have level := entry.level.restores
  have source : (Codec.option Pid.codec).Restores entry.source := by
    cases given : entry.source with
    | none => exact Codec.restores_none _
    | some id => exact Codec.restores_some (Pid.restores (fits.source id given)) Json.noConfusion
  have tick := Codec.restores_word fits.tick
  have message := Codec.restores_text entry.message
  have fields : (Codec.list (.pair .text .text)).Restores entry.fields :=
    Codec.restores_list fun field _ =>
      Codec.restores_pair (Codec.restores_text field.1) (Codec.restores_text field.2)
  refine ⟨.record_cons level.integral <| .record_cons source.integral <|
    .record_cons tick.integral <| .record_cons message.integral <|
    .record_cons fields.integral .record_nil, ?_⟩
  exact (Record.bind_of? (by decide) (by exact .refl _)).trans <|
    (Record.bind_required rfl level).trans <| (Record.bind_defaulted rfl source).trans <|
    (Record.bind_required rfl tick).trans <| (Record.bind_required rfl message).trans <|
    Record.bind_required rfl fields

structure ProcessReport.Fits (p : ProcessReport) : Prop where
  id : p.id ≤ Word.limit
  arrivalTime : p.arrivalTime ≤ Word.limit
  executionTime : p.executionTime ≤ Word.limit
  waitingTime : p.waitingTime ≤ Word.limit
  quantumLeft : Word.least64 ≤ p.quantumLeft ∧ p.quantumLeft ≤ Word.largest64
  blockEnd : p.blockEnd ≤ Word.limit
  programCounter : p.programCounter ≤ Word.limit

theorem ProcessReport.restores {p : ProcessReport} (fits : p.Fits) : codec.Restores p := by
  have id := Pid.restores fits.id
  have name := Codec.restores_text p.name
  have schedulingClass := p.schedulingClass.restores
  have priority := p.priority.restores
  have state := p.state.restores
  have arrivalTime := Codec.restores_word fits.arrivalTime
  have executionTime := Codec.restores_word fits.executionTime
  have waitingTime := Codec.restores_word fits.waitingTime
  have quantumLeft : Codec.int64.Restores p.quantumLeft := Codec.restores_integer fits.quantumLeft
  have blockEnd := Codec.restores_word fits.blockEnd
  have accumulator := Codec.restores_int32 p.accumulator
  have programCounter := Codec.restores_word fits.programCounter
  refine ⟨.record_cons id.integral <| .record_cons name.integral <|
    .record_cons schedulingClass.integral <| .record_cons priority.integral <|
    .record_cons state.integral <| .record_cons arrivalTime.integral <|
    .record_cons executionTime.integral <| .record_cons waitingTime.integral <|
    .record_cons quantumLeft.integral <| .record_cons blockEnd.integral <|
    .record_cons accumulator.integral <| .record_cons programCounter.integral .record_nil, ?_⟩
  exact (Record.bind_of? (by decide) (by exact .refl _)).trans <|
    (Record.bind_required rfl id).trans <| (Record.bind_required rfl name).trans <|
    (Record.bind_required rfl schedulingClass).trans <|
    (Record.bind_required rfl priority).trans <| (Record.bind_required rfl state).trans <|
    (Record.bind_required rfl arrivalTime).trans <|
    (Record.bind_required rfl executionTime).trans <|
    (Record.bind_required rfl waitingTime).trans <|
    (Record.bind_required rfl quantumLeft).trans <| (Record.bind_required rfl blockEnd).trans <|
    (Record.bind_required rfl accumulator).trans <| Record.bind_required rfl programCounter

structure Report.Fits (r : Report) : Prop where
  ticks : r.ticks ≤ Word.limit
  processes : ∀ p ∈ r.processes, p.Fits
  output : ∀ l ∈ r.output, l.Fits

theorem Report.restores {r : Report} (fits : r.Fits) : codec.Restores r := by
  have ending := r.ending.restores
  have ticks := Codec.restores_word fits.ticks
  have processes := Codec.restores_list fun p member =>
    ProcessReport.restores (fits.processes p member)
  have output := Codec.restores_list fun l member => Output.restores (fits.output l member)
  refine ⟨.record_cons ending.integral <| .record_cons ticks.integral <|
    .record_cons processes.integral <| .record_cons output.integral .record_nil, ?_⟩
  exact (Record.bind_of? (by decide) (by exact .refl _)).trans <|
    (Record.bind_required rfl ending).trans <| (Record.bind_required rfl ticks).trans <|
    (Record.bind_required rfl processes).trans <| Record.bind_required rfl output

/-! ## Events -/

def Event.Fits : Event → Prop
  | selected id tick | preempted id _ tick | exited id _ tick | output id _ tick =>
    id ≤ Word.limit ∧ tick ≤ Word.limit

theorem Event.restores {event : Event} (fits : event.Fits) : codec.Restores event := by
  cases event with
  | selected id tick =>
      have process := Pid.restores fits.1
      have tick := Codec.restores_word fits.2
      refine ⟨.record_cons (.record_cons process.integral <|
        .record_cons tick.integral .record_nil) .record_nil, ?_⟩
      exact (Record.bind_of? (by decide) (by exact .refl _)).trans <|
        (Record.bind_required rfl process).trans <| Record.bind_required rfl tick
  | preempted id reason tick =>
      have process := Pid.restores fits.1
      have reason := reason.restores
      have tick := Codec.restores_word fits.2
      refine ⟨.record_cons (.record_cons process.integral <| .record_cons reason.integral <|
        .record_cons tick.integral .record_nil) .record_nil, ?_⟩
      exact (Record.bind_of? (by decide) (by exact .refl _)).trans <|
        (Record.bind_required rfl process).trans <| (Record.bind_required rfl reason).trans <|
        Record.bind_required rfl tick
  | exited id reason tick =>
      have process := Pid.restores fits.1
      have reason := reason.restores
      have tick := Codec.restores_word fits.2
      refine ⟨.record_cons (.record_cons process.integral <| .record_cons reason.integral <|
        .record_cons tick.integral .record_nil) .record_nil, ?_⟩
      exact (Record.bind_of? (by decide) (by exact .refl _)).trans <|
        (Record.bind_required rfl process).trans <| (Record.bind_required rfl reason).trans <|
        Record.bind_required rfl tick
  | output id text tick =>
      have process := Pid.restores fits.1
      have text := Codec.restores_text text
      have tick := Codec.restores_word fits.2
      refine ⟨.record_cons (.record_cons process.integral <| .record_cons text.integral <|
        .record_cons tick.integral .record_nil) .record_nil, ?_⟩
      exact (Record.bind_of? (by decide) (by exact .refl _)).trans <|
        (Record.bind_required rfl process).trans <| (Record.bind_required rfl text).trans <|
        Record.bind_required rfl tick

/-! ## Scenarios -/

structure ProcessSpec.Fits (spec : ProcessSpec) : Prop where
  arrivalTime : spec.arrivalTime ≤ Word.limit

theorem ProcessSpec.restores {spec : ProcessSpec} (fits : spec.Fits) : codec.Restores spec := by
  have name := Codec.restores_text spec.name
  have arrivalTime := Codec.restores_word fits.arrivalTime
  have schedulingClass := spec.schedulingClass.restores
  have priority := spec.priority.restores
  have proper (s : String) : Codec.text.Restores s ∧ Codec.text.encode s ≠ .null :=
    ⟨Codec.restores_text s, Json.noConfusion⟩
  obtain ⟨_, _, _, _, program, programPath⟩ := spec
  constructor
  · have optional : (Json.record ((program.toList.map fun text => ("program", Json.text text)) ++
        (programPath.toList.map fun path => ("program_path", Json.text path)))).Integral := by
      cases program <;> cases programPath <;>
        first
        | exact .record_nil
        | exact .record_cons (.string _) .record_nil
        | exact .record_cons (.string _) (.record_cons (.string _) .record_nil)
    refine .record_cons name.integral <| .record_cons arrivalTime.integral <|
      .record_cons schedulingClass.integral <| .record_cons priority.integral optional
  · exact (Record.bind_of? (by decide) (by cases program <;> cases programPath <;> simp)).trans <|
      (Record.bind_required rfl name).trans <| (Record.bind_defaulted rfl arrivalTime).trans <|
      (Record.bind_required rfl schedulingClass).trans <|
      (Record.bind_defaulted rfl priority).trans <|
      (Record.bind_optional (by cases program <;> cases programPath <;> rfl)
        fun text _ => proper text).trans <|
      Record.bind_optional (by cases program <;> cases programPath <;> rfl)
        fun path _ => proper path

/-- A program that is not there is not written, nor is a path that is not there. -/
theorem ProcessSpec.exists_encode_eq_object (spec : ProcessSpec) :
    ∃ members, codec.encode spec = .object members ∧
      (spec.program = none → ∀ member ∈ members, member.1 ≠ some "program") ∧
      (spec.programPath = none → ∀ member ∈ members, member.1 ≠ some "program_path") := by
  obtain ⟨_, _, _, _, program, programPath⟩ := spec
  refine ⟨_, rfl, ?_, ?_⟩
  · rintro rfl
    cases programPath <;> simp
  · rintro rfl
    cases program <;> simp

/-- A program that an object does not give is none, and so is a path. -/
theorem ProcessSpec.decode_of_omitted {members : List (Option String × Json)} {spec : ProcessSpec}
    (decoded : codec.decode (.object members) = some spec) :
    ((∀ member ∈ members, member.1 ≠ some "program") → spec.program = none) ∧
      ((∀ member ∈ members, member.1 ≠ some "program_path") → spec.programPath = none) := by
  obtain ⟨record, read, decoded⟩ := Option.bind_eq_some_iff.1 decoded
  obtain ⟨name, -, decoded⟩ := Option.bind_eq_some_iff.1 decoded
  obtain ⟨arrivalTime, -, decoded⟩ := Option.bind_eq_some_iff.1 decoded
  obtain ⟨schedulingClass, -, decoded⟩ := Option.bind_eq_some_iff.1 decoded
  obtain ⟨priority, -, decoded⟩ := Option.bind_eq_some_iff.1 decoded
  obtain ⟨program, programRead, decoded⟩ := Option.bind_eq_some_iff.1 decoded
  obtain ⟨programPath, pathRead, decoded⟩ := Option.bind_eq_some_iff.1 decoded
  cases decoded
  constructor
  · intro absent
    rw [Record.defaulted_of_omitted (Record.lookup_of_absent read absent)] at programRead
    exact (Option.some.inj programRead).symm
  · intro absent
    rw [Record.defaulted_of_omitted (Record.lookup_of_absent read absent)] at pathRead
    exact (Option.some.inj pathRead).symm

structure Scenario.Fits (s : Scenario) : Prop where
  quantum : s.quantum ≤ Word.limit32
  maxTicks : s.maxTicks ≤ Word.limit
  blockTicks : s.blockTicks.Fits
  processes : ∀ spec ∈ s.processes, spec.Fits

theorem Scenario.restores {s : Scenario} (fits : s.Fits) : codec.Restores s := by
  have quantum : quantumCodec.Restores s.quantum := Codec.restores_natural fits.quantum
  have maxTicks := Codec.restores_word fits.maxTicks
  have logLevel := s.logLevel.restores
  have blockTicks := BlockRange.restores fits.blockTicks
  have inputs := Codec.restores_list fun text (_ : text ∈ s.inputs) => Codec.restores_text text
  have processes := Codec.restores_list fun spec member =>
    ProcessSpec.restores (fits.processes spec member)
  refine ⟨.record_cons quantum.integral <| .record_cons maxTicks.integral <|
    .record_cons logLevel.integral <| .record_cons blockTicks.integral <|
    .record_cons inputs.integral <| .record_cons processes.integral .record_nil, ?_⟩
  exact (Record.bind_of? (by decide) (by exact .refl _)).trans <|
    (Record.bind_defaulted rfl quantum).trans <| (Record.bind_defaulted rfl maxTicks).trans <|
    (Record.bind_defaulted rfl logLevel).trans <| (Record.bind_defaulted rfl blockTicks).trans <|
    (Record.bind_defaulted rfl inputs).trans <| Record.bind_required rfl processes

/-! What is decoded of a scenario fits. -/

theorem BlockRange.fits_of_decode : BlockRange.codec.Ensures Fits := by
  intro json range decoded
  obtain ⟨record, -, decoded⟩ := Option.bind_eq_some_iff.1 decoded
  obtain ⟨min, minRead, decoded⟩ := Option.bind_eq_some_iff.1 decoded
  obtain ⟨max, maxRead, decoded⟩ := Option.bind_eq_some_iff.1 decoded
  cases decoded
  have minFits := Record.of_required Codec.ensures_word minRead
  have maxFits := Record.of_required Codec.ensures_word maxRead
  exact ⟨minFits, maxFits⟩

theorem ProcessSpec.fits_of_decode : ProcessSpec.codec.Ensures Fits := by
  intro json spec decoded
  obtain ⟨record, -, decoded⟩ := Option.bind_eq_some_iff.1 decoded
  obtain ⟨name, -, decoded⟩ := Option.bind_eq_some_iff.1 decoded
  obtain ⟨arrivalTime, read, decoded⟩ := Option.bind_eq_some_iff.1 decoded
  obtain ⟨schedulingClass, -, decoded⟩ := Option.bind_eq_some_iff.1 decoded
  obtain ⟨priority, -, decoded⟩ := Option.bind_eq_some_iff.1 decoded
  obtain ⟨program, -, decoded⟩ := Option.bind_eq_some_iff.1 decoded
  obtain ⟨programPath, -, decoded⟩ := Option.bind_eq_some_iff.1 decoded
  cases decoded
  have fits := Record.of_defaulted Codec.ensures_word (Nat.zero_le _) read
  exact ⟨fits⟩

theorem Scenario.fits_of_decode : Scenario.codec.Ensures Fits := by
  intro json s decoded
  obtain ⟨record, -, decoded⟩ := Option.bind_eq_some_iff.1 decoded
  obtain ⟨quantum, quantumRead, decoded⟩ := Option.bind_eq_some_iff.1 decoded
  obtain ⟨maxTicks, maxTicksRead, decoded⟩ := Option.bind_eq_some_iff.1 decoded
  obtain ⟨logLevel, -, decoded⟩ := Option.bind_eq_some_iff.1 decoded
  obtain ⟨blockTicks, blockTicksRead, decoded⟩ := Option.bind_eq_some_iff.1 decoded
  obtain ⟨inputs, -, decoded⟩ := Option.bind_eq_some_iff.1 decoded
  obtain ⟨processes, processesRead, decoded⟩ := Option.bind_eq_some_iff.1 decoded
  cases decoded
  have quantumFits := Record.of_defaulted (Codec.ensures_natural _) (by decide) quantumRead
  have maxTicksFits := Record.of_defaulted Codec.ensures_word (by decide) maxTicksRead
  have blockTicksFits := Record.of_defaulted BlockRange.fits_of_decode ⟨by decide, by decide⟩
    blockTicksRead
  have processesFits := Record.of_required (Codec.ensures_list ProcessSpec.fits_of_decode)
    processesRead
  exact ⟨quantumFits, maxTicksFits, blockTicksFits, processesFits⟩

/-! ## Reports of runs -/

namespace Simulation

theorem foldTicks_snd {σ τ : Type} (f : σ → TickRecord → σ) (g : τ → TickRecord → τ) (limit : Nat)
    (a : σ) (b : τ) (s : Simulation) :
    (foldTicks f limit a s).2 = (foldTicks g limit b s).2 := by
  induction limit generalizing a b s with
  | zero => rfl
  | succ limit ih =>
      cases ended : s.ending? with
      | some ending => simp only [foldTicks, ended]
      | none =>
          simp only [foldTicks, ended]
          exact ih _ _ _

/-- What is made of the ticks has no part in the report of the run. -/
theorem runWith_snd {σ : Type} (onTick : σ → TickRecord → σ) (acc : σ) (s : Simulation) :
    (s.runWith onTick acc).2 = s.run := by
  show ((foldTicks onTick _ acc s).2.report, (foldTicks onTick _ acc s).2) = _
  rw [foldTicks_snd onTick (fun _ _ => ()) _ acc ()]
  rfl

end Simulation

/-- The last thing printed is the report of the run. -/
theorem CommandLine.getLast?_simulate (s : Simulation) (json : Bool) :
    (simulate s json).prints.getLast? = some (printReport json s.run.1) := by
  rw [← s.runWith_snd (fun prints tick => (printTick tick).reverse ++ prints) []]
  exact List.getLast?_reverse.trans rfl

/-! ## Everything written is read back -/

/-- Each value whose numbers fit their words is read back from its text, compact or pretty. The
document that a run prints last gives the report of the run, and a process that is written or read
without a program, or without a path, has none. -/
theorem documents_read_back :
    (∀ s : Scenario, s.Fits → Scenario.codec.ReadsBack s) ∧
    (∀ spec : ProcessSpec, spec.Fits → ProcessSpec.codec.ReadsBack spec) ∧
    (∀ range : BlockRange, range.Fits → BlockRange.codec.ReadsBack range) ∧
    (∀ r : Report, r.Fits → Report.codec.ReadsBack r) ∧
    (∀ p : ProcessReport, p.Fits → ProcessReport.codec.ReadsBack p) ∧
    (∀ l : Output, l.Fits → Output.codec.ReadsBack l) ∧
    (∀ e : Ending, Ending.codec.ReadsBack e) ∧
    (∀ r : Registers, r.Fits → Registers.codec.ReadsBack r) ∧
    (∀ entry : Log.Entry, entry.Fits → Log.Entry.codec.ReadsBack entry) ∧
    (∀ l : Log.Level, Log.Level.codec.ReadsBack l) ∧
    (∀ event : Event, event.Fits → Event.codec.ReadsBack event) ∧
    (∀ p : Preemption, Preemption.codec.ReadsBack p) ∧
    (∀ c : ExitCause, ExitCause.codec.ReadsBack c) ∧
    (∀ s : SchedulerSettings, s.Fits → SchedulerSettings.codec.ReadsBack s) ∧
    (∀ id : Pid, id ≤ Word.limit → Pid.codec.ReadsBack id) ∧
    (∀ c : SchedulingClass, SchedulingClass.codec.ReadsBack c) ∧
    (∀ p : Priority, Priority.codec.ReadsBack p) ∧
    (∀ s : ProcessState, ProcessState.codec.ReadsBack s) ∧
    (∀ s : Simulation, s.run.1.Fits → ∃ document,
      (CommandLine.simulate s true).prints.getLast? = some (.out document) ∧
        (Json.parse? document).bind Report.codec.decode = some s.run.1) ∧
    (∀ spec : ProcessSpec, ∃ members, ProcessSpec.codec.encode spec = .object members ∧
      (spec.program = none → ∀ member ∈ members, member.1 ≠ some "program") ∧
      (spec.programPath = none → ∀ member ∈ members, member.1 ≠ some "program_path")) ∧
    (∀ members spec, ProcessSpec.codec.decode (.object members) = some spec →
      ((∀ member ∈ members, member.1 ≠ some "program") → spec.program = none) ∧
      ((∀ member ∈ members, member.1 ≠ some "program_path") → spec.programPath = none)) := by
  refine ⟨fun _ fits => (Scenario.restores fits).readsBack,
    fun _ fits => (ProcessSpec.restores fits).readsBack,
    fun _ fits => (BlockRange.restores fits).readsBack,
    fun _ fits => (Report.restores fits).readsBack,
    fun _ fits => (ProcessReport.restores fits).readsBack,
    fun _ fits => (Output.restores fits).readsBack,
    fun e => e.restores.readsBack,
    fun _ fits => (Registers.restores fits).readsBack,
    fun _ fits => (Log.Entry.restores fits).readsBack,
    fun l => l.restores.readsBack,
    fun _ fits => (Event.restores fits).readsBack,
    fun p => p.restores.readsBack,
    fun c => c.restores.readsBack,
    fun _ fits => (SchedulerSettings.restores fits).readsBack,
    fun _ fits => (Pid.restores fits).readsBack,
    fun c => c.restores.readsBack,
    fun p => p.restores.readsBack,
    fun s => s.restores.readsBack,
    fun s fits => ⟨_, CommandLine.getLast?_simulate s true, (Report.restores fits).readsBack_line⟩,
    ProcessSpec.exists_encode_eq_object,
    fun _ _ => ProcessSpec.decode_of_omitted⟩

def Scenario.awkward : Scenario where
  quantum := Word.limit32
  maxTicks := Word.limit
  logLevel := .warn
  blockTicks := ⟨Word.limit, 0⟩
  inputs := ["\"", "\\ud800", "\x00\x1f", "é😀"]
  processes := [
    ⟨"a \"b\"\t", Word.limit, .realtime, .high, some ".code\n\r\nHALT", none⟩,
    ⟨"", 0, .bestEffort, .low, none, some "./c\\d"⟩]

theorem documents_read_back_awkward :
    Scenario.awkward.Fits ∧ Scenario.codec.ReadsBack .awkward := by
  have fits : Scenario.awkward.Fits := by
    refine ⟨by decide, by decide, ⟨by decide, by decide⟩, fun spec member => ?_⟩
    rcases List.mem_cons.1 member with rfl | member
    · exact ⟨by decide⟩
    · exact List.mem_singleton.1 member ▸ ⟨by decide⟩
  exact ⟨fits, documents_read_back.1 .awkward fits⟩

end Timeslice
