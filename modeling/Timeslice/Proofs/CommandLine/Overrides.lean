import Timeslice.Proofs.Json.Documents
import Timeslice.Proofs.Json.Lines
import Timeslice.Proofs.Scenario.Loading
import Timeslice.Proofs.Scenario.Rewriting
import Timeslice.Proofs.Simulation.Sources

/-! # Options in place of a scenario's own settings

A quantum, a last tick and a log level may be given on the command line or stand in the scenario.
They come into force at different moments: the log level before the simulation is created, the
quantum and the last tick after it. All the same the program prints what it prints when they stand
in the scenario.
-/

namespace Timeslice.CommandLine

/-! ## Options -/

namespace Options

/-- The scenario with the settings that the options give in place of its own. A quantum is brought
into the range from 1 to the largest 32-bit word. -/
def override (options : Options) (scenario : Scenario) : Scenario :=
  { scenario with
    quantum := (options.quantum.map fun (q : Int) => (max 1 (min q Word.limit32)).toNat).getD
      scenario.quantum
    maxTicks := options.maxTicks.getD scenario.maxTicks
    logLevel := options.logLevel.getD scenario.logLevel }

def plain (options : Options) : Options :=
  { options with quantum := .none, maxTicks := .none, logLevel := .none }

def arguments (options : Options) (path : String) : List String :=
  ["--config", path]
    ++ (options.quantum.toList.flatMap fun q => ["--quantum", Text.decimal q])
    ++ (options.maxTicks.toList.flatMap fun (m : Nat) => ["--max-ticks", Text.decimal m])
    ++ (options.logLevel.toList.flatMap fun level => ["--log-level", level.name])
    ++ (if options.json then ["--json"] else [])

structure Fits (options : Options) : Prop where
  quantum : ∀ q ∈ options.quantum, Word.least64 ≤ q ∧ q ≤ Word.largest64
  maxTicks : ∀ m ∈ options.maxTicks, m ≤ Word.limit

end Options

theorem apply_quantum (options : Options) {q : Int}
    (fits : Word.least64 ≤ q ∧ q ≤ Word.largest64) :
    Setting.quantum.apply options (Text.decimal q) = .ok { options with quantum := some q } := by
  have read : Text.signedIn? Word.least64 Word.largest64 (Text.decimal q).toList = some q := by
    simp only [Text.signedIn?, Text.signed?_decimal, Option.filter_some, fits, decide_true,
      Bool.and_self, if_true]
  simp only [Setting.apply, read]

theorem apply_maxTicks (options : Options) {m : Nat} (fits : m ≤ Word.limit) :
    Setting.maxTicks.apply options (Text.decimal m) = .ok { options with maxTicks := some m } := by
  have digits : (Text.decimal m).toList = Nat.toDigits 10 m := by
    rw [Text.toList_decimal, if_neg (by omega)]
    rfl
  have read : Text.unsignedIn? Word.limit (Text.decimal m).toList = some m := by
    simp only [Text.unsignedIn?, digits, Text.unsigned?_toDigits, Option.filter_some, fits,
      decide_true, if_true]
  simp only [Setting.apply, read]

theorem apply_logLevel (options : Options) (level : Log.Level) :
    Setting.logLevel.apply options level.name = .ok { options with logLevel := some level } := by
  cases level <;> rfl

section Reading

variable {config : Option String} {quantum : Option Int} {maxTicks : Option Nat}
  {logLevel : Option Log.Level} {json : Bool} {rest : List String}

theorem parseOnto_quantum (fits : ∀ q ∈ quantum, Word.least64 ≤ q ∧ q ≤ Word.largest64) :
    parseOnto ⟨config, none, maxTicks, logLevel, json⟩
        ((quantum.toList.flatMap fun q => ["--quantum", Text.decimal q]) ++ rest) =
      parseOnto ⟨config, quantum, maxTicks, logLevel, json⟩ rest := by
  cases quantum with
  | none => rfl
  | some q =>
      show (Setting.quantum.apply _ (Text.decimal q)).bind (parseOnto · rest) = _
      rw [apply_quantum _ (fits q rfl)]
      rfl

theorem parseOnto_maxTicks (fits : ∀ m ∈ maxTicks, m ≤ Word.limit) :
    parseOnto ⟨config, quantum, none, logLevel, json⟩
        ((maxTicks.toList.flatMap fun (m : Nat) => ["--max-ticks", Text.decimal m]) ++ rest) =
      parseOnto ⟨config, quantum, maxTicks, logLevel, json⟩ rest := by
  cases maxTicks with
  | none => rfl
  | some m =>
      show (Setting.maxTicks.apply _ (Text.decimal m)).bind (parseOnto · rest) = _
      rw [apply_maxTicks _ (fits m rfl)]
      rfl

theorem parseOnto_logLevel :
    parseOnto ⟨config, quantum, maxTicks, none, json⟩
        ((logLevel.toList.flatMap fun level => ["--log-level", level.name]) ++ rest) =
      parseOnto ⟨config, quantum, maxTicks, logLevel, json⟩ rest := by
  cases logLevel with
  | none => rfl
  | some level =>
      show (Setting.logLevel.apply _ level.name).bind (parseOnto · rest) = _
      rw [apply_logLevel]
      rfl

end Reading

theorem parse_arguments {options : Options} (fits : options.Fits) (path : String) :
    parse (options.arguments path) =
      .ok (.simulate path { options with config := some path }) := by
  obtain ⟨config, quantum, maxTicks, logLevel, json⟩ := options
  have start (rest : List String) : parseOnto .none ("--config" :: path :: rest) =
      parseOnto ⟨some path, none, none, none, false⟩ rest := rfl
  simp only [parse, Options.arguments, List.append_assoc, List.cons_append, List.nil_append]
  rw [start, parseOnto_quantum fits.quantum, parseOnto_maxTicks fits.maxTicks, parseOnto_logLevel]
  cases json <;> rfl

/-! ## Settings -/

/-- Creating processes leaves the scheduler out. -/
theorem addProcess_withScheduler (range : BlockRange) (k : Kernel Services) (scheduler : Scheduler)
    (spec : ProcessSpec) (index : Nat) :
    Simulation.addProcess range { k with scheduler } spec index =
      (Simulation.addProcess range k spec index).map ({ · with scheduler }) := by
  unfold Simulation.addProcess
  cases spec.source with
  | error e => rfl
  | ok source =>
      simp only [bind, Except.bind]
      rcases k.table.create spec.name source spec.arrivalTime spec.schedulingClass spec.priority
        with ⟨_ | _, table⟩ <;> rfl

theorem addAll_withScheduler (range : BlockRange) (k : Kernel Services) (scheduler : Scheduler)
    (entries : List (ProcessSpec × Nat)) :
    entries.foldlM (fun kernel entry => Simulation.addProcess range kernel entry.1 entry.2)
        { k with scheduler } =
      (entries.foldlM (fun kernel entry => Simulation.addProcess range kernel entry.1 entry.2)
        k).map ({ · with scheduler }) := by
  induction entries generalizing k with
  | nil => rfl
  | cons entry rest ih =>
      simp only [List.foldlM_cons, addProcess_withScheduler]
      cases Simulation.addProcess range k entry.1 entry.2 with
      | error e => rfl
      | ok l => exact ih l

/-- What creating the processes gives does not depend on the quantum or on the last tick. -/
theorem exists_create_eq (level : Log.Level) (range : BlockRange) (inputs : List String)
    (specs : List ProcessSpec) : ∃ created : Except SetupError (Kernel Services),
      ∀ quantum maxTicks, Simulation.create ⟨quantum, maxTicks, level, range, inputs, specs⟩ =
        created.map fun kernel => ⟨maxTicks,
          { kernel with scheduler := (Scheduler.idle level).setQuantum quantum }, inputs,
          .of range 0, .keeping level, []⟩ := by
  refine ⟨specs.zipIdx.foldlM
    (fun kernel entry => Simulation.addProcess range kernel entry.1 entry.2)
    (Kernel.empty level), fun quantum maxTicks => ?_⟩
  have added := addAll_withScheduler range (Kernel.empty level)
    ((Scheduler.idle level).setQuantum quantum) specs.zipIdx
  show (specs.zipIdx.foldlM
    (fun kernel entry => Simulation.addProcess range kernel entry.1 entry.2)
    { Kernel.empty level with scheduler := (Scheduler.idle level).setQuantum quantum }).map _ = _
  rw [added]
  cases specs.zipIdx.foldlM
      (fun kernel entry => Simulation.addProcess range kernel entry.1 entry.2)
      (Kernel.empty level) <;> rfl

/-- The last quantum set counts, and it is in range after it is brought there once. -/
theorem setQuantum_setQuantum (scheduler : Scheduler) (p q : Int) :
    (scheduler.setQuantum p).setQuantum q =
      scheduler.setQuantum ((max 1 (min q Word.limit32)).toNat : Nat) := by
  have settled : max 1 (min (((max 1 (min q Word.limit32)).toNat : Nat) : Int) Word.limit32) =
      max 1 (min q Word.limit32) := by
    have positive : 1 ≤ (Word.limit32 : Int) := by decide
    omega
  simp only [Scheduler.setQuantum, settled]

/-- Options come to the same as the settings that they stand in place of. -/
theorem start_eq_create (scenario : Scenario) (options : Options) :
    start scenario options = Simulation.create (options.override scenario) := by
  obtain ⟨config, quantum, maxTicks, logLevel, json⟩ := options
  obtain ⟨own, ticks, level, range, inputs, specs⟩ := scenario
  obtain ⟨created, begins⟩ := exists_create_eq (logLevel.getD level) range inputs specs
  have leveled : start ⟨own, ticks, level, range, inputs, specs⟩
      ⟨config, quantum, maxTicks, logLevel, json⟩ =
      start ⟨own, ticks, logLevel.getD level, range, inputs, specs⟩
        ⟨config, quantum, maxTicks, none, json⟩ := by
    cases logLevel <;> rfl
  rw [leveled, Options.override, begins]
  simp only [start, begins]
  cases created with
  | error e => rfl
  | ok kernel =>
      refine congrArg Except.ok ?_
      cases quantum with
      | none => cases maxTicks <;> rfl
      | some q =>
          have set := setQuantum_setQuantum (.idle (logLevel.getD level)) own q
          cases maxTicks <;> exact congrArg (fun scheduler => Simulation.mk _
            (Kernel.mk kernel.table scheduler) inputs _ _ []) set

/-! ## File sets -/

/-- Two file sets that are the same but for one file, which holds `text` in the one and `text'` in
the other. It goes by the name `path`, and may go by others. -/
structure Replaced (read read' : Reader Id) (path text text' : String) : Prop where
  before : read path = .ok text
  after : read' path = .ok text'
  others : ∀ name, read' name = read name ∨ (read name = .ok text ∧ read' name = .ok text')

namespace Replaced

variable {read read' : Reader Id} {path text text' : String}

/-- A process whose program is in the file that is replaced has the same program either way. -/
theorem gist_resolve (replaced : Replaced read read' path text text')
    (same : Program.parse text = Program.parse text') (base : String) (spec : ProcessSpec) :
    (spec.resolve read base).run.map ProcessSpec.gist =
      (spec.resolve read' base).run.map ProcessSpec.gist := by
  cases wanted : spec.file? base with
  | none => rw [ProcessSpec.resolve_of_kept read wanted, ProcessSpec.resolve_of_kept read' wanted]
  | some file =>
      rw [ProcessSpec.run_resolve_of_wanted wanted, ProcessSpec.run_resolve_of_wanted wanted]
      rcases replaced.others file with other | ⟨before, after⟩
      · rw [other]
      · rw [before, after]
        exact congrArg (fun program => Except.ok (ProcessSpec.Gist.mk spec.name
          spec.arrivalTime spec.schedulingClass spec.priority (.ok program))) same

theorem gist_resolveAll (replaced : Replaced read read' path text text')
    (same : Program.parse text = Program.parse text') (base : String) (specs : List ProcessSpec) :
    (specs.mapM (ProcessSpec.resolve read base)).run.map (List.map ProcessSpec.gist) =
      (specs.mapM (ProcessSpec.resolve read' base)).run.map (List.map ProcessSpec.gist) := by
  induction specs with
  | nil => rfl
  | cons spec rest ih =>
      rw [run_mapM_cons, run_mapM_cons]
      rcases cases_of_map_eq (replaced.gist_resolve same base spec) with
        ⟨e, left, right⟩ | ⟨a, b, left, right, alike⟩
      · rw [left, right]
        rfl
      · rw [left, right]
        rcases cases_of_map_eq ih with ⟨e, left, right⟩ | ⟨as, bs, left, right, others⟩
        · rw [left, right]
          rfl
        · rw [left, right]
          exact congrArg Except.ok (congrArg₂ List.cons alike others)

end Replaced

/-! ## Runs -/

def transcript (loaded : Except SetupError Scenario) (options : Options) : Transcript :=
  match loaded with
  | .error e => failure ("Failed to load scenario: " ++ e.message ++ "\n")
  | .ok scenario =>
    match start scenario options with
    | .error e => failure ("Failed to create simulation: " ++ e.message ++ "\n")
    | .ok simulation => simulate simulation options.json

theorem run_eq_transcript {read : Reader Id} {program path text : String} {scenario : Scenario}
    {arguments : List String} {options : Options}
    (asked : parse arguments = .ok (.simulate path options)) (found : read path = .ok text)
    (decoded : Scenario.ofText text = .ok scenario) : run read program arguments =
      transcript (((scenario.processes.mapM
        (ProcessSpec.resolve read (Path.directory path))).run : Except _ _).map
          fun processes => { scenario with processes }) options := by
  unfold run
  rw [asked]
  dsimp only
  rw [Scenario.run_load_of_decoded found decoded]
  cases (scenario.processes.mapM (ProcessSpec.resolve read (Path.directory path))).run with
  | error e => rfl
  | ok processes =>
      simp only [Except.map, bind, transcript]
      cases start { scenario with processes } options <;> rfl

/-- Every document is a program with nothing in it. -/
theorem parse_of_ofText {text : String} {scenario : Scenario}
    (decoded : Scenario.ofText text = .ok scenario) : Program.parse text = .ok .empty := by
  cases parsed : Json.parse? text with
  | none =>
      rw [Scenario.ofText, parsed] at decoded
      cases decoded
  | some json =>
      obtain ⟨tokens, lexed, -⟩ := Option.bind_eq_some_iff.1 parsed
      exact Program.parse_of_tokens lexed

/-- A scenario that comes from a document has one in the override as well. -/
theorem exists_ofText_override {text : String} {scenario : Scenario} {options : Options}
    (decoded : Scenario.ofText text = .ok scenario) (fits : options.Fits) :
    ∃ text', Scenario.ofText text' = .ok (options.override scenario) := by
  have own := fits_of_ofText decoded
  have overridden : (options.override scenario).Fits := by
    obtain ⟨config, quantum, maxTicks, logLevel, json⟩ := options
    refine { own with quantum := ?_, maxTicks := ?_ }
    · cases quantum with
      | none => exact own.quantum
      | some q =>
          show (max 1 (min q Word.limit32)).toNat ≤ Word.limit32
          have positive : 1 ≤ (Word.limit32 : Int) := by decide
          omega
    · cases maxTicks with
      | none => exact own.maxTicks
      | some m => exact fits.maxTicks m rfl
  exact ⟨(Scenario.codec.encode (options.override scenario)).pretty, ofText_pretty overridden⟩

theorem transcript_eq {scenario : Scenario} {options : Options}
    {loaded loaded' : Except SetupError (List ProcessSpec)}
    (same : loaded.map (List.map ProcessSpec.gist) = loaded'.map (List.map ProcessSpec.gist)) :
    transcript (loaded.map fun processes => { scenario with processes }) options =
      transcript (loaded'.map fun processes => { options.override scenario with processes })
        options.plain := by
  rcases cases_of_map_eq same with ⟨e, rfl, rfl⟩ | ⟨specs, specs', rfl, rfl, alike⟩
  · rfl
  · have left : start { scenario with processes := specs } options =
        Simulation.create { options.override scenario with processes := specs } :=
      start_eq_create _ options
    have right : start { options.override scenario with processes := specs' } options.plain =
        Simulation.create { options.override scenario with processes := specs' } :=
      start_eq_create _ options.plain
    have created := Simulation.create_erase (options.override scenario) alike
    simp only [Except.map, transcript]
    rw [left, right]
    rcases cases_of_map_eq created with ⟨e, failed, failed'⟩ | ⟨s, s', begun, begun', erased⟩
    · rw [failed, failed']
    · rw [begun, begun']
      show simulate s options.json = simulate s' options.json
      rw [← simulate_erase s, erased, simulate_erase s']

/-- Options on the command line come to the same as the settings of the scenario that they stand in
place of. Whatever the files are, the program prints the same with the options as it prints without
them where the file of the scenario has been replaced by one that has their values. All options can
be given, all their values can be written to a scenario, and every file of a tree can be
replaced. -/
theorem options_agree_with_scenario :
    (∀ (options : Options) (path : String), options.Fits →
      parse (options.arguments path) =
        .ok (.simulate path { options with config := some path })) ∧
    (∀ (text : String) (scenario : Scenario) (options : Options),
      Scenario.ofText text = .ok scenario → options.Fits →
      ∃ text', Scenario.ofText text' = .ok (options.override scenario)) ∧
    (∀ (tree : FileTree) (path text text' : String), tree.read path = .ok text →
      ∃ tree' : FileTree, Replaced tree.read tree'.read path text text') ∧
    ∀ (read read' : Reader Id) (program path text text' : String) (scenario : Scenario)
      (arguments arguments' : List String) (options : Options),
      Replaced read read' path text text' →
      Scenario.ofText text = .ok scenario →
      Scenario.ofText text' = .ok (options.override scenario) →
      parse arguments = .ok (.simulate path options) →
      parse arguments' = .ok (.simulate path options.plain) →
      run read program arguments = run read' program arguments' := by
  refine ⟨fun options path fits => parse_arguments fits path,
    fun text scenario options decoded fits => exists_ofText_override decoded fits,
    fun tree path text text' found => ?_, ?_⟩
  · obtain ⟨tree', after, others⟩ := FileTree.exists_rewritten found text'
    exact ⟨tree', found, after, others⟩
  · intro read read' program path text text' scenario arguments arguments' options replaced decoded
      decoded' asked asked'
    have same : Program.parse text = Program.parse text' := by
      rw [parse_of_ofText decoded, parse_of_ofText decoded']
    rw [run_eq_transcript asked replaced.before decoded,
      run_eq_transcript asked' replaced.after decoded']
    exact transcript_eq (replaced.gist_resolveAll same (Path.directory path) scenario.processes)

/-- A scenario with a process that has the scenario itself for its program, by another path. -/
def reflexive : Scenario where
  quantum := 2
  maxTicks := 9
  logLevel := .info
  blockTicks := .standard
  inputs := []
  processes := [
    ⟨"halt", 0, .realtime, .low, some ".code\nHALT", none⟩,
    ⟨"self", 0, .bestEffort, .high, none, some "./self.json"⟩]

def oneFile (text : String) : FileTree := .ofList [("self.json", .file text.toUTF8)]

theorem read_oneFile (text : String) : (oneFile text).read "self.json" = .ok text := by
  have led : (oneFile text).follow "self.json" = .ok (.inside ["self.json"]) := by
    unfold FileTree.follow
    rw [if_neg (by simp), if_neg (by simp), if_neg (by decide)]
    rfl
  rw [FileTree.read_eq, led]
  exact congrArg (Option.elim · _ Except.ok) (FileTree.fromUTF8?_toUTF8 text)

theorem options_agree_with_reflexive :
    ∃ (options : Options) (text text' : String) (tree' : FileTree), options.Fits ∧
      (oneFile text).read "self.json" = .ok text ∧
      Replaced (oneFile text).read tree'.read "self.json" text text' ∧
      Scenario.ofText text = .ok reflexive ∧
      Scenario.ofText text' = .ok (options.override reflexive) ∧
      parse ["-q", "-7", "--max-ticks", "5", "-c", "self.json", "--log-level", "DEBUG"] =
        .ok (.simulate "self.json" options) ∧
      parse (options.plain.arguments "self.json") = .ok (.simulate "self.json" options.plain) ∧
      run (oneFile text).read "timeslice"
          ["-q", "-7", "--max-ticks", "5", "-c", "self.json", "--log-level", "DEBUG"] =
        run tree'.read "timeslice" (options.plain.arguments "self.json") := by
  have own : reflexive.Fits := by
    refine ⟨by decide, by decide, ⟨by decide, by decide⟩, fun spec member => ?_⟩
    rcases List.mem_cons.1 member with rfl | member
    · exact ⟨by decide⟩
    · exact List.mem_singleton.1 member ▸ ⟨by decide⟩
  let options : Options := ⟨some "self.json", some (-7), some 5, some .debug, false⟩
  have fits : options.Fits :=
    ⟨fun _ given => Option.some.inj given ▸ by decide,
      fun _ given => Option.some.inj given ▸ by decide⟩
  have plainFits : options.plain.Fits :=
    ⟨fun _ given => absurd given (Option.not_mem_none _),
      fun _ given => absurd given (Option.not_mem_none _)⟩
  let text := (Scenario.codec.encode reflexive).pretty
  have decoded : Scenario.ofText text = .ok reflexive := ofText_pretty own
  have asked' := options_agree_with_scenario.1 options.plain "self.json" plainFits
  obtain ⟨text', decoded'⟩ := options_agree_with_scenario.2.1 text reflexive options decoded fits
  obtain ⟨tree', replaced⟩ :=
    options_agree_with_scenario.2.2.1 (oneFile text) "self.json" text text' (read_oneFile text)
  refine ⟨options, text, text', tree', fits, read_oneFile text, replaced, decoded, decoded', rfl,
    asked', ?_⟩
  exact options_agree_with_scenario.2.2.2 _ _ "timeslice" "self.json" text text' reflexive _ _
    options replaced decoded decoded' rfl asked'

end Timeslice.CommandLine
