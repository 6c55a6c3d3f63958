import Timeslice.Proofs.Json.Documents
import Timeslice.Proofs.Simulation.Creation
import Timeslice.Proofs.Simulation.Start
import Timeslice.Scenario.Load

/-! # What loading a scenario comes to

A scenario is loaded if its own file and the files of its programs are there. It is then the same
as a scenario that has the texts of those files in place. What goes wrong first, in the order in
which the files are read, is what is told, and no file is read after that.
-/

namespace Timeslice

/-! ## Computations in turn -/

section InTurn

variable {ε α β : Type} {f : α → ExceptT ε Id β}

theorem run_bind (m : ExceptT ε Id α) (f : α → ExceptT ε Id β) :
    (m >>= f).run = (m.run : Except ε α).bind fun a => (f a).run := by
  rw [ExceptT.run_bind]
  cases m.run <;> rfl

theorem run_mapM_cons (f : α → ExceptT ε Id β) (a : α) (as : List α) :
    ((a :: as).mapM f).run = ((f a).run : Except ε β).bind fun b =>
      ((as.mapM f).run : Except ε (List β)).map (b :: ·) := by
  rw [List.mapM_cons, run_bind]
  refine congrArg (Except.bind _) (funext fun b => ?_)
  rw [run_bind]
  cases (as.mapM f).run <;> rfl

theorem run_mapM_of_ok {as : List α} {bs : List β}
    (each : List.Forall₂ (fun a b => (f a).run = (.ok b : Except ε β)) as bs) :
    (as.mapM f).run = (.ok bs : Except ε (List β)) := by
  induction each with
  | nil => rfl
  | cons first others ih =>
      rw [run_mapM_cons, first, ih]
      rfl

/-- The first computation that fails ends them all. -/
theorem run_mapM_of_error {before : List α} {a : α} {e : ε} (after : List α)
    (earlier : ∀ other ∈ before, ∃ b, (f other).run = (.ok b : Except ε β))
    (failed : (f a).run = (.error e : Except ε β)) :
    ((before ++ a :: after).mapM f).run = (.error e : Except ε (List β)) := by
  induction before with
  | nil =>
      rw [List.nil_append, run_mapM_cons, failed]
      rfl
  | cons other before ih =>
      obtain ⟨b, first⟩ := earlier other List.mem_cons_self
      rw [List.cons_append, run_mapM_cons, first,
        ih fun other member => earlier other (List.mem_cons_of_mem _ member)]
      rfl

/-- Each computation has a result, or there is a first one that fails. -/
theorem forall₂_or_exists_first_error (f : α → ExceptT ε Id β) (as : List α) :
    (∃ bs, List.Forall₂ (fun a b => (f a).run = (.ok b : Except ε β)) as bs) ∨
      ∃ before a after e, as = before ++ a :: after ∧
        (∀ other ∈ before, ∃ b, (f other).run = (.ok b : Except ε β)) ∧
        (f a).run = (.error e : Except ε β) := by
  induction as with
  | nil => exact .inl ⟨[], .nil⟩
  | cons a as ih =>
      cases first : ((f a).run : Except ε β) with
      | error e =>
          exact .inr ⟨[], a, as, e, rfl, fun _ member => absurd member List.not_mem_nil, first⟩
      | ok b =>
          rcases ih with ⟨bs, each⟩ | ⟨before, failing, after, e, rfl, earlier, failed⟩
          · exact .inl ⟨b :: bs, .cons first each⟩
          · exact .inr ⟨a :: before, failing, after, e, rfl,
              List.forall_mem_cons.2 ⟨⟨b, first⟩, earlier⟩, failed⟩

end InTurn

/-! ## Programs -/

theorem run_text (read : Reader Id) (path : String) : (read.text path).run =
    (match read path with
      | .ok text => .ok text
      | .error reason => .error (.unreadable path reason) : Except SetupError String) := by
  unfold Reader.text
  rw [ExceptT.run_bind]
  cases read path <;> rfl

namespace ProcessSpec

/-- The file that the program of a process is read from. A program that is in place, however short,
is read from none. -/
def file? (base : String) (spec : ProcessSpec) : Option String :=
  match spec.program with
  | some _ => none
  | none => spec.programPath.map (Path.join base)

theorem file?_eq_none_iff {base : String} {spec : ProcessSpec} :
    spec.file? base = none ↔ spec.program.isSome ∨ spec.programPath = none := by
  unfold file?
  cases spec.program <;> simp

theorem file?_eq_some_iff {base file : String} {spec : ProcessSpec} :
    spec.file? base = some file ↔
      spec.program = none ∧ ∃ path, spec.programPath = some path ∧ Path.join base path = file := by
  unfold file?
  cases spec.program <;> simp

/-- `spec.Resolves read base resolved`: the process is as specified, with the text of its file for
its program if it has one to be read from. -/
inductive Resolves (read : Reader Id) (base : String) (spec : ProcessSpec) : ProcessSpec → Prop
  | kept (unread : spec.file? base = none) : Resolves read base spec spec
  | placed {file text : String} (wanted : spec.file? base = some file)
      (found : read file = .ok text) : Resolves read base spec { spec with program := some text }

/-- `spec.Lacks read base e`: the program of the process is to be read from a file that can not be
read. -/
inductive Lacks (read : Reader Id) (base : String) (spec : ProcessSpec) : SetupError → Prop
  | unreadable {file : String} {reason : ReadError} (wanted : spec.file? base = some file)
      (refused : read file = .error reason) : Lacks read base spec (.unreadable file reason)

section Resolve

variable {m : Type → Type} [Monad m] {spec : ProcessSpec} {base file : String}

theorem resolve_of_kept (read : Reader m) (unread : spec.file? base = none) :
    spec.resolve read base = pure spec := by
  unfold resolve
  cases given : spec.program with
  | some text => rfl
  | none =>
      obtain there | unnamed := file?_eq_none_iff.1 unread
      · rw [given] at there
        cases there
      · rw [unnamed]

theorem resolve_of_wanted (read : Reader m) (wanted : spec.file? base = some file) :
    spec.resolve read base =
      read.text file >>= fun text => pure { spec with program := some text } := by
  obtain ⟨missing, path, named, rfl⟩ := file?_eq_some_iff.1 wanted
  unfold resolve
  rw [missing, named]

end Resolve

variable {read : Reader Id} {base : String} {spec resolved : ProcessSpec} {e : SetupError}

theorem run_resolve_of_wanted {file : String} (wanted : spec.file? base = some file) :
    (spec.resolve read base).run =
      ((match read file with
        | .ok text => .ok { spec with program := some text }
        | .error reason => .error (.unreadable file reason)) : Except SetupError ProcessSpec) := by
  rw [resolve_of_wanted read wanted, run_bind, run_text]
  cases read file <;> rfl

theorem run_resolve_eq_ok_iff :
    (spec.resolve read base).run = (.ok resolved : Except SetupError ProcessSpec) ↔
      spec.Resolves read base resolved := by
  constructor
  · intro ran
    cases wanted : spec.file? base with
    | none =>
        rw [resolve_of_kept read wanted] at ran
        cases ran
        exact .kept wanted
    | some file =>
        rw [run_resolve_of_wanted wanted] at ran
        cases found : read file with
        | error reason =>
            rw [found] at ran
            cases ran
        | ok text =>
            rw [found] at ran
            cases ran
            exact .placed wanted found
  · rintro (unread | ⟨wanted, found⟩)
    · rw [resolve_of_kept read unread]
      rfl
    · rw [run_resolve_of_wanted wanted, found]

theorem run_resolve_eq_error_iff :
    (spec.resolve read base).run = (.error e : Except SetupError ProcessSpec) ↔
      spec.Lacks read base e := by
  constructor
  · intro ran
    cases wanted : spec.file? base with
    | none =>
        rw [resolve_of_kept read wanted] at ran
        cases ran
    | some file =>
        rw [run_resolve_of_wanted wanted] at ran
        cases found : read file with
        | ok text =>
            rw [found] at ran
            cases ran
        | error reason =>
            rw [found] at ran
            cases ran
            exact .unreadable wanted found
  · rintro ⟨wanted, refused⟩
    rw [run_resolve_of_wanted wanted, refused]

/-- The program of a process is had, unless its file can not be read. -/
theorem exists_resolves_iff : (∃ resolved, spec.Resolves read base resolved) ↔
    ∀ file, spec.file? base = some file → ∃ text, read file = .ok text := by
  constructor
  · rintro ⟨resolved, unread | ⟨wanted, found⟩⟩ file named
    · cases unread.symm.trans named
    · cases wanted.symm.trans named
      exact ⟨_, found⟩
  · intro readable
    cases wanted : spec.file? base with
    | none => exact ⟨spec, .kept wanted⟩
    | some file =>
        obtain ⟨text, found⟩ := readable file wanted
        exact ⟨_, .placed wanted found⟩

/-- The specification with its program in place, if it can be had, and no path. -/
def inline (read : Reader Id) (base : String) (spec : ProcessSpec) : ProcessSpec :=
  { spec with
    program := spec.program.or ((spec.file? base).bind fun file => (read file).toOption)
    programPath := none }

theorem Resolves.withoutPath (resolves : spec.Resolves read base resolved) :
    resolved.withoutPath = spec.inline read base := by
  cases resolves with
  | kept unread => simp [ProcessSpec.withoutPath, inline, unread]
  | @placed file text wanted found =>
      obtain ⟨missing, -⟩ := file?_eq_some_iff.1 wanted
      simp [ProcessSpec.withoutPath, inline, missing, wanted, found, Except.toOption]

end ProcessSpec

/-! ## Scenarios -/

namespace Scenario

/-- `Loads read path loaded`: the file of the scenario and the files of its programs can be read,
and each program is what its file has. Everything else is as the document says. -/
structure Loads (read : Reader Id) (path : String) (decoded loaded : Scenario) : Prop where
  document : ∃ text, read path = .ok text ∧ ofText text = .ok decoded
  processes : List.Forall₂ (ProcessSpec.Resolves read (Path.directory path)) decoded.processes
    loaded.processes
  others : loaded = { decoded with processes := loaded.processes }

inductive LoadFails (read : Reader Id) (path : String) : SetupError → Prop
  | unreadable {reason : ReadError} (refused : read path = .error reason) :
      LoadFails read path (.unreadable path reason)
  | invalid {text : String} (found : read path = .ok text)
      (undecoded : ofText text = .error .invalid) : LoadFails read path .invalid
  | lacking {text : String} {decoded : Scenario} {before after : List ProcessSpec}
      {spec : ProcessSpec} {e : SetupError} (found : read path = .ok text)
      (decodes : ofText text = .ok decoded) (first : decoded.processes = before ++ spec :: after)
      (earlier : ∀ other ∈ before, ∀ file, other.file? (Path.directory path) = some file →
        ∃ program, read file = .ok program)
      (lacks : spec.Lacks read (Path.directory path) e) : LoadFails read path e

def inline (read : Reader Id) (base : String) (scenario : Scenario) : Scenario :=
  { scenario with processes := scenario.processes.map (·.inline read base) }

variable {read : Reader Id} {path : String} {decoded loaded : Scenario} {e : SetupError}

theorem run_load (read : Reader Id) (path : String) : (load read path).run =
    ((read.text path).run : Except SetupError String).bind fun text =>
      (ofText text).bind fun decoded =>
        ((decoded.processes.mapM (ProcessSpec.resolve read (Path.directory path))).run :
          Except SetupError (List ProcessSpec)).map fun processes =>
            { decoded with processes } := by
  unfold load
  rw [run_bind]
  refine congrArg (Except.bind _) (funext fun text => ?_)
  rw [run_bind]
  refine congrArg (Except.bind _) (funext fun decoded => ?_)
  unfold resolve
  rw [run_bind]
  rfl

theorem run_load_of_decoded {text : String} (found : read path = .ok text)
    (decodes : ofText text = .ok decoded) :
    (load read path).run =
      ((decoded.processes.mapM (ProcessSpec.resolve read (Path.directory path))).run :
        Except SetupError (List ProcessSpec)).map fun processes => { decoded with processes } := by
  rw [run_load, run_text, found]
  dsimp only [Except.bind]
  rw [decodes]

theorem ofText_eq_invalid {text : String} (undecoded : ofText text = .error e) : e = .invalid := by
  unfold ofText at undecoded
  split at undecoded <;> cases undecoded
  rfl

theorem Loads.run (loads : Loads read path decoded loaded) :
    (load read path).run = (.ok loaded : Except SetupError Scenario) := by
  obtain ⟨⟨text, found, decodes⟩, processes, others⟩ := loads
  have resolved := run_mapM_of_ok
    (processes.imp fun _ _ => ProcessSpec.run_resolve_eq_ok_iff.2)
  rw [run_load_of_decoded found decodes, resolved, others]
  rfl

theorem LoadFails.run (fails : LoadFails read path e) :
    (load read path).run = (.error e : Except SetupError Scenario) := by
  cases fails with
  | unreadable refused =>
      rw [run_load, run_text, refused]
      rfl
  | invalid found undecoded =>
      rw [run_load, run_text, found]
      dsimp only [Except.bind]
      rw [undecoded]
  | @lacking text decoded before after spec e found decodes first earlier lacks =>
      have had (other : ProcessSpec) (member : other ∈ before) : ∃ resolved,
          (other.resolve read (Path.directory path)).run = (.ok resolved : Except _ _) :=
        (ProcessSpec.exists_resolves_iff.2 (earlier other member)).imp fun _ =>
          ProcessSpec.run_resolve_eq_ok_iff.2
      have failed := run_mapM_of_error after had (ProcessSpec.run_resolve_eq_error_iff.2 lacks)
      rw [run_load_of_decoded found decodes, first, failed]
      rfl

/-- A scenario is loaded, or something goes wrong first. -/
theorem loads_or_fails (read : Reader Id) (path : String) :
    (∃ decoded loaded, Loads read path decoded loaded) ∨ ∃ e, LoadFails read path e := by
  cases found : read path with
  | error reason => exact .inr ⟨_, .unreadable found⟩
  | ok text =>
      cases decodes : ofText text with
      | error e =>
          cases ofText_eq_invalid decodes
          exact .inr ⟨_, .invalid found decodes⟩
      | ok decoded =>
          rcases forall₂_or_exists_first_error (ProcessSpec.resolve read (Path.directory path))
            decoded.processes with
            ⟨processes, each⟩ | ⟨before, spec, after, e, first, earlier, failed⟩
          · exact .inl ⟨decoded, { decoded with processes }, ⟨text, found, decodes⟩,
              each.imp fun _ _ => ProcessSpec.run_resolve_eq_ok_iff.1, rfl⟩
          · have had (other : ProcessSpec) (member : other ∈ before) :=
              ProcessSpec.exists_resolves_iff.1
                ((earlier other member).imp fun _ => ProcessSpec.run_resolve_eq_ok_iff.1)
            exact .inr ⟨e, .lacking found decodes first had
              (ProcessSpec.run_resolve_eq_error_iff.1 failed)⟩

theorem run_load_eq_ok_iff :
    (load read path).run = (.ok loaded : Except SetupError Scenario) ↔
      ∃ decoded, Loads read path decoded loaded := by
  refine ⟨fun ran => ?_, fun ⟨decoded, loads⟩ => loads.run⟩
  rcases loads_or_fails read path with ⟨decoded, other, loads⟩ | ⟨e, fails⟩
  · cases loads.run.symm.trans ran
    exact ⟨decoded, loads⟩
  · cases fails.run.symm.trans ran

theorem run_load_eq_error_iff :
    (load read path).run = (.error e : Except SetupError Scenario) ↔ LoadFails read path e := by
  refine ⟨fun ran => ?_, LoadFails.run⟩
  rcases loads_or_fails read path with ⟨decoded, loaded, loads⟩ | ⟨other, fails⟩
  · cases loads.run.symm.trans ran
  · cases fails.run.symm.trans ran
    exact fails

theorem exists_loads_iff : (∃ decoded loaded, Loads read path decoded loaded) ↔
    ∃ text decoded, read path = .ok text ∧ ofText text = .ok decoded ∧
      ∀ spec ∈ decoded.processes, ∀ file, spec.file? (Path.directory path) = some file →
        ∃ program, read file = .ok program := by
  constructor
  · rintro ⟨decoded, loaded, ⟨text, found, decodes⟩, processes, -⟩
    refine ⟨text, decoded, found, decodes, fun spec member => ?_⟩
    obtain ⟨place, rfl⟩ := List.get_of_mem member
    exact ProcessSpec.exists_resolves_iff.1
      ⟨_, processes.get place.2 (processes.length_eq ▸ place.2)⟩
  · rintro ⟨text, decoded, found, decodes, readable⟩
    rcases loads_or_fails read path with loads | ⟨e, fails⟩
    · exact loads
    · exfalso
      cases fails with
      | unreadable refused => cases found.symm.trans refused
      | invalid found' undecoded =>
          cases found.symm.trans found'
          cases decodes.symm.trans undecoded
      | @lacking text' decoded' before after spec e found' decodes' first earlier lacks =>
          cases found.symm.trans found'
          cases decodes.symm.trans decodes'
          obtain ⟨wanted, refused⟩ := lacks
          have member : spec ∈ decoded.processes :=
            first ▸ List.mem_append_right before List.mem_cons_self
          obtain ⟨program, there⟩ := readable spec member _ wanted
          cases there.symm.trans refused

theorem Loads.withoutPaths (loads : Loads read path decoded loaded) :
    loaded.withoutPaths = decoded.inline read (Path.directory path) := by
  have same {specs resolved : List ProcessSpec}
      (each : List.Forall₂ (ProcessSpec.Resolves read (Path.directory path)) specs resolved) :
      resolved.map (·.withoutPath) = specs.map (·.inline read (Path.directory path)) := by
    induction each with
    | nil => rfl
    | cons first others ih => rw [List.map_cons, List.map_cons, first.withoutPath, ih]
  rw [Scenario.withoutPaths, Scenario.inline, same loads.processes, loads.others]

/-- A document that has every program in place is loaded as it stands. -/
theorem loads_inline {scenario : Scenario} {text : String} {read' : Reader Id} {base : String}
    (found : read path = .ok text) (decodes : ofText text = .ok (scenario.inline read' base)) :
    Loads read path (scenario.inline read' base) (scenario.inline read' base) where
  document := ⟨text, found, decodes⟩
  processes := List.forall₂_same.2 <| List.forall_mem_map.2 fun _ _ =>
    .kept (ProcessSpec.file?_eq_none_iff.2 (.inr rfl))
  others := rfl

end Scenario

/-! ## Files that are read -/

def Reader.noting (read : Reader Id) : Reader (StateM (List String)) := fun path => do
  modify (· ++ [path])
  return read path

/-- The files that are read if these are to be read in turn: none comes after one that can not be
read. -/
def Reader.untilRefused (read : Reader Id) : List String → List String
  | [] => []
  | file :: files => file :: if (read file).isOk then read.untilRefused files else []

def Scenario.filesRead (read : Reader Id) (path : String) : List String :=
  path :: match read path with
    | .error _ => []
    | .ok text =>
      match ofText text with
      | .error _ => []
      | .ok decoded =>
        read.untilRefused (decoded.processes.filterMap (·.file? (Path.directory path)))

/-- `Notes m x files`: the computation asks for these files in turn and comes to `x`. -/
def Notes {α : Type} (m : ExceptT SetupError (StateM (List String)) α) (x : Except SetupError α)
    (files : List String) : Prop :=
  ∀ log, m.run.run log = (x, log ++ files)

namespace Notes

variable {α β : Type} {m : ExceptT SetupError (StateM (List String)) α}
  {f : α → ExceptT SetupError (StateM (List String)) β} {x : Except SetupError α}
  {y : Except SetupError β} {a : α} {e : SetupError} {files files' : List String}

theorem pure (a : α) : Notes (pure a) (.ok a) [] := fun log => by
  rw [List.append_nil]
  rfl

theorem bind (first : Notes m (.ok a) files) (next : Notes (f a) y files') :
    Notes (m >>= f) y (files ++ files') := fun log => by
  rw [ExceptT.run_bind, StateT.run_bind, first log, ← List.append_assoc]
  exact next (log ++ files)

theorem bind_error (first : Notes m (.error e) files) : Notes (m >>= f) (.error e) files :=
  fun log => by
    rw [ExceptT.run_bind, StateT.run_bind, first log]
    rfl

theorem map (g : α → β) (first : Notes m x files) :
    Notes (m >>= fun a => Pure.pure (g a)) (x.map g) files := by
  cases x with
  | error e => exact first.bind_error
  | ok a =>
      rw [← List.append_nil files]
      exact first.bind (Notes.pure (g a))

variable (read : Reader Id) (base path : String)

theorem text : Notes (read.noting.text path) ((read.text path).run : Except _ _) [path] := by
  intro log
  rw [run_text]
  unfold Reader.text Reader.noting
  rw [ExceptT.run_bind]
  cases read path <;> rfl

theorem resolveAll (specs : List ProcessSpec) :
    Notes (specs.mapM (ProcessSpec.resolve read.noting base))
      ((specs.mapM (ProcessSpec.resolve read base)).run : Except _ _)
      (read.untilRefused (specs.filterMap (·.file? base))) := by
  induction specs with
  | nil => exact .pure []
  | cons spec specs ih =>
      rw [List.mapM_cons, run_mapM_cons]
      cases wanted : spec.file? base with
      | none =>
          rw [ProcessSpec.resolve_of_kept _ wanted, ProcessSpec.resolve_of_kept _ wanted,
            List.filterMap_cons_none wanted]
          exact (Notes.pure spec).bind (ih.map _)
      | some file =>
          have first := (Notes.text read file).map fun text => { spec with program := some text }
          rw [ProcessSpec.resolve_of_wanted _ wanted, ProcessSpec.run_resolve_of_wanted wanted,
            List.filterMap_cons_some wanted, Reader.untilRefused]
          rw [run_text] at first
          cases found : read file with
          | error reason =>
              rw [found] at first
              exact first.bind_error
          | ok text =>
              rw [found] at first
              exact first.bind (ih.map _)

theorem load : Notes (Scenario.load read.noting path) ((Scenario.load read path).run : Except _ _)
    (Scenario.filesRead read path) := by
  have own := Notes.text read path
  rw [run_text] at own
  cases found : read path with
  | error reason =>
      have files : Scenario.filesRead read path = [path] := by rw [Scenario.filesRead, found]
      rw [found] at own
      rw [(Scenario.LoadFails.unreadable found).run, files]
      exact own.bind_error
  | ok text =>
      rw [found] at own
      cases decodes : Scenario.ofText text with
      | error e =>
          have files : Scenario.filesRead read path = [path] ++ [] := by
            simp [Scenario.filesRead, found, decodes]
          cases Scenario.ofText_eq_invalid decodes
          rw [(Scenario.LoadFails.invalid found decodes).run, files]
          refine own.bind fun log => ?_
          rw [decodes, List.append_nil]
          rfl
      | ok decoded =>
          have files : Scenario.filesRead read path = [path] ++ read.untilRefused
              (decoded.processes.filterMap (·.file? (Path.directory path))) := by
            simp [Scenario.filesRead, found, decodes]
          have programs := Notes.resolveAll read (Path.directory path) decoded.processes
          rw [Scenario.run_load_of_decoded found decodes, files]
          refine own.bind fun log => ?_
          rw [decodes]
          exact programs.map (fun processes => { decoded with processes }) log

end Notes

/-! ## The start -/

theorem ofText_pretty {scenario : Scenario} (fits : scenario.Fits) :
    Scenario.ofText (Scenario.codec.encode scenario).pretty = .ok scenario := by
  unfold Scenario.ofText
  rw [(Scenario.restores fits).readsBack.pretty]

theorem fits_of_ofText {text : String} {scenario : Scenario}
    (decodes : Scenario.ofText text = .ok scenario) : scenario.Fits := by
  unfold Scenario.ofText at decodes
  cases read : (Json.parse? text).bind Scenario.codec.decode with
  | none =>
      rw [read] at decodes
      cases decodes
  | some found =>
      rw [read] at decodes
      cases decodes
      obtain ⟨json, -, decoded⟩ := Option.bind_eq_some_iff.1 read
      exact Scenario.fits_of_decode json _ decoded

namespace Scenario

theorem Fits.inline {scenario : Scenario} (fits : scenario.Fits) (read : Reader Id)
    (base : String) : (scenario.inline read base).Fits :=
  { fits with
    processes := List.forall_mem_map.2 fun spec member =>
      ⟨(fits.processes spec member).arrivalTime⟩ }

/-- A start from files comes to the same as a start from a document that has the texts of the files
in place, whatever the other files are then. The file of the scenario is read, and then, in the
order of the processes, the file of each program that is not in place already; nothing else is read,
and nothing after a file that can not be. Everything is loaded if all of these files can be read and
the first one is a scenario, or else the first thing that goes wrong is told. A scenario, loaded or
not, becomes a simulation if each of its processes has a program with nothing but integers for data,
or else the first fault is told; the processes are numbered from one. -/
theorem start_from_files (read : Reader Id) (path : String) :
    (∀ loaded, (load read path).run = (.ok loaded : Except SetupError Scenario) ↔
      ∃ decoded, Loads read path decoded loaded) ∧
    ((∃ decoded loaded, Loads read path decoded loaded) ↔
      ∃ text decoded, read path = .ok text ∧ ofText text = .ok decoded ∧
        ∀ spec ∈ decoded.processes, ∀ file, spec.file? (Path.directory path) = some file →
          ∃ program, read file = .ok program) ∧
    (∀ e, (load read path).run = (.error e : Except SetupError Scenario) ↔
      LoadFails read path e) ∧
    (∀ log, (load read.noting path).run.run log =
      (((load read path).run : Except SetupError Scenario), log ++ filesRead read path)) ∧
    (∀ decoded loaded, Loads read path decoded loaded →
      (∃ document, ∀ (read' : Reader Id) path', read' path' = .ok document →
        (load read' path').run =
          (.ok (decoded.inline read (Path.directory path)) : Except SetupError Scenario)) ∧
      Simulation.create (decoded.inline read (Path.directory path)) =
        Simulation.create loaded) ∧
    ∀ scenario : Scenario,
      (∀ e, Simulation.create scenario = .error e ↔
        scenario.processes.findSome? ProcessSpec.fault? = some e) ∧
      ((∃ s, Simulation.create scenario = .ok s) ↔
        ∀ spec ∈ scenario.processes, ∃ source, spec.program = some source ∧
          ∀ line ∈ Program.dataLines source, Program.refusal? line = none) ∧
      ∀ s, Simulation.create scenario = .ok s →
        List.Forall₂ (fun entry p => p.id = entry.2 + 1 ∧ p.name = entry.1.name ∧
          entry.1.program = some p.source) scenario.processes.zipIdx s.kernel.table.processes := by
  refine ⟨fun _ => run_load_eq_ok_iff, exists_loads_iff, fun _ => run_load_eq_error_iff,
    Notes.load read path, fun decoded loaded loads => ⟨?_, ?_⟩, fun scenario =>
    ⟨fun e => ?_, ?_, fun s created => ?_⟩⟩
  · obtain ⟨text, -, decodes⟩ := loads.document
    have inlined := ofText_pretty ((fits_of_ofText decodes).inline read (Path.directory path))
    exact ⟨_, fun read' path' found => (loads_inline found inlined).run⟩
  · rw [← loads.withoutPaths, Simulation.create_withoutPaths]
  · exact Simulation.create_eq_error_iff
  · simp only [← ProcessSpec.fault?_eq_none_iff]
    exact Simulation.exists_create_iff
  · refine (Simulation.begins_of_create created).processes.imp fun entry p starts => ?_
    obtain ⟨source, program, given, -, rfl⟩ := starts
    exact ⟨rfl, rfl, ProcessSpec.source_eq_ok_iff.1 given⟩

def two : String :=
  "[2, 9, \"info\", [3, 5], [], [" ++
    "[\"idle\", 0, \"realtime\", \"high\", \"\", \"nowhere\"], " ++
    "[\"halt\", 1, \"besteffort\", \"low\", null, \"halt.asm\"]]]"

def demos : Reader Id
  | "demos/two.json" => .ok two
  | "demos/halt.asm" => .ok ".code\nSYSCALL 0"
  | _ => .error .notFound

theorem start_from_files_demos :
    ∃ decoded loaded s, Loads demos "demos/two.json" decoded loaded ∧
      loaded.processes.map (·.program) = [some "", some ".code\nSYSCALL 0"] ∧
      (load demos.noting "demos/two.json").run.run [] =
        (.ok loaded, ["demos/two.json", "demos/halt.asm"]) ∧
      Simulation.create loaded = .ok s ∧
      Simulation.create (decoded.inline demos "demos") = .ok s ∧
      s.kernel.table.processes.map (·.id) = [1, 2] := by
  let idle : ProcessSpec := ⟨"idle", 0, .realtime, .high, some "", some "nowhere"⟩
  let halt : ProcessSpec := ⟨"halt", 1, .bestEffort, .low, none, some "halt.asm"⟩
  let placed : ProcessSpec := { halt with program := some ".code\nSYSCALL 0" }
  let decoded : Scenario := ⟨2, 9, .info, .standard, [], [idle, halt]⟩
  let loaded : Scenario := { decoded with processes := [idle, placed] }
  obtain ⟨loads, -, -, noted, inlined, starts⟩ := start_from_files demos "demos/two.json"
  have decodes : ofText two = .ok decoded := by decide +kernel
  have loading : Loads demos "demos/two.json" decoded loaded :=
    ⟨⟨two, rfl, decodes⟩, .cons (.kept rfl) (.cons (.placed rfl rfl) .nil), rfl⟩
  have ran := (loads loaded).2 ⟨decoded, loading⟩
  have files : filesRead demos "demos/two.json" = ["demos/two.json", "demos/halt.asm"] := by
    simp only [filesRead, demos, decodes]
    rfl
  have sound : ∀ spec ∈ loaded.processes, spec.fault? = none := by decide +kernel
  obtain ⟨-, created, numbers⟩ := starts loaded
  obtain ⟨s, begun⟩ := created.2 fun spec member =>
    ProcessSpec.fault?_eq_none_iff.1 (sound spec member)
  refine ⟨decoded, loaded, s, loading, rfl, ?_, begun,
    (inlined decoded loaded loading).2.trans begun, ?_⟩
  · rw [noted, ran, files]
    rfl
  · have numbered := numbers s begun
    generalize s.kernel.table.processes = processes at numbered ⊢
    obtain _ | ⟨⟨one, -⟩, _ | ⟨⟨next, -⟩, rest⟩⟩ := numbered
    cases rest
    rw [List.map_cons, List.map_cons, one, next, List.map_nil]

end Scenario

end Timeslice
