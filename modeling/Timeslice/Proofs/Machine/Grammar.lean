import Mathlib.Data.List.Induction
import Mathlib.Data.List.Infix
import Mathlib.Data.List.TakeWhile
import Timeslice.Machine.Program

/-! # The grammar of program texts

What the text of a program means, said of the whole text at once and not line by line: which of its
lines are code and which are data, what each kind declares, and what a text is refused for. Loading
comes to just that.
-/

namespace Timeslice.Program

/-- A trimmed line with its number. -/
abbrev Line := List Char × Nat

/-! ## Regions -/

/-- The lines that say something: blank lines and comments are left out. -/
def spoken (text : String) : List Line :=
  (numberedLines text).filter fun line => !Loading.isSilent line.1

theorem isSilent_iff {line : List Char} :
    Loading.isSilent line ↔ line = [] ∨ line.head? = some '#' := by
  rw [Loading.isSilent, Bool.or_eq_true, List.isEmpty_iff, beq_iff_eq]

theorem mem_spoken_iff {text : String} {line : Line} :
    line ∈ spoken text ↔
      line ∈ numberedLines text ∧ line.1 ≠ [] ∧ line.1.head? ≠ some '#' := by
  rw [spoken, List.mem_filter, Bool.not_eq_true', ← Bool.not_eq_true, isSilent_iff, not_or]

/-- A line as markers are told by, with its ASCII letters in lower case. -/
def keyword (line : Line) : String := String.ofList (line.1.map Char.toLower)

def markers : List String := [".code", ".data", ".endcode", ".enddata"]

def lastMarker? (among : List String) (lines : List Line) : Option String :=
  ((lines.map keyword).filter (among.contains ·)).getLast?

/-- Whether what comes after the lines is code. Where data ends has no bearing on it. -/
def opensCode (lines : List Line) : Bool :=
  lastMarker? [".code", ".data", ".endcode"] lines = some ".code"

/-- Whether what comes after the lines is data. Where code ends has no bearing on it. -/
def opensData (lines : List Line) : Bool :=
  lastMarker? [".code", ".data", ".enddata"] lines = some ".data"

def admits (opens : List Line → Bool) (before : List Line) (line : Line) : Bool :=
  opens before && !markers.contains (keyword line)

def within (opens : List Line → Bool) (lines : List Line) : List Line :=
  ((lines.inits.zip lines).filter fun entry => admits opens entry.1 entry.2).map Prod.snd

def codeLines (text : String) : List Line := within opensCode (spoken text)

def dataLines (text : String) : List Line := within opensData (spoken text)

/-! ## Declarations -/

/-- The label of a code line: what stands before its first colon. -/
def labelOf? (line : Line) : Option String :=
  if ':' ∈ line.1 then some (String.ofList (Text.trim (line.1.takeWhile (· != ':')))) else none

def instructionText (line : Line) : List Char :=
  if ':' ∈ line.1 then Text.trim (line.1.dropWhile (· != ':')).tail else line.1

def instructionsOf (code : List Line) : List Instruction :=
  ((code.map instructionText).filter (! ·.isEmpty)).map .decode

/-- The name and the value of a data line, which are its first two fields. -/
def entryOf? (line : Line) : Option (String × List Char) :=
  match Text.fields line.1 with
  | name :: value :: _ => some (String.ofList name, value)
  | _ => none

def nameOf? (line : Line) : Option String := (entryOf? line).map Prod.fst

def valueOf? (line : Line) : Option Int32 := (entryOf? line).bind fun entry => Text.int32? entry.2

def refusal? (line : Line) : Option LoadError :=
  (entryOf? line).bind fun entry =>
    if (Text.int32? entry.2).isSome then none else some ⟨line.2, String.ofList entry.2⟩

/-- `LastOf key? key lines before line`: `line` is the last of `lines` with this key, and `before`
are those before it. -/
def LastOf (key? : Line → Option String) (key : String) (lines before : List Line)
    (line : Line) : Prop :=
  key? line = some key ∧
    ∃ after, lines = before ++ line :: after ∧ ∀ later ∈ after, key? later ≠ some key

/-! ## One more line -/

section Concat

variable (lines : List Line) (line : Line)

theorem lastMarker?_concat (among : List String) :
    lastMarker? among (lines ++ [line]) =
      if among.contains (keyword line) then some (keyword line) else lastMarker? among lines := by
  unfold lastMarker?
  rw [List.map_append, List.filter_append, List.map_singleton]
  by_cases h : among.contains (keyword line)
  · rw [if_pos h, List.filter_cons_of_pos h, List.filter_nil, List.getLast?_concat]
  · rw [if_neg h, List.filter_cons_of_neg h, List.filter_nil, List.append_nil]

theorem zip_inits_concat :
    (lines ++ [line]).inits.zip (lines ++ [line]) = lines.inits.zip lines ++ [(lines, line)] := by
  induction lines with
  | nil => rfl
  | cons first rest ih =>
      simp only [List.cons_append, List.inits_cons, List.zip_cons_cons, List.zip_map_left, ih,
        List.map_append, List.map_singleton, Prod.map_apply, id_eq]

theorem within_concat (opens : List Line → Bool) :
    within opens (lines ++ [line]) =
      within opens lines ++ if admits opens lines line then [line] else [] := by
  unfold within
  rw [zip_inits_concat, List.filter_append, List.map_append]
  cases h : admits opens lines line with
  | true => simp only [List.filter_cons, h, if_true, List.filter_nil, List.map_singleton]
  | false => simp only [List.filter_cons, h, Bool.false_eq_true, if_false, List.filter_nil,
      List.map_nil]

theorem instructionsOf_concat :
    instructionsOf (lines ++ [line]) = instructionsOf lines ++
      if (instructionText line).isEmpty then [] else [.decode (instructionText line)] := by
  unfold instructionsOf
  rw [List.map_append, List.filter_append, List.map_append, List.map_singleton]
  cases h : (instructionText line).isEmpty with
  | true => simp [h]
  | false => simp [h]

/-- A line found in a list with one more line is the new one or was found before. -/
theorem concat_eq_iff {before after : List Line} {found : Line} :
    lines ++ [line] = before ++ found :: after ↔
      (before = lines ∧ found = line ∧ after = []) ∨
        ∃ rest, lines = before ++ found :: rest ∧ after = rest ++ [line] := by
  constructor
  · intro split
    rcases List.eq_nil_or_concat' after with rfl | ⟨rest, last, rfl⟩
    · obtain ⟨same, last⟩ := List.append_inj' split rfl
      exact .inl ⟨same.symm, (List.singleton_inj.1 last).symm, rfl⟩
    · rw [← List.cons_append, ← List.append_assoc] at split
      obtain ⟨same, last⟩ := List.append_inj' split rfl
      exact .inr ⟨rest, same, by rw [List.singleton_inj.1 last]⟩
  · rintro (⟨rfl, rfl, rfl⟩ | ⟨rest, rfl, rfl⟩)
    · rfl
    · rw [List.append_assoc, List.cons_append]

theorem lastOf_concat {key? : Line → Option String} {key : String} {before : List Line}
    {found : Line} :
    LastOf key? key (lines ++ [line]) before found ↔
      if key? line = some key then before = lines ∧ found = line
      else LastOf key? key lines before found := by
  simp only [LastOf, concat_eq_iff]
  split
  · rename_i keyed
    constructor
    · rintro ⟨-, after, ⟨rfl, rfl, -⟩ | ⟨rest, -, rfl⟩, clear⟩
      · exact ⟨rfl, rfl⟩
      · exact (clear line (by simp) keyed).elim
    · rintro ⟨rfl, rfl⟩
      exact ⟨keyed, [], .inl ⟨rfl, rfl, rfl⟩, fun later member => (List.not_mem_nil member).elim⟩
  · rename_i other
    constructor
    · rintro ⟨keyed, after, ⟨-, rfl, -⟩ | ⟨rest, split, rfl⟩, clear⟩
      · exact (other keyed).elim
      · exact ⟨keyed, rest, split, fun later member => clear later (by simp [member])⟩
    · rintro ⟨keyed, rest, split, clear⟩
      refine ⟨keyed, rest ++ [line], .inr ⟨rest, split, rfl⟩, fun later member => ?_⟩
      rcases List.mem_append.1 member with earlier | last
      · exact clear later earlier
      · rw [List.mem_singleton.1 last]
        exact other

end Concat

/-! ## Regions in the course of loading -/

structure OpenAfter (lines : List Line) (region : Region) : Prop where
  code : region = .code ↔ opensCode lines
  data : region = .data ↔ opensData lines

variable {lines : List Line} {line : Line} {region next : Region}

theorem openAfter_nil : OpenAfter [] .outside := by
  constructor <;> decide

theorem OpenAfter.marker (h : OpenAfter lines region)
    (marker : region.afterMarker? line.1 = some next) : OpenAfter (lines ++ [line]) next := by
  unfold Region.afterMarker? at marker
  split at marker
  case h_1 word =>
    have word : keyword line = ".code" := word
    cases marker
    constructor <;> simp [opensCode, opensData, lastMarker?_concat, word]
  case h_2 word =>
    have word : keyword line = ".data" := word
    cases marker
    constructor <;> simp [opensCode, opensData, lastMarker?_concat, word]
  case h_3 word =>
    have word : keyword line = ".endcode" := word
    have data : opensData (lines ++ [line]) = opensData lines := by
      simp [opensData, lastMarker?_concat, word]
    cases marker
    constructor
    · cases region <;> simp [opensCode, lastMarker?_concat, word]
    · rw [data, ← h.data]
      cases region <;> decide
  case h_4 word =>
    have word : keyword line = ".enddata" := word
    have code : opensCode (lines ++ [line]) = opensCode lines := by
      simp [opensCode, lastMarker?_concat, word]
    cases marker
    constructor
    · rw [code, ← h.code]
      cases region <;> decide
    · cases region <;> simp [opensData, lastMarker?_concat, word]
  case h_5 => contradiction

theorem contains_markers (region : Region) (line : Line) :
    markers.contains (keyword line) = (region.afterMarker? line.1).isSome := by
  unfold Region.afterMarker? keyword
  split
  case h_5 code data endcode enddata =>
    simp only [Option.isSome_none, markers, List.contains_eq_mem, decide_eq_false_iff_not,
      List.mem_cons, List.not_mem_nil, or_false, not_or]
    exact ⟨code, data, endcode, enddata⟩
  all_goals
    rename_i word
    rw [word]
    rfl

theorem OpenAfter.no_marker (h : OpenAfter lines region)
    (none : region.afterMarker? line.1 = none) : OpenAfter (lines ++ [line]) region := by
  have other : keyword line ∉ markers := by
    have contained := contains_markers region line
    rw [none] at contained
    simpa using contained
  simp only [markers, List.mem_cons, List.not_mem_nil, or_false, not_or] at other
  constructor
  · simp [opensCode, lastMarker?_concat, other, h.code]
  · simp [opensData, lastMarker?_concat, other, h.data]

/-! ## Single lines -/

theorem addCode_eq (p : Program) (line : Line) :
    p.addCode line.1 =
      ((labelOf? line).elim p p.addLabel).addInstruction (instructionText line) := by
  unfold addCode labelOf? instructionText
  by_cases colon : ':' ∈ line.1
  · rw [if_pos colon, if_pos colon]
    split
    · rename_i none_left
      have all := List.dropWhile_eq_nil_iff.1 none_left ':' colon
      contradiction
    · rename_i rest split
      rw [split]
      rfl
  · rw [if_neg colon, if_neg colon]
    have none_left : line.1.dropWhile (· != ':') = [] := by
      rw [List.dropWhile_eq_nil_iff]
      intro c hc
      simpa using fun same : c = ':' => colon (same ▸ hc)
    rw [none_left]
    rfl

theorem instructions_addCode (p : Program) (line : Line) :
    (p.addCode line.1).instructions = p.instructions ++
      if (instructionText line).isEmpty then [] else [.decode (instructionText line)] := by
  have labelled : ((labelOf? line).elim p p.addLabel).instructions = p.instructions := by
    cases labelOf? line <;> rfl
  rw [addCode_eq, addInstruction, ← labelled]
  split
  · rw [List.append_nil]
  · rfl

theorem label?_addCode (p : Program) (line : Line) (name : String) :
    (p.addCode line.1).label? name =
      if labelOf? line = some name then some p.size else p.label? name := by
  have added (p : Program) (text : List Char) :
      (p.addInstruction text).label? name = p.label? name := by
    unfold addInstruction
    split <;> rfl
  rw [addCode_eq, added]
  cases labelOf? line with
  | none => rfl
  | some label =>
      by_cases same : label = name
      · simp [label?, addLabel, same]
      · have other : (name == label) = false := beq_eq_false_iff_ne.2 (Ne.symm same)
        simp [label?, addLabel, same, other, List.lookup_cons]

theorem data_addCode (p : Program) (line : Line) : (p.addCode line.1).data = p.data := by
  rw [addCode_eq, addInstruction]
  cases labelOf? line <;> split <;> rfl

theorem addData_eq (p : Program) (line : Line) :
    p.addData line.2 line.1 =
      match refusal? line with
      | some e => .error e
      | none =>
        match nameOf? line, valueOf? line with
        | some name, some value => .ok { p with data := p.data.insert name value }
        | _, _ => .ok p := by
  unfold addData refusal? nameOf? valueOf? entryOf?
  rcases Text.fields line.1 with _ | ⟨name, _ | ⟨value, rest⟩⟩
  · rfl
  · rfl
  · cases number : Text.int32? value with
    | none => simp [number]
    | some v => simp [number]

/-! ## Whole texts -/

structure Loaded (lines : List Line) (loading : Loading) : Prop where
  region : OpenAfter lines loading.region
  instructions : loading.program.instructions = instructionsOf (within opensCode lines)
  labels : ∀ name index, loading.program.label? name = some index ↔
    ∃ before line, LastOf labelOf? name (within opensCode lines) before line ∧
      index = (instructionsOf before).length
  values : ∀ name value, loading.program.data.get? name = some value ↔
    ∃ before line, LastOf nameOf? name (within opensData lines) before line ∧
      valueOf? line = some value

variable {loading : Loading}

theorem loaded_nil : Loaded [] .start where
  region := openAfter_nil
  instructions := rfl
  labels name index := by
    constructor
    · intro h
      contradiction
    · rintro ⟨before, line, ⟨-, after, split, -⟩, -⟩
      simp [within] at split
  values name value := by
    constructor
    · intro h
      contradiction
    · rintro ⟨before, line, ⟨-, after, split, -⟩, -⟩
      simp [within] at split

theorem within_concat_of_admits {opens : List Line → Bool} (admitted : admits opens lines line) :
    within opens (lines ++ [line]) = within opens lines ++ [line] := by
  rw [within_concat, if_pos admitted]

theorem within_concat_of_not_admits {opens : List Line → Bool}
    (closed : ¬ admits opens lines line) : within opens (lines ++ [line]) = within opens lines := by
  rw [within_concat, if_neg closed, List.append_nil]

/-- A key is found in a line that has it, or else where it was found before. -/
theorem exists_lastOf_concat {key? : Line → Option String} {key : String}
    {fits : List Line → Line → Prop} :
    (∃ before found, LastOf key? key (lines ++ [line]) before found ∧ fits before found) ↔
      if key? line = some key then fits lines line
      else ∃ before found, LastOf key? key lines before found ∧ fits before found := by
  simp only [lastOf_concat]
  split
  · constructor
    · rintro ⟨_, _, ⟨rfl, rfl⟩, fit⟩
      exact fit
    · intro fit
      exact ⟨lines, line, ⟨rfl, rfl⟩, fit⟩
  · exact Iff.rfl

namespace Loaded

theorem skip (h : Loaded lines loading) (region : OpenAfter (lines ++ [line]) next)
    (code : ¬ admits opensCode lines line) (data : ¬ admits opensData lines line) :
    Loaded (lines ++ [line]) { loading with region := next } := by
  refine ⟨region, ?_, ?_, ?_⟩
  · rw [within_concat_of_not_admits code]
    exact h.instructions
  · rw [within_concat_of_not_admits code]
    exact h.labels
  · rw [within_concat_of_not_admits data]
    exact h.values

theorem addCode (h : Loaded lines loading) (region : OpenAfter (lines ++ [line]) loading.region)
    (code : admits opensCode lines line) (data : ¬ admits opensData lines line) :
    Loaded (lines ++ [line]) { loading with program := loading.program.addCode line.1 } := by
  refine ⟨region, ?_, ?_, ?_⟩
  · rw [within_concat_of_admits code, instructionsOf_concat, instructions_addCode, h.instructions]
  · intro name index
    rw [label?_addCode, within_concat_of_admits code, exists_lastOf_concat]
    split
    · rw [size, h.instructions, Option.some.injEq, eq_comm]
    · exact h.labels name index
  · rw [within_concat_of_not_admits data, data_addCode]
    exact h.values

/-- A data line leaves instructions and labels alone. -/
theorem withData (h : Loaded lines loading) (region : OpenAfter (lines ++ [line]) loading.region)
    (code : ¬ admits opensCode lines line) {data : Store}
    (values : ∀ name value, data.get? name = some value ↔
      ∃ before found, LastOf nameOf? name (within opensData (lines ++ [line])) before found ∧
        valueOf? found = some value) :
    Loaded (lines ++ [line]) { loading with program := { loading.program with data } } := by
  refine ⟨region, ?_, ?_, values⟩
  · rw [within_concat_of_not_admits code]
    exact h.instructions
  · rw [within_concat_of_not_admits code]
    exact h.labels

theorem addData (h : Loaded lines loading) (region : OpenAfter (lines ++ [line]) loading.region)
    (code : ¬ admits opensCode lines line) (data : admits opensData lines line)
    (accepted : refusal? line = none) :
    ∃ program, loading.program.addData line.2 line.1 = .ok program ∧
      Loaded (lines ++ [line]) { loading with program } := by
  rw [addData_eq, accepted]
  cases entry : entryOf? line with
  | none =>
      have nameless : nameOf? line = none := by rw [nameOf?, entry, Option.map_none]
      refine ⟨loading.program, by rw [nameless], h.withData region code ?_⟩
      intro name value
      rw [within_concat_of_admits data, exists_lastOf_concat, nameless,
        if_neg (Option.some_ne_none name).symm]
      exact h.values name value
  | some given =>
      have named : nameOf? line = some given.1 := by rw [nameOf?, entry, Option.map_some]
      obtain ⟨number, valued⟩ : ∃ number, valueOf? line = some number := by
        rw [refusal?, entry, Option.bind_some] at accepted
        rw [valueOf?, entry, Option.bind_some]
        cases read : Text.int32? given.2 with
        | none => simp [read] at accepted
        | some number => exact ⟨number, rfl⟩
      rw [named, valued]
      refine ⟨_, rfl, h.withData region code ?_⟩
      intro name value
      rw [within_concat_of_admits data, exists_lastOf_concat, Store.get?_insert, named, valued]
      by_cases same : given.1 = name
      · rw [if_pos same.symm, if_pos (congrArg some same)]
      · rw [if_neg fun h => same h.symm, if_neg fun h => same (Option.some.inj h)]
        exact h.values name value

theorem admits_code_iff (h : Loaded lines loading) :
    admits opensCode lines line ↔
      loading.region = .code ∧ loading.region.afterMarker? line.1 = none := by
  rw [admits, contains_markers loading.region, h.region.code, Bool.and_eq_true, Bool.not_eq_true',
    Option.isSome_eq_false_iff, Option.isNone_iff_eq_none]

theorem admits_data_iff (h : Loaded lines loading) :
    admits opensData lines line ↔
      loading.region = .data ∧ loading.region.afterMarker? line.1 = none := by
  rw [admits, contains_markers loading.region, h.region.data, Bool.and_eq_true, Bool.not_eq_true',
    Option.isSome_eq_false_iff, Option.isNone_iff_eq_none]

theorem read_of_refusal (h : Loaded lines loading) (loud : ¬ Loading.isSilent line.1)
    (data : admits opensData lines line) {e : LoadError} (refused : refusal? line = some e) :
    loading.read line.2 line.1 = .error e := by
  obtain ⟨region, marker⟩ := h.admits_data_iff.1 data
  rw [region] at marker
  simp only [Loading.read, loud, region, marker, addData_eq, refused]
  rfl

/-- Reading one line more loads one line more, unless the line is refused. -/
theorem read_of_no_refusal (h : Loaded lines loading) (loud : ¬ Loading.isSilent line.1)
    (accepted : admits opensData lines line → refusal? line = none) :
    ∃ next, loading.read line.2 line.1 = .ok next ∧ Loaded (lines ++ [line]) next := by
  cases marker : loading.region.afterMarker? line.1 with
  | some region =>
      have code : ¬ admits opensCode lines line := by simp [h.admits_code_iff, marker]
      have data : ¬ admits opensData lines line := by simp [h.admits_data_iff, marker]
      refine ⟨{ loading with region }, ?_, h.skip (h.region.marker marker) code data⟩
      simp [Loading.read, loud, marker]
  | none =>
      have open_after := h.region.no_marker marker
      cases region : loading.region with
      | outside =>
          have code : ¬ admits opensCode lines line := by simp [h.admits_code_iff, region]
          have data : ¬ admits opensData lines line := by simp [h.admits_data_iff, region]
          refine ⟨loading, ?_, h.skip open_after code data⟩
          rw [region] at marker
          simp [Loading.read, loud, marker, region]
      | code =>
          have code : admits opensCode lines line := h.admits_code_iff.2 ⟨region, marker⟩
          have data : ¬ admits opensData lines line := by simp [h.admits_data_iff, region]
          refine ⟨_, ?_, h.addCode open_after code data⟩
          rw [region] at marker
          simp [Loading.read, loud, marker, region]
      | data =>
          have code : ¬ admits opensCode lines line := by simp [h.admits_code_iff, region]
          have data : admits opensData lines line := h.admits_data_iff.2 ⟨region, marker⟩
          obtain ⟨program, added, grown⟩ := h.addData open_after code data (accepted data)
          refine ⟨_, ?_, grown⟩
          rw [region] at marker
          simp only [Loading.read, loud, marker, region, added]
          rfl

end Loaded

def readAll (lines : List Line) : Except LoadError Loading :=
  lines.foldlM (fun loading line => loading.read line.2 line.1) Loading.start

theorem readAll_concat (lines : List Line) (line : Line) :
    readAll (lines ++ [line]) =
      readAll lines >>= fun loading => loading.read line.2 line.1 := by
  rw [readAll, List.foldlM_append]
  simp only [List.foldlM_cons, List.foldlM_nil, bind_pure]
  rfl

/-- Reading stops at the first data line that is refused, or else loads every line. -/
theorem readAll_eq (lines : List Line) (loud : ∀ line ∈ lines, ¬ Loading.isSilent line.1) :
    match (within opensData lines).findSome? refusal? with
    | some e => readAll lines = .error e
    | none => ∃ loading, readAll lines = .ok loading ∧ Loaded lines loading := by
  induction lines using List.reverseRecOn with
  | nil => exact ⟨.start, rfl, loaded_nil⟩
  | append_singleton lines line ih =>
      have before := ih fun earlier member => loud earlier (List.mem_append_left _ member)
      have loud := loud line (List.mem_append_right _ (List.mem_singleton_self line))
      rw [readAll_concat]
      cases first : (within opensData lines).findSome? refusal? with
      | some e =>
          have still : (within opensData (lines ++ [line])).findSome? refusal? = some e := by
            rw [within_concat, List.findSome?_append, first, Option.some_or]
          rw [first] at before
          rw [still, before]
          rfl
      | none =>
          rw [first] at before
          obtain ⟨loading, read, loaded⟩ := before
          rw [read]
          cases refused : if admits opensData lines line then refusal? line else none with
          | some e =>
              rw [Option.ite_none_right_eq_some] at refused
              have now : (within opensData (lines ++ [line])).findSome? refusal? = some e := by
                rw [within_concat_of_admits refused.1, List.findSome?_append, first]
                simp [refused.2]
              rw [now]
              exact loaded.read_of_refusal loud refused.1 refused.2
          | none =>
              have accepted : admits opensData lines line → refusal? line = none := by
                intro admitted
                rwa [if_pos admitted] at refused
              have still : (within opensData (lines ++ [line])).findSome? refusal? = none := by
                rw [within_concat, List.findSome?_append, first, Option.none_or]
                split
                · simp [accepted ‹_›]
                · rfl
              rw [still]
              exact loaded.read_of_no_refusal loud accepted

theorem parse_eq (text : String) :
    parse text = (readAll (spoken text)).map (·.program) := by
  have skips (loading : Loading) (line : Line) :
      (if !Loading.isSilent line.1 then loading.read line.2 line.1 else pure loading) =
        loading.read line.2 line.1 := by
    cases silent : Loading.isSilent line.1 with
    | true => simp [Loading.read, silent, pure, Except.pure]
    | false => rfl
  rw [readAll, spoken, List.foldlM_filter]
  simp only [skips]
  unfold parse
  cases (numberedLines text).foldlM (fun loading line => loading.read line.2 line.1)
    Loading.start <;> rfl

theorem parse_spoken (text : String) :
    match (dataLines text).findSome? refusal? with
    | some e => parse text = .error e
    | none => ∃ loading, parse text = .ok loading.program ∧ Loaded (spoken text) loading := by
  have loud : ∀ line ∈ spoken text, ¬ Loading.isSilent line.1 := by
    intro line member silent
    obtain ⟨-, nonempty, plain⟩ := mem_spoken_iff.1 member
    exact (isSilent_iff.1 silent).elim nonempty plain
  have read := readAll_eq (spoken text) loud
  rw [parse_eq, dataLines]
  cases refused : (within opensData (spoken text)).findSome? refusal? with
  | some e =>
      rw [refused] at read
      rw [read]
      rfl
  | none =>
      rw [refused] at read
      obtain ⟨loading, read, loaded⟩ := read
      exact ⟨loading, by rw [read]; rfl, loaded⟩

variable {text : String}

/-- A text is refused for the first of its data lines that is. -/
theorem parse_eq_error_iff {e : LoadError} :
    parse text = .error e ↔ (dataLines text).findSome? refusal? = some e := by
  have outcome := parse_spoken text
  cases refused : (dataLines text).findSome? refusal? with
  | some reason =>
      rw [refused] at outcome
      rw [outcome, Except.error.injEq, Option.some.injEq]
  | none =>
      rw [refused] at outcome
      obtain ⟨loading, loads, -⟩ := outcome
      simp [loads]

theorem exists_parse_iff :
    (∃ program, parse text = .ok program) ↔ ∀ line ∈ dataLines text, refusal? line = none := by
  rw [← List.findSome?_eq_none_iff, Option.eq_none_iff_forall_ne_some]
  cases parsed : parse text with
  | error e => simpa using ⟨e, parse_eq_error_iff.1 parsed⟩
  | ok program =>
      refine iff_of_true ⟨program, rfl⟩ fun e refused => ?_
      cases parsed.symm.trans (parse_eq_error_iff.2 refused)

theorem exists_loaded {program : Program} (parsed : parse text = .ok program) :
    ∃ loading : Loading, loading.program = program ∧ Loaded (spoken text) loading := by
  have outcome := parse_spoken text
  split at outcome
  · rw [parsed] at outcome
    contradiction
  · obtain ⟨loading, loads, loaded⟩ := outcome
    rw [parsed] at loads
    exact ⟨loading, (Except.ok.inj loads).symm, loaded⟩

/-- Loading meets the grammar. A text is refused for the first of its data lines that gives a name
something other than a 32-bit integer, and for nothing else: with the number that the line has in
the whole text and the text that it gives for a value. Otherwise the program has the instructions
of the code lines in their order; a label stands before as many instructions as come before the
last code line with it; and a name has the value of the last data line with it. No other labels and
names are declared. -/
theorem parse_meets_grammar (text : String) :
    (∀ e, parse text = .error e ↔ (dataLines text).findSome? refusal? = some e) ∧
      ((∃ program, parse text = .ok program) ↔ ∀ line ∈ dataLines text, refusal? line = none) ∧
      ∀ program, parse text = .ok program →
        program.instructions = instructionsOf (codeLines text) ∧
          (∀ name index, program.label? name = some index ↔
            ∃ before line, LastOf labelOf? name (codeLines text) before line ∧
              index = (instructionsOf before).length) ∧
          ∀ name value, program.data.get? name = some value ↔
            ∃ before line, LastOf nameOf? name (dataLines text) before line ∧
              valueOf? line = some value := by
  refine ⟨fun e => parse_eq_error_iff, exists_parse_iff, fun program parsed => ?_⟩
  obtain ⟨loading, rfl, loaded⟩ := exists_loaded parsed
  exact ⟨loaded.instructions, loaded.labels, loaded.values⟩

def reopened : String :=
  ".data\nx 1\nshort\n.endcode\nx 2\n.ENDDATA\ny 9\n.code\nloop: LOAD x\n.enddata\nend:\n"
    ++ "loop: ADD y\n.endcode\nADD x\n.data\ny 3"

theorem parse_meets_grammar_reopened :
    parse ".data\nx 1\n\n# none\n y ten \nz eleven" = .error ⟨5, "ten"⟩ ∧
      ∃ program, parse reopened = .ok program ∧
        program.instructions = [.decode "LOAD x".toList, .decode "ADD y".toList] ∧
        program.label? "loop" = some 1 ∧ program.label? "end" = some 1 ∧
        program.data.get? "x" = some 2 ∧ program.data.get? "y" = some 3 := by
  have refused := (parse_meets_grammar ".data\nx 1\n\n# none\n y ten \nz eleven").1
  have code : codeLines reopened =
      [("loop: LOAD x".toList, 9), ("end:".toList, 11), ("loop: ADD y".toList, 12)] := by
    decide +kernel
  have data : dataLines reopened =
      [("x 1".toList, 2), ("short".toList, 3), ("x 2".toList, 5), ("y 3".toList, 16)] := by
    decide +kernel
  have accepted : ∀ line ∈ dataLines reopened, refusal? line = none := by
    rw [data]
    decide +kernel
  obtain ⟨-, loads, declares⟩ := parse_meets_grammar reopened
  obtain ⟨program, parsed⟩ := loads.2 accepted
  obtain ⟨instructions, labels, values⟩ := declares program parsed
  rw [code] at instructions labels
  rw [data] at values
  refine ⟨(refused _).2 (by decide +kernel), program, parsed, ?_, ?_, ?_, ?_, ?_⟩
  · rw [instructions]
    decide +kernel
  · refine (labels "loop" 1).2 ⟨[_, _], _, ⟨?_, [], rfl, ?_⟩, ?_⟩ <;> decide +kernel
  · refine (labels "end" 1).2 ⟨[_], _, ⟨?_, [_], rfl, ?_⟩, ?_⟩ <;> decide +kernel
  · refine (values "x" 2).2 ⟨[_, _], _, ⟨?_, [_], rfl, ?_⟩, ?_⟩ <;> decide +kernel
  · refine (values "y" 3).2 ⟨[_, _, _], _, ⟨?_, [], rfl, ?_⟩, ?_⟩ <;> decide +kernel

end Timeslice.Program
