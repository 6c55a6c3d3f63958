import Timeslice.Proofs.Machine.Grammar
import Timeslice.Proofs.Text.Upper

/-! # The layout of program texts

Nothing depends on how a program is laid out. Silent rows may be put in anywhere, the blanks around
a row and between its fields may be others, and markers and opcodes may be written in letters of
either case. The program stays the same, and a text that is refused is refused for the same value,
under the number that its row has now.
-/

namespace Timeslice

open Text (Blank IsField Parts fields trim rows)

def Region.after (region : Region) (row : List Char) : Region :=
  (region.afterMarker? (trim row)).getD region

def LoadError.renumber (shift : Nat → Nat) (e : LoadError) : LoadError :=
  { e with line := shift e.line }

namespace Program

/-! ## Edits -/

def Silent (row : List Char) : Prop :=
  Blank row ∨ ∃ lead comment, Blank lead ∧ row = lead ++ '#' :: comment

/-- A trimmed row that is a marker, whatever the case of its letters. -/
def Marker (line : List Char) : Prop := String.ofList (line.map Char.toLower) ∈ markers

instance (line : List Char) : Decidable (Marker line) := inferInstanceAs (Decidable (_ ∈ markers))

/-- `Body region label body`: in the region, what a row declares after its label starts here. In
code the label reaches to the first colon of the row, if there is one. -/
inductive Body : Region → List Char → List Char → Prop where
  | whole {region : Region} {body : List Char} (plain : region = .code → ':' ∉ body) :
    Body region [] body
  | labelled {name body : List Char} (first : ':' ∉ name) : Body .code (name ++ [':']) body

/-- `Restyled region row row'`: the two rows differ in their layout alone when they stand in the
region. -/
inductive Restyled : Region → List Char → List Char → Prop where
  /-- Other blanks around a row, such as a carriage return before the newline. -/
  | padded {region : Region} {start start' last last' : List Char} (core : List Char)
      (before : Blank start) (before' : Blank start') (after : Blank last) (after' : Blank last') :
    Restyled region (start ++ core ++ last) (start' ++ core ++ last')
  | silent {region : Region} {row row' : List Char} (silent : Silent row) (silent' : Silent row') :
    Restyled region row row'
  | marker {region : Region} {row row' : List Char} (marker : Marker (trim row))
      (letters : row'.map Char.toLower = row.map Char.toLower) : Restyled region row row'
  /-- Other blanks between two fields. -/
  | spaced {region : Region} {label left gap gap' right : List Char}
      (body : Body region label (left ++ gap ++ right))
      (wide : gap ≠ []) (blank : Blank gap) (wide' : gap' ≠ []) (blank' : Blank gap') :
    Restyled region (label ++ (left ++ gap ++ right)) (label ++ (left ++ gap' ++ right))
  | opcode {label lead opcode opcode' rest : List Char}
      (body : Body .code label (lead ++ opcode ++ rest))
      (blank : Blank lead) (field : IsField opcode) (parts : Parts rest)
      (letters : opcode'.map Char.toLower = opcode.map Char.toLower) :
    Restyled .code (label ++ (lead ++ opcode ++ rest)) (label ++ (lead ++ opcode' ++ rest))

/-- `Edit shift text text'`: one change to the layout of a text, and the number that each of its
rows has after it. -/
inductive Edit : (Nat → Nat) → String → String → Prop where
  | insert {text text' : String} {before after : List (List Char)} {row : List Char}
      (split : rows text.toList = before ++ after)
      (split' : rows text'.toList = before ++ row :: after) (silent : Silent row) :
    Edit (fun n => if n ≤ before.length then n else n + 1) text text'
  | restyle {text text' : String} {before after : List (List Char)} {row row' : List Char}
      (split : rows text.toList = before ++ row :: after)
      (split' : rows text'.toList = before ++ row' :: after)
      (style : Restyled (before.foldl Region.after .outside) row row') : Edit id text text'

inductive Relaid : (Nat → Nat) → String → String → Prop where
  | same {text : String} : Relaid id text text
  | edit {shift shift' : Nat → Nat} {text middle text' : String}
      (relaid : Relaid shift text middle) (edit : Edit shift' middle text') :
    Relaid (shift' ∘ shift) text text'

/-! ## Rows by their fields -/

variable {row row' line line' name rest rest' : List Char} {region : Region}

/-- The rows have the same fields, but for the case of the first one's letters. -/
def Echoes (row row' : List Char) : Prop :=
  fields row = [] ∧ fields row' = [] ∨
    ∃ first first' rest, fields row = first :: rest ∧ fields row' = first' :: rest ∧
      first'.map Char.toLower = first.map Char.toLower

theorem Echoes.of_fields (same : fields row' = fields row) : Echoes row row' := by
  cases split : fields row with
  | nil => exact .inl ⟨split, same.trans split⟩
  | cons first rest => exact .inr ⟨first, first, rest, split, same.trans split, rfl⟩

theorem isSilent_eq (line : List Char) :
    Loading.isSilent line = (line.map Char.toLower).head?.elim true (· == '#') := by
  cases line with
  | nil => rfl
  | cons c line =>
      have hash : (c == '#') = (c.toLower == '#') := by
        refine Bool.eq_iff_iff.2 ?_
        rw [beq_iff_eq, beq_iff_eq]
        exact ⟨by rintro rfl; rfl, fun lower => Text.eq_of_toLower lower (by decide)⟩
      exact hash

theorem isSilent_trim (row : List Char) : Loading.isSilent (trim row) =
    ((fields row).head?.bind fun first => (first.map Char.toLower).head?).elim true (· == '#') := by
  rw [isSilent_eq, List.head?_map, Text.head?_trim]
  cases fields row with
  | nil => rfl
  | cons first rest =>
      rw [List.head?_cons, Option.bind_some, Option.bind_some, List.head?_map]

theorem isSilent_of_silent (silent : Silent row) : Loading.isSilent (trim row) := by
  rcases silent with blank | ⟨lead, comment, blank, rfl⟩
  · rw [Text.trim_of_blank blank]
    rfl
  · have shape : trim ('#' :: comment) = '#' :: Text.trimEnd comment := by
      rw [trim, Text.trimStart_cons (by decide)]
      exact Text.trimEnd_append_cons [] comment (by decide)
    rw [Text.trim_append_left blank, shape]
    rfl

/-- The lower case of a marker has no blanks and no colon, and starts with a dot. -/
theorem markers_shape : ∀ marker ∈ markers,
    IsField marker.toList ∧ ':' ∉ marker.toList ∧ marker.toList.head? = some '.' := by
  intro marker member
  simp only [markers, List.mem_cons, List.not_mem_nil, or_false] at member
  rcases member with rfl | rfl | rfl | rfl
  all_goals exact ⟨by decide, by decide, by decide⟩

theorem Marker.isField (marker : Marker line) : IsField line := by
  have shape := (markers_shape _ marker).1
  rw [String.toList_ofList] at shape
  exact Text.isField_map_toLower.1 shape

theorem Marker.no_colon (marker : Marker line) : ':' ∉ line := by
  have shape := (markers_shape _ marker).2.1
  rw [String.toList_ofList] at shape
  exact fun member => shape (List.mem_map_of_mem (f := Char.toLower) member)

theorem Marker.not_isSilent (marker : Marker line) : ¬ Loading.isSilent line := by
  have shape := (markers_shape _ marker).2.2
  rw [String.toList_ofList] at shape
  rw [isSilent_eq, shape]
  decide

theorem afterMarker?_isSome (region : Region) (line : List Char) :
    (region.afterMarker? line).isSome ↔ Marker line := by
  rw [← contains_markers region (line, 0), List.contains_iff_mem]
  rfl

theorem afterMarker?_eq_none (region : Region) (other : ¬ Marker line) :
    region.afterMarker? line = none :=
  Option.not_isSome_iff_eq_none.1 fun marker => other ((afterMarker?_isSome region line).1 marker)

theorem afterMarker?_congr (letters : line'.map Char.toLower = line.map Char.toLower)
    (region : Region) : region.afterMarker? line' = region.afterMarker? line := by
  unfold Region.afterMarker?
  rw [letters]

/-! ### Rows that echo each other -/

theorem not_marker_of_fields {first second : List Char} {more : List (List Char)}
    (split : fields row = first :: second :: more) : ¬ Marker (trim row) := by
  intro marker
  have word := marker.isField.fields
  rw [Text.fields_trim, split] at word
  exact absurd (congrArg List.length word) (by simp)

/-- A row is a marker only if it has one field. -/
theorem Echoes.afterMarker? (echoes : Echoes row row') (region : Region) :
    region.afterMarker? (trim row') = region.afterMarker? (trim row) := by
  rcases echoes with ⟨same, same'⟩ | ⟨first, first', rest, same, same', letters⟩
  · rw [Text.trim_eq_nil_iff.2 same, Text.trim_eq_nil_iff.2 same']
  · cases rest with
    | nil =>
        rw [Text.trim_of_fields same, Text.trim_of_fields same']
        exact afterMarker?_congr letters region
    | cons second more =>
        rw [afterMarker?_eq_none region (not_marker_of_fields same),
          afterMarker?_eq_none region (not_marker_of_fields same')]

theorem Echoes.isSilent (echoes : Echoes row row') :
    Loading.isSilent (trim row') = Loading.isSilent (trim row) := by
  rw [isSilent_trim, isSilent_trim]
  rcases echoes with ⟨same, same'⟩ | ⟨first, first', rest, same, same', letters⟩
  · rw [same, same']
  · rw [same, same', List.head?_cons, List.head?_cons, Option.bind_some, Option.bind_some, letters]

theorem Echoes.decode (echoes : Echoes row row') :
    Instruction.decode row' = .decode row := by
  unfold Instruction.decode
  rcases echoes with ⟨same, same'⟩ | ⟨first, first', rest, same, same', letters⟩
  · rw [same, same']
  · rw [same, same']
    simp only [Text.upper_eq_of_toLower letters]

theorem addInstruction_trim (p : Program) (row : List Char) :
    p.addInstruction (trim row) =
      if fields row = [] then p
      else { p with instructions := p.instructions ++ [.decode row] } := by
  have decoded : Instruction.decode (trim row) = .decode row := by
    unfold Instruction.decode
    rw [Text.fields_trim]
  rw [addInstruction, decoded]
  by_cases empty : fields row = []
  · rw [if_pos empty, Text.trim_eq_nil_iff.2 empty]
    rfl
  · rw [if_neg empty, if_neg (by simpa [Text.trim_eq_nil_iff] using empty)]

theorem Echoes.addInstruction (echoes : Echoes row row') (p : Program) :
    p.addInstruction (trim row') = p.addInstruction (trim row) := by
  rw [addInstruction_trim, addInstruction_trim, echoes.decode]
  rcases echoes with ⟨same, same'⟩ | ⟨first, first', rest, same, same', -⟩
  · rw [same, same']
  · rw [same, same', if_neg (List.cons_ne_nil _ _), if_neg (List.cons_ne_nil _ _)]

theorem addData_trim (p : Program) (number : Nat) (row : List Char) :
    p.addData number (trim row) = p.addData number row := by
  unfold addData
  rw [Text.fields_trim]

theorem addData_congr (same : fields row' = fields row) (p : Program) (number : Nat) :
    p.addData number (trim row') = p.addData number (trim row) := by
  rw [addData_trim, addData_trim, addData, addData, same]

theorem addCode_plain (plain : ':' ∉ row) (p : Program) :
    p.addCode (trim row) = p.addInstruction (trim row) := by
  have plain : ':' ∉ trim row := fun member => plain (Text.mem_of_mem_trim member)
  rw [addCode_eq p (trim row, 0), labelOf?, instructionText, if_neg plain, if_neg plain]
  rfl

theorem trim_labelled (name rest : List Char) :
    trim (name ++ ':' :: rest) = Text.trimStart name ++ ':' :: Text.trimEnd rest := by
  rw [trim, Text.trimStart_append_cons _ _ (by decide), Text.trimEnd_append_cons _ _ (by decide)]

theorem addCode_labelled (first : ':' ∉ name) (p : Program) (rest : List Char) :
    p.addCode (trim (name ++ ':' :: rest)) =
      (p.addLabel (String.ofList (trim name))).addInstruction (trim rest) := by
  have apart : ∀ c ∈ Text.trimStart name, (c != ':') = true := fun c member =>
    bne_iff_ne.2 fun same => first (same ▸ (List.dropWhile_sublist _).subset member)
  have before : (Text.trimStart name ++ ':' :: Text.trimEnd rest).takeWhile (· != ':') =
      Text.trimStart name := by
    rw [List.takeWhile_append_of_pos apart, List.takeWhile_cons_of_neg (by decide), List.append_nil]
  have behind : (Text.trimStart name ++ ':' :: Text.trimEnd rest).dropWhile (· != ':') =
      ':' :: Text.trimEnd rest := by
    rw [List.dropWhile_append_of_pos apart, List.dropWhile_cons_of_neg (by decide)]
  simp only [addCode, trim_labelled, before, behind, Text.trim_trimStart, Text.trim_trimEnd]

/-! ## Single rows -/

variable {loading : Loading}

theorem read_congr (silent : Loading.isSilent line' = Loading.isSilent line)
    (marker : ∀ region : Region, region.afterMarker? line' = region.afterMarker? line)
    (code : loading.region = .code → ∀ p : Program, p.addCode line' = p.addCode line)
    (data : loading.region = .data → ∀ (p : Program) n, p.addData n line' = p.addData n line)
    (number : Nat) : loading.read number line' = loading.read number line := by
  obtain ⟨region, program⟩ := loading
  unfold Loading.read
  rw [silent, marker]
  cases region with
  | outside => rfl
  | code => simp only [code rfl]
  | data => simp only [data rfl]

theorem read_whole_congr (plain : loading.region = .code → ':' ∉ row)
    (still : loading.region = .code → ':' ∉ row') (echoes : Echoes row row')
    (same : loading.region ≠ .code → fields row' = fields row) (number : Nat) :
    loading.read number (trim row') = loading.read number (trim row) := by
  refine read_congr echoes.isSilent echoes.afterMarker? (fun code p => ?_) (fun data p n => ?_)
    number
  · rw [addCode_plain (plain code), addCode_plain (still code), echoes.addInstruction]
  · exact addData_congr (same (by rw [data]; decide)) p n

/-- A row with a label says something and is no marker, for markers have no colon. -/
theorem read_labelled_congr (code : loading.region = .code) (first : ':' ∉ name)
    (echoes : Echoes rest rest') (number : Nat) :
    loading.read number (trim (name ++ ':' :: rest')) =
      loading.read number (trim (name ++ ':' :: rest)) := by
  have no_marker (region : Region) (rest : List Char) :
      region.afterMarker? (trim (name ++ ':' :: rest)) = none := by
    refine afterMarker?_eq_none region fun marker => marker.no_colon ?_
    rw [trim_labelled]
    exact List.mem_append_right _ List.mem_cons_self
  refine read_congr ?_ (fun region => ?_) (fun _ p => ?_) (fun data => ?_) number
  · rw [isSilent_eq, isSilent_eq, trim_labelled, trim_labelled]
    cases Text.trimStart name <;> rfl
  · rw [no_marker, no_marker]
  · rw [addCode_labelled first, addCode_labelled first, echoes.addInstruction]
  · rw [code] at data
    contradiction

/-- In code, what comes after the label may differ in the case of the opcode. -/
theorem read_body_congr {label body body' : List Char} (split : Body loading.region label body)
    (plain : ':' ∉ body → ':' ∉ body') (echoes : Echoes body body')
    (same : loading.region ≠ .code → fields body' = fields body) (number : Nat) :
    loading.read number (trim (label ++ body')) = loading.read number (trim (label ++ body)) := by
  generalize there : loading.region = region at split
  cases split with
  | whole plain_code =>
      rw [← there] at plain_code
      exact read_whole_congr plain_code (fun code => plain (plain_code code)) echoes same number
  | labelled first =>
      rw [List.append_assoc, List.append_assoc]
      exact read_labelled_congr there first echoes number

/-! ### The five kinds of changes -/

theorem read_padded {start start' last last' : List Char} (core : List Char) (before : Blank start)
    (before' : Blank start') (after : Blank last) (after' : Blank last') (number : Nat) :
    loading.read number (trim (start' ++ core ++ last')) =
      loading.read number (trim (start ++ core ++ last)) := by
  rw [Text.trim_pad before after, Text.trim_pad before' after']

theorem read_silent (silent : Silent row) (number : Nat) :
    loading.read number (trim row) = .ok loading := by
  rw [Loading.read, if_pos (isSilent_of_silent silent)]

theorem read_marker (marker : Marker (trim row))
    (letters : row'.map Char.toLower = row.map Char.toLower) (number : Nat) :
    loading.read number (trim row') = loading.read number (trim row) := by
  have trimmed : (trim row').map Char.toLower = (trim row).map Char.toLower := by
    rw [← Text.trim_map_toLower, letters, Text.trim_map_toLower]
  obtain ⟨next, opens⟩ :=
    Option.isSome_iff_exists.1 ((afterMarker?_isSome loading.region _).2 marker)
  unfold Loading.read
  rw [isSilent_eq, trimmed, ← isSilent_eq, afterMarker?_congr trimmed, opens]

theorem read_spaced {label left gap gap' right : List Char}
    (body : Body loading.region label (left ++ gap ++ right)) (wide : gap ≠ []) (blank : Blank gap)
    (wide' : gap' ≠ []) (blank' : Blank gap') (number : Nat) :
    loading.read number (trim (label ++ (left ++ gap' ++ right))) =
      loading.read number (trim (label ++ (left ++ gap ++ right))) := by
  have same : fields (left ++ gap' ++ right) = fields (left ++ gap ++ right) := by
    rw [Text.fields_gap _ _ wide blank, Text.fields_gap _ _ wide' blank']
  have plain : ':' ∉ left ++ gap ++ right → ':' ∉ left ++ gap' ++ right := by
    have solid : ':' ∉ gap' := fun member => by
      have colon := blank' ':' member
      contradiction
    simp only [List.mem_append, not_or]
    exact fun ⟨⟨first, _⟩, last⟩ => ⟨⟨first, solid⟩, last⟩
  exact read_body_congr body plain (.of_fields same) (fun _ => same) number

theorem read_opcode {label lead opcode opcode' rest : List Char} (code : loading.region = .code)
    (body : Body .code label (lead ++ opcode ++ rest)) (blank : Blank lead)
    (field : IsField opcode) (parts : Parts rest)
    (letters : opcode'.map Char.toLower = opcode.map Char.toLower) (number : Nat) :
    loading.read number (trim (label ++ (lead ++ opcode' ++ rest))) =
      loading.read number (trim (label ++ (lead ++ opcode ++ rest))) := by
  have field' : IsField opcode' := by
    rw [← Text.isField_map_toLower, letters]
    exact Text.isField_map_toLower.2 field
  have echoes : Echoes (lead ++ opcode ++ rest) (lead ++ opcode' ++ rest) :=
    .inr ⟨opcode, opcode', _, Text.fields_first blank field parts,
      Text.fields_first blank field' parts, letters⟩
  have plain : ':' ∉ lead ++ opcode ++ rest → ':' ∉ lead ++ opcode' ++ rest := by
    have kept : ':' ∈ opcode' → ':' ∈ opcode := fun member => by
      have lower : ':' ∈ opcode'.map Char.toLower := List.mem_map_of_mem (f := Char.toLower) member
      rw [letters] at lower
      obtain ⟨c, found, same⟩ := List.mem_map.1 lower
      exact Text.eq_of_toLower same (by decide) ▸ found
    simp only [List.mem_append, not_or]
    exact fun ⟨⟨first, second⟩, last⟩ => ⟨⟨first, fun member => second (kept member)⟩, last⟩
  exact read_body_congr (code ▸ body) plain echoes (fun other => (other code).elim) number

theorem read_restyled {region : Region} (style : Restyled region row row')
    (there : loading.region = region) (number : Nat) :
    loading.read number (trim row') = loading.read number (trim row) := by
  cases style with
  | padded core before before' after after' =>
      exact read_padded core before before' after after' number
  | silent silent silent' => rw [read_silent silent, read_silent silent']
  | marker marker letters => exact read_marker marker letters number
  | spaced body wide blank wide' blank' =>
      exact read_spaced (there ▸ body) wide blank wide' blank' number
  | opcode body blank field parts letters =>
      exact read_opcode there body blank field parts letters number

/-! ## Runs of rows -/

theorem addData_cases (p : Program) (line : List Char) :
    (∃ next, ∀ number, p.addData number line = .ok next) ∨
      ∃ value, ∀ number, p.addData number line = .error ⟨number, value⟩ := by
  unfold addData
  split
  · rename_i name value rest split
    cases Text.int32? value with
    | some v => exact .inl ⟨_, fun _ => rfl⟩
    | none => exact .inr ⟨_, fun _ => rfl⟩
  · exact .inl ⟨p, fun _ => rfl⟩

/-- A row is read or refused whatever its number, and if it is read it opens and closes regions as
its text alone tells. -/
theorem read_cases (loading : Loading) (row : List Char) :
    (∃ next, next.region = loading.region.after row ∧
        ∀ number, loading.read number (trim row) = .ok next) ∨
      ∃ value, ∀ number, loading.read number (trim row) = .error ⟨number, value⟩ := by
  unfold Loading.read Region.after
  by_cases silent : Loading.isSilent (trim row)
  · rw [afterMarker?_eq_none loading.region fun marker => marker.not_isSilent silent]
    exact .inl ⟨loading, rfl, fun _ => if_pos silent⟩
  · simp only [if_neg silent]
    cases loading.region.afterMarker? (trim row) with
    | some next => exact .inl ⟨_, rfl, fun _ => rfl⟩
    | none =>
        obtain ⟨region, program⟩ := loading
        cases region with
        | outside => exact .inl ⟨_, rfl, fun _ => rfl⟩
        | code => exact .inl ⟨⟨.code, program.addCode (trim row)⟩, rfl, fun _ => rfl⟩
        | data =>
            rcases addData_cases program (trim row) with ⟨next, read⟩ | ⟨value, refused⟩
            · exact .inl ⟨⟨.data, next⟩, rfl, fun number => by simp only [read]; rfl⟩
            · exact .inr ⟨value, fun number => by simp only [refused]; rfl⟩

/-- Reads rows that are counted from `first` on. -/
def readFrom (loading : Loading) (first : Nat) (rows : List (List Char)) :
    Except LoadError Loading :=
  ((rows.map trim).zipIdx first).foldlM (fun loading line => loading.read line.2 line.1) loading

theorem readFrom_cons (loading : Loading) (first : Nat) (row : List Char)
    (rest : List (List Char)) :
    readFrom loading first (row :: rest) =
      (loading.read first (trim row)).bind (readFrom · (first + 1) rest) := rfl

/-- The final newline of a text opens a row that no line comes from, and a blank row is silent. -/
theorem parse_eq_rows (text : String) :
    parse text = (readFrom .start 1 (rows text.toList)).map Loading.program := by
  obtain ⟨extra, final, same⟩ := Text.rows_trim text.toList
  have whole : readFrom .start 1 (rows text.toList) = (numberedLines text).foldlM
      (fun loading line => Loading.read loading line.2 line.1) .start := by
    rw [readFrom, same, List.zipIdx_append, List.foldlM_append]
    rcases final with rfl | rfl
    · exact bind_pure _
    · exact bind_pure _
  rw [whole, parse]
  cases (numberedLines text).foldlM (fun loading line => Loading.read loading line.2 line.1)
    Loading.start <;> rfl

variable {before after : List (List Char)} {first : Nat} {e : LoadError}

theorem le_of_readFrom (refused : readFrom loading first after = .error e) : first ≤ e.line := by
  induction after generalizing loading first with
  | nil => cases refused
  | cons row rest ih =>
      rw [readFrom_cons] at refused
      rcases read_cases loading row with ⟨next, -, read⟩ | ⟨value, error⟩
      · rw [read] at refused
        exact Nat.le_of_succ_le (ih refused)
      · rw [error] at refused
        cases refused
        exact Nat.le_refl first

theorem mapError_congr {f g : LoadError → LoadError} {x : Except LoadError Loading}
    (same : ∀ e, x = .error e → f e = g e) : x.mapError f = x.mapError g := by
  cases x with
  | ok _ => rfl
  | error e => exact congrArg Except.error (same e rfl)

/-- Rows that are counted from one further on are refused alike, for a row one further on. -/
theorem readFrom_succ (loading : Loading) (first : Nat) (after : List (List Char)) :
    readFrom loading (first + 1) after =
      (readFrom loading first after).mapError (.renumber (· + 1)) := by
  induction after generalizing loading first with
  | nil => rfl
  | cons row rest ih =>
      rw [readFrom_cons, readFrom_cons]
      rcases read_cases loading row with ⟨next, -, read⟩ | ⟨value, error⟩
      · rw [read, read]
        exact ih next (first + 1)
      · rw [error, error]
        rfl

/-- A silent row counts for those after it and changes nothing else. -/
theorem readFrom_insert (silent : Silent row) (loading : Loading) (first : Nat)
    (before after : List (List Char)) :
    readFrom loading first (before ++ row :: after) =
      (readFrom loading first (before ++ after)).mapError
        (.renumber fun n => if n < first + before.length then n else n + 1) := by
  induction before generalizing loading first with
  | nil =>
      rw [List.nil_append, List.nil_append, readFrom_cons, read_silent silent]
      show readFrom loading (first + 1) after = _
      rw [readFrom_succ]
      refine mapError_congr fun e refused => ?_
      have later := le_of_readFrom refused
      exact congrArg (LoadError.mk · e.text) (if_neg (Nat.not_lt.2 later)).symm
  | cons earlier before ih =>
      rw [List.cons_append, List.cons_append, readFrom_cons, readFrom_cons]
      rcases read_cases loading earlier with ⟨next, -, read⟩ | ⟨value, error⟩
      · rw [read]
        have further := ih next (first + 1)
        rw [Nat.add_right_comm, Nat.add_assoc] at further
        exact further
      · rw [error]
        have early : first < first + (earlier :: before).length := Nat.lt_add_of_pos_right (by simp)
        exact congrArg (fun n => Except.error (LoadError.mk n value)) (if_pos early).symm

theorem readFrom_restyled (loading : Loading) (first : Nat) (before after : List (List Char))
    (style : Restyled (before.foldl Region.after loading.region) row row') :
    readFrom loading first (before ++ row' :: after) =
      readFrom loading first (before ++ row :: after) := by
  induction before generalizing loading first with
  | nil =>
      rw [List.nil_append, List.nil_append, readFrom_cons, readFrom_cons, read_restyled style rfl]
  | cons earlier before ih =>
      rw [List.cons_append, List.cons_append, readFrom_cons, readFrom_cons]
      rcases read_cases loading earlier with ⟨next, region, read⟩ | ⟨value, error⟩
      · rw [read]
        exact ih next (first + 1) (region ▸ style)
      · rw [error]
        rfl

/-! ## Whole texts -/

theorem renumber_id (x : Except LoadError Program) : x.mapError (LoadError.renumber id) = x := by
  cases x <;> rfl

theorem parse_edited {shift : Nat → Nat} {text text' : String} (edit : Edit shift text text') :
    parse text' = (parse text).mapError (LoadError.renumber shift) := by
  cases edit with
  | @insert _ _ before after row split split' silent =>
      have counted : (fun n => if n < 1 + before.length then n else n + 1) =
          fun n => if n ≤ before.length then n else n + 1 := by
        simp only [Nat.lt_one_add_iff]
      rw [parse_eq_rows, parse_eq_rows, split, split', readFrom_insert silent, counted]
      cases readFrom .start 1 (before ++ after) <;> rfl
  | restyle split split' style =>
      rw [renumber_id, parse_eq_rows, parse_eq_rows, split, split',
        readFrom_restyled _ _ _ _ style]

/-- Each change of the layout leaves the program or the error, and so do all of them one after the
other. -/
theorem layout_irrelevant {shift : Nat → Nat} {text text' : String}
    (relaid : Relaid shift text text') :
    parse text' = (parse text).mapError fun e => { e with line := shift e.line } := by
  induction relaid with
  | same => exact (renumber_id _).symm
  | @edit shift shift' text middle text' relaid edit ih =>
      rw [parse_edited edit, ih]
      cases parse text <;> rfl

/-- A comment, wider blanks and another case of a marker leave the value that a text is refused for,
which stands on line 4 now. A label and its instruction may be spread out and put in capitals. -/
theorem layout_irrelevant_spread :
    parse ".DATA\n# counters\nx 1\r\ny\t ten" = .error ⟨4, "ten"⟩ ∧
      parse ".code\n\u00a0loop:ADD #1" = parse ".code\nloop:add #1" := by
  constructor
  · have commented : Edit _ ".data\nx 1\ny ten" ".data\n# counters\nx 1\ny ten" :=
      @Edit.insert _ _ [".data".toList] ["x 1".toList, "y ten".toList] "# counters".toList
        (by decide +kernel) (by decide +kernel) (.inr ⟨[], " counters".toList, by decide, rfl⟩)
    have marked : Edit id ".data\n# counters\nx 1\ny ten" ".DATA\n# counters\nx 1\ny ten" :=
      @Edit.restyle _ _ [] ["# counters".toList, "x 1".toList, "y ten".toList] ".data".toList
        ".DATA".toList (by decide +kernel) (by decide +kernel)
        (.marker (by decide +kernel) (by decide +kernel))
    have returned : Edit id ".DATA\n# counters\nx 1\ny ten" ".DATA\n# counters\nx 1\r\ny ten" :=
      @Edit.restyle _ _ [".DATA".toList, "# counters".toList] ["y ten".toList]
        ([] ++ "x 1".toList ++ []) ([] ++ "x 1".toList ++ ['\r']) (by decide +kernel)
        (by decide +kernel) (.padded _ (by decide) (by decide) (by decide) (by decide))
    have spaced : Edit id ".DATA\n# counters\nx 1\r\ny ten"
        ".DATA\n# counters\nx 1\r\ny\t ten" :=
      @Edit.restyle _ _ [".DATA".toList, "# counters".toList, "x 1\r".toList] []
        ([] ++ ("y".toList ++ " ".toList ++ "ten".toList))
        ([] ++ ("y".toList ++ "\t ".toList ++ "ten".toList)) (by decide +kernel)
        (by decide +kernel)
        (.spaced (.whole (by decide +kernel)) (by decide) (by decide) (by decide) (by decide))
    have relaid := ((Relaid.same.edit commented).edit marked).edit returned |>.edit spaced
    exact (layout_irrelevant relaid).trans (by decide +kernel)
  · have padded : Edit id ".code\nloop:add #1" ".code\n\u00a0loop:add #1" :=
      @Edit.restyle _ _ [".code".toList] [] ([] ++ "loop:add #1".toList ++ [])
        ("\u00a0".toList ++ "loop:add #1".toList ++ []) (by decide +kernel) (by decide +kernel)
        (.padded _ (by decide) (by decide) (by decide) (by decide))
    have opcode : Edit id ".code\n\u00a0loop:add #1" ".code\n\u00a0loop:ADD #1" :=
      @Edit.restyle _ _ [".code".toList] []
        (("\u00a0loop".toList ++ [':']) ++ ([] ++ "add".toList ++ " #1".toList))
        (("\u00a0loop".toList ++ [':']) ++ ([] ++ "ADD".toList ++ " #1".toList))
        (by decide +kernel) (by decide +kernel)
        (.opcode (.labelled (by decide)) (by decide) (by decide)
          (fun c head => by cases head; decide) (by decide))
    exact (layout_irrelevant ((Relaid.same.edit padded).edit opcode)).trans (renumber_id _)

end Program

end Timeslice
