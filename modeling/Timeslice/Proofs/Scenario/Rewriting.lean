import Timeslice.Scenario.FileTree

/-! # Rewriting files

When one file of a tree gets other bytes, every path leads where it led before. The paths that lead
to the file, by whatever way, then give the new text, and the others give what they gave before.
-/

namespace Timeslice.FileTree

def follow (tree : FileTree) (path : String) : Except ReadError Place :=
  if path.isEmpty then .error .notFound
  else if path.contains '\x00' then .error (.other "file name contained an unexpected NUL byte")
  else if Path.maxSize < path.utf8ByteSize then .error .nameTooLong
  else (Path.components path).foldlM tree.descend
    (if Path.isAbsolute path then .outside else .inside [])

def textAt (tree : FileTree) (place : Place) : Except ReadError String :=
  (tree.contents place).bind fun bytes =>
    (String.fromUTF8? bytes).elim (.error .notText) .ok

theorem read_eq (tree : FileTree) (path : String) :
    tree.read path = (tree.follow path).bind tree.textAt := by
  unfold read text follow
  split
  · rfl
  · split
    · rfl
    · split
      · rfl
      · refine congrArg (Except.bind _) (funext fun place => ?_)
        refine congrArg (Except.bind _) (funext fun bytes => ?_)
        cases String.fromUTF8? bytes <;> rfl

def rewrite (tree : FileTree) (place : List String) (bytes : ByteArray) : FileTree :=
  ⟨tree.entries.map fun entry => (entry.1, if entry.1 = place then .file bytes else entry.2)⟩

theorem lookup_rewrite (tree : FileTree) (place : List String) (bytes : ByteArray)
    (p : List String) : (tree.rewrite place bytes).entries.lookup p =
      (tree.entries.lookup p).map fun node => if p = place then .file bytes else node := by
  unfold rewrite
  induction tree.entries with
  | nil => rfl
  | cons entry rest ih =>
      rw [List.map_cons, List.lookup_cons, List.lookup_cons]
      by_cases here : p = entry.1
      · rw [← here, beq_self_eq_true]
        rfl
      · rw [beq_false_of_ne here]
        exact ih

section Rewriting

variable {tree : FileTree} {place : List String} {old bytes : ByteArray}

theorem lookup_of_file (file : tree.node? place = some (.file old)) :
    place.isEmpty = false ∧ tree.entries.lookup place = some (.file old) := by
  unfold node? at file
  cases empty : place.isEmpty <;> rw [empty] at file
  · refine ⟨rfl, ?_⟩
    cases found : tree.entries.lookup place <;> rw [found] at file
    · cases any : tree.entries.any (place.isPrefixOf ·.1) <;> rw [any] at file <;> cases file
    · exact file
  · cases file

theorem node?_rewrite_self (file : tree.node? place = some (.file old)) :
    (tree.rewrite place bytes).node? place = some (.file bytes) := by
  obtain ⟨proper, found⟩ := lookup_of_file file
  unfold node?
  rw [lookup_rewrite, proper, found, Option.map_some, if_pos rfl]
  rfl

theorem node?_rewrite_of_ne {p : List String} (other : p ≠ place) :
    (tree.rewrite place bytes).node? p = tree.node? p := by
  have above : (tree.rewrite place bytes).entries.any (p.isPrefixOf ·.1) =
      tree.entries.any (p.isPrefixOf ·.1) := List.any_map
  unfold node?
  rw [lookup_rewrite, above]
  simp only [if_neg other, Option.map_id']

theorem follow_rewrite (file : tree.node? place = some (.file old)) :
    (tree.rewrite place bytes).follow = tree.follow := by
  have descends : (tree.rewrite place bytes).descend = tree.descend := by
    funext start component
    cases start with
    | outside => rfl
    | inside p =>
        unfold descend
        dsimp only
        by_cases same : p = place
        · rw [same, file, node?_rewrite_self file]
        · rw [node?_rewrite_of_ne same]
  funext path
  unfold follow
  rw [descends]

theorem textAt_rewrite_self (file : tree.node? place = some (.file old)) :
    (tree.rewrite place bytes).textAt (.inside place) =
      (String.fromUTF8? bytes).elim (.error .notText) .ok := by
  unfold textAt contents
  dsimp only
  rw [node?_rewrite_self file]
  rfl

theorem textAt_rewrite_of_ne {p : Place} (other : p ≠ .inside place) :
    (tree.rewrite place bytes).textAt p = tree.textAt p := by
  cases p with
  | outside => rfl
  | inside p =>
      have elsewhere : p ≠ place := fun same => other (congrArg Place.inside same)
      unfold textAt contents
      dsimp only
      rw [node?_rewrite_of_ne elsewhere]

theorem exists_file {p : Place} {text : String} (found : tree.textAt p = .ok text) :
    ∃ place bytes, p = .inside place ∧ tree.node? place = some (.file bytes) := by
  cases p with
  | outside => cases found
  | inside place =>
      cases node : tree.node? place with
      | none =>
          simp only [textAt, contents, node] at found
          cases found
      | some node' =>
          cases node' with
          | file bytes => exact ⟨place, bytes, rfl, node⟩
          | directory =>
              simp only [textAt, contents, node] at found
              cases found

end Rewriting

theorem fromUTF8?_toUTF8 (text : String) : String.fromUTF8? text.toUTF8 = some text := by
  unfold String.fromUTF8? String.toUTF8
  rw [dif_pos text.isValidUTF8]
  rfl

/-- A file of a tree can be rewritten. The paths that lead to it then lead to the new text, and the
others lead where they led before. -/
theorem exists_rewritten {tree : FileTree} {path text : String} (found : tree.read path = .ok text)
    (text' : String) : ∃ tree' : FileTree, tree'.read path = .ok text' ∧
      ∀ name, tree'.read name = tree.read name ∨
        (tree.read name = .ok text ∧ tree'.read name = .ok text') := by
  rw [read_eq] at found
  cases led : tree.follow path with
  | error e =>
      rw [led] at found
      cases found
  | ok p =>
      rw [led] at found
      obtain ⟨place, bytes, rfl, file⟩ := exists_file found
      have rewritten : (tree.rewrite place text'.toUTF8).textAt (.inside place) = .ok text' := by
        rw [textAt_rewrite_self file, fromUTF8?_toUTF8]
        rfl
      refine ⟨tree.rewrite place text'.toUTF8, ?_, fun name => ?_⟩
      · rw [read_eq, follow_rewrite file, led]
        exact rewritten
      · rw [read_eq, read_eq, follow_rewrite file]
        cases tree.follow name with
        | error e => exact .inl rfl
        | ok q =>
            by_cases same : q = .inside place
            · exact .inr (same ▸ ⟨found, rewritten⟩)
            · exact .inl (textAt_rewrite_of_ne same)

end Timeslice.FileTree
