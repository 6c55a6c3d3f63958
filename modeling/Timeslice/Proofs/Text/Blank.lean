import Mathlib.Data.List.DropRight
import Timeslice.Text.Blank

/-! # Fields and trimmed texts

The fields of a text are its maximal runs of characters that are not blank. Neither the blanks
around a text nor how many stand between two fields have any bearing on them, and what is left of a
text that is trimmed begins and ends with a field.
-/

namespace Timeslice.Text

def Blank (cs : List Char) : Prop := ∀ c ∈ cs, isBlank c

instance (cs : List Char) : Decidable (Blank cs) :=
  decidable_of_iff (cs.all isBlank) List.all_eq_true

structure IsField (cs : List Char) : Prop where
  nonempty : cs ≠ []
  solid : ∀ c ∈ cs, ¬ isBlank c

instance (cs : List Char) : Decidable (IsField cs) :=
  decidable_of_iff (cs ≠ [] ∧ cs.all (! isBlank ·))
    ⟨fun ⟨nonempty, solid⟩ => ⟨nonempty, by simpa using solid⟩,
      fun ⟨nonempty, solid⟩ => ⟨nonempty, by simpa using solid⟩⟩

/-- A text that is empty or goes on with a blank, so that a field before it ends there. -/
def Parts (cs : List Char) : Prop := ∀ c ∈ cs.head?, isBlank c

variable {as bs cs gap start word rest : List Char} {c : Char}

theorem toNat_of_isBlank (blank : isBlank c) : c.toNat ≤ 0x20 ∨ 0x85 ≤ c.toNat := by
  simp only [isBlank, Bool.or_eq_true, Bool.and_eq_true, decide_eq_true_eq, beq_iff_eq] at blank
  omega

theorem Blank.append (h : Blank as) (h' : Blank bs) : Blank (as ++ bs) := by
  intro c member
  rcases List.mem_append.1 member with left | right
  · exact h c left
  · exact h' c right

/-! ## Fields -/

theorem fields_append_cons (as bs : List Char) (blank : isBlank c) :
    fields (as ++ c :: bs) = fields as ++ fields bs := by
  rw [fields, List.splitOnP_append_cons as bs blank, List.filter_append]
  rfl

theorem fields_append_left (blank : Blank gap) (cs : List Char) :
    fields (gap ++ cs) = fields cs := by
  induction gap with
  | nil => rfl
  | cons c gap ih =>
      have split := fields_append_cons [] (gap ++ cs) (blank c List.mem_cons_self)
      exact split.trans (ih fun d member => blank d (List.mem_cons_of_mem c member))

theorem fields_of_blank (blank : Blank cs) : fields cs = [] := by
  rw [← List.append_nil cs, fields_append_left blank]
  rfl

/-- Any blanks between two parts of a text divide them. -/
theorem fields_gap (as bs : List Char) (wide : gap ≠ []) (blank : Blank gap) :
    fields (as ++ gap ++ bs) = fields as ++ fields bs := by
  cases gap with
  | nil => exact (wide rfl).elim
  | cons c gap =>
      rw [List.append_assoc, List.cons_append,
        fields_append_cons as _ (blank c List.mem_cons_self),
        fields_append_left fun d member => blank d (List.mem_cons_of_mem c member)]

theorem fields_append_right (cs : List Char) (blank : Blank gap) :
    fields (cs ++ gap) = fields cs := by
  by_cases empty : gap = []
  · rw [empty, List.append_nil]
  · have split := fields_gap cs [] empty blank
    rwa [List.append_nil, @fields_of_blank [] (by decide), List.append_nil] at split

theorem IsField.fields (h : IsField word) : fields word = [word] := by
  have uncut : ∀ c ∈ word, isBlank c = false := fun c member =>
    Bool.eq_false_iff.2 (h.solid c member)
  rw [Text.fields, List.splitOnP_eq_singleton uncut]
  simp [h.nonempty]

theorem IsField.fields_append (h : IsField word) (parts : Parts rest) :
    Text.fields (word ++ rest) = word :: Text.fields rest := by
  cases rest with
  | nil =>
      rw [List.append_nil, h.fields]
      rfl
  | cons c rest =>
      have blank : isBlank c := parts c rfl
      have after := fields_append_cons [] rest blank
      rw [fields_append_cons word rest blank, h.fields]
      exact congrArg (word :: ·) after.symm

/-- A text that is not blank has a first field, with blanks before it and a rest behind. -/
theorem exists_first_field (cs : List Char) :
    Blank cs ∨ ∃ start word rest, cs = start ++ word ++ rest ∧ Blank start ∧ IsField word ∧
      Parts rest := by
  generalize same : cs.dropWhile isBlank = left
  have whole : cs.takeWhile isBlank ++ left = cs := by
    rw [← same, List.takeWhile_append_dropWhile]
  have before : Blank (cs.takeWhile isBlank) := fun c member => List.mem_takeWhile_imp member
  cases left with
  | nil =>
      refine .inl ?_
      rw [← whole, List.append_nil]
      exact before
  | cons c left =>
      have first : ¬ isBlank c := by
        have head := List.head?_dropWhile_not isBlank cs
        rw [same] at head
        simpa using head
      refine .inr ⟨cs.takeWhile isBlank, (c :: left).takeWhile (! isBlank ·),
        (c :: left).dropWhile (! isBlank ·), ?_, before, ⟨?_, ?_⟩, ?_⟩
      · rw [List.append_assoc, List.takeWhile_append_dropWhile, whole]
      · simp [first]
      · intro d member
        simpa using List.mem_takeWhile_imp member
      · intro d head
        have stops := List.head?_dropWhile_not (! isBlank ·) (c :: left)
        rw [Option.mem_def.1 head] at stops
        simpa using stops

theorem fields_first (before : Blank start) (field : IsField word) (parts : Parts rest) :
    fields (start ++ word ++ rest) = word :: fields rest := by
  rw [List.append_assoc, fields_append_left before, field.fields_append parts]

theorem fields_eq_nil_iff : fields cs = [] ↔ Blank cs := by
  constructor
  · intro none_there
    rcases exists_first_field cs with blank | ⟨start, word, rest, rfl, before, field, parts⟩
    · exact blank
    · rw [fields_first before field parts] at none_there
      contradiction
  · exact fields_of_blank

/-- The fields of a text are found one after the other, so what holds of a first field holds of
each. -/
theorem isField_of_mem (member : word ∈ fields cs) : IsField word := by
  generalize size : cs.length = n
  induction n using Nat.strongRecOn generalizing cs with
  | ind n ih =>
      rcases exists_first_field cs with blank | ⟨start, first, rest, rfl, before, field, parts⟩
      · rw [fields_of_blank blank] at member
        exact (List.not_mem_nil member).elim
      · rw [fields_first before field parts] at member
        rcases List.mem_cons.1 member with rfl | later
        · exact field
        · have shorter : rest.length < n := by
            have long := List.length_pos_of_ne_nil field.nonempty
            simp only [List.length_append] at size
            omega
          exact ih _ shorter later rfl

/-! ## Trimmed texts -/

theorem trimStart_append_left (blank : Blank gap) (cs : List Char) :
    trimStart (gap ++ cs) = trimStart cs := List.dropWhile_append_of_pos blank

theorem trimEnd_append_right (cs : List Char) (blank : Blank gap) :
    trimEnd (cs ++ gap) = trimEnd cs := by
  have turned : ∀ c ∈ gap.reverse, isBlank c := fun c member => blank c (List.mem_reverse.1 member)
  rw [trimEnd, trimEnd, List.reverse_append, List.dropWhile_append_of_pos turned]

theorem trimStart_cons (solid : ¬ isBlank c) (cs : List Char) : trimStart (c :: cs) = c :: cs :=
  List.dropWhile_cons_of_neg solid

theorem trimStart_append_cons (as bs : List Char) (solid : ¬ isBlank c) :
    trimStart (as ++ c :: bs) = trimStart as ++ c :: bs := by
  induction as with
  | nil => exact trimStart_cons solid bs
  | cons a as ih =>
      unfold trimStart at ih ⊢
      by_cases blank : isBlank a
      · rw [List.cons_append, List.dropWhile_cons_of_pos blank, List.dropWhile_cons_of_pos blank,
          ih]
      · rw [List.cons_append, List.dropWhile_cons_of_neg blank, List.dropWhile_cons_of_neg blank,
          List.cons_append]

theorem trimEnd_append_cons (as bs : List Char) (solid : ¬ isBlank c) :
    trimEnd (as ++ c :: bs) = as ++ c :: trimEnd bs := by
  have turned := trimStart_append_cons bs.reverse as.reverse solid
  unfold trimStart at turned
  rw [trimEnd, List.reverse_append, List.reverse_cons, List.append_assoc, List.singleton_append,
    turned, List.reverse_append, List.reverse_cons, List.reverse_reverse, List.append_assoc,
    List.singleton_append]
  rfl

theorem trim_of_blank (blank : Blank cs) : trim cs = [] := by
  have none_left : trimStart cs = [] := List.dropWhile_eq_nil_iff.2 blank
  rw [trim, none_left]
  rfl

theorem trim_append_left (blank : Blank gap) (cs : List Char) : trim (gap ++ cs) = trim cs := by
  rw [trim, trimStart_append_left blank, trim]

theorem trim_append_right (cs : List Char) (blank : Blank gap) : trim (cs ++ gap) = trim cs := by
  rcases exists_first_field cs with empty | ⟨start, word, rest, rfl, before, field, -⟩
  · rw [trim_of_blank empty, trim_of_blank (empty.append blank)]
  · cases word with
    | nil => exact (field.nonempty rfl).elim
    | cons c word =>
        have solid := field.solid c List.mem_cons_self
        have shape : start ++ c :: word ++ rest = start ++ c :: (word ++ rest) := by simp
        rw [shape, List.append_assoc, List.cons_append, trim, trim, trimStart_append_cons _ _ solid,
          trimStart_append_cons _ _ solid, ← List.cons_append, ← List.append_assoc,
          trimEnd_append_right _ blank]

theorem trim_pad (blank : Blank start) (blank' : Blank gap) (cs : List Char) :
    trim (start ++ cs ++ gap) = trim cs := by
  rw [trim_append_right _ blank', trim_append_left blank]

theorem IsField.trim (h : IsField word) : trim word = word := by
  cases word with
  | nil => rfl
  | cons c word =>
      have turned : ∀ d ∈ (c :: word).reverse, ¬ isBlank d :=
        fun d member => h.solid d (List.mem_reverse.1 member)
      rw [Text.trim, trimStart_cons (h.solid c List.mem_cons_self), trimEnd]
      cases shape : (c :: word).reverse with
      | nil => simp at shape
      | cons d others =>
          rw [List.dropWhile_cons_of_neg (turned d (by rw [shape]; exact List.mem_cons_self)),
            ← shape, List.reverse_reverse]

theorem trim_trimStart (cs : List Char) : trim (trimStart cs) = trim cs := by
  have before : Blank (cs.takeWhile isBlank) := fun c member => List.mem_takeWhile_imp member
  rw [← trim_append_left before, trimStart, List.takeWhile_append_dropWhile]

theorem exists_trimEnd (cs : List Char) : ∃ last, Blank last ∧ cs = trimEnd cs ++ last :=
  ⟨cs.rtakeWhile isBlank, fun _ member => List.mem_rtakeWhile_imp member,
    List.rdropWhile_append_rtakeWhile.symm⟩

theorem trim_trimEnd (cs : List Char) : trim (trimEnd cs) = trim cs := by
  obtain ⟨last, blank, whole⟩ := exists_trimEnd cs
  conv_rhs => rw [whole]
  rw [trim_append_right _ blank]

theorem trimEnd_cons_congr (c : Char) (same : trimEnd as = trimEnd bs) :
    trimEnd (c :: as) = trimEnd (c :: bs) := by
  obtain ⟨last, blank, whole⟩ := exists_trimEnd as
  obtain ⟨last', blank', whole'⟩ := exists_trimEnd bs
  rw [whole, whole', same, ← List.cons_append, ← List.cons_append, trimEnd_append_right _ blank,
    trimEnd_append_right _ blank']

/-- Trimming takes blanks away at both ends and nothing else. -/
theorem exists_trim (cs : List Char) :
    ∃ start last, Blank start ∧ Blank last ∧ cs = start ++ trim cs ++ last := by
  obtain ⟨last, after, whole⟩ := exists_trimEnd (trimStart cs)
  refine ⟨cs.takeWhile isBlank, last, fun c member => List.mem_takeWhile_imp member, after, ?_⟩
  rw [List.append_assoc, trim, ← whole, trimStart, List.takeWhile_append_dropWhile]

theorem mem_of_mem_trim (member : c ∈ trim cs) : c ∈ cs := by
  obtain ⟨start, last, -, -, whole⟩ := exists_trim cs
  rw [whole]
  exact List.mem_append_left _ (List.mem_append_right _ member)

theorem fields_trim (cs : List Char) : fields (trim cs) = fields cs := by
  obtain ⟨start, last, before, after, whole⟩ := exists_trim cs
  conv_rhs => rw [whole]
  rw [fields_append_right _ after, fields_append_left before]

theorem trim_eq_nil_iff : trim cs = [] ↔ fields cs = [] := by
  constructor
  · intro empty
    rw [← fields_trim, empty]
    rfl
  · intro empty
    exact trim_of_blank (fields_eq_nil_iff.1 empty)

/-- A text with one field is trimmed to that field. -/
theorem trim_of_fields (single : fields cs = [word]) : trim cs = word := by
  rcases exists_first_field cs with empty | ⟨start, first, rest, rfl, before, field, parts⟩
  · rw [fields_of_blank empty] at single
    contradiction
  · rw [fields_first before field parts] at single
    obtain ⟨rfl, none_left⟩ := List.cons_eq_cons.1 single
    rw [trim_pad before (fields_eq_nil_iff.1 none_left), field.trim]

theorem head?_trim (cs : List Char) : (trim cs).head? = (fields cs).head?.bind List.head? := by
  rcases exists_first_field cs with empty | ⟨start, word, rest, rfl, before, field, parts⟩
  · rw [trim_of_blank empty, fields_of_blank empty]
    rfl
  · cases word with
    | nil => exact (field.nonempty rfl).elim
    | cons c word =>
        have solid := field.solid c List.mem_cons_self
        have shape : trim (c :: word ++ rest) = c :: trimEnd (word ++ rest) := by
          rw [trim, List.cons_append, trimStart_cons solid]
          exact trimEnd_append_cons [] _ solid
        rw [fields_first before field parts, List.append_assoc, trim_append_left before, shape]
        rfl

/-! ## Lines -/

/-- The texts between the newlines of a text, of which there is always one more than newlines. -/
def rows (cs : List Char) : List (List Char) := cs.splitOn '\n'

theorem rows_newline (cs : List Char) : rows ('\n' :: cs) = [] :: rows cs := by
  rw [rows, List.splitOn, List.splitOnP_cons_eq_if_modifyHead, if_pos (by decide)]
  rfl

theorem rows_cons (other : c ≠ '\n') (cs : List Char) :
    rows (c :: cs) = (rows cs).modifyHead (c :: ·) := by
  rw [rows, List.splitOn, List.splitOnP_cons_eq_if_modifyHead, if_neg (by simpa using other)]
  rfl

/-- Up to blanks at their ends, the lines of a text are its rows, but for an empty one after a final
newline. -/
theorem rows_eq_lines (cs : List Char) : ∃ extra, (extra = [] ∨ extra = [[]]) ∧
    (rows cs).map trimEnd = (lines cs).map trimEnd ++ extra := by
  induction cs using lines.induct with
  | case1 => exact ⟨[[]], .inr rfl, rfl⟩
  | case2 cs ih =>
      obtain ⟨extra, final, same⟩ := ih
      refine ⟨extra, final, ?_⟩
      rw [rows_newline, List.map_cons, same]
      rfl
  | case3 cs ih =>
      obtain ⟨extra, final, same⟩ := ih
      refine ⟨extra, final, ?_⟩
      rw [rows_cons (by decide), rows_newline, List.modifyHead_cons, List.map_cons, same]
      rfl
  | case4 c cs newline carriage none ih =>
      obtain ⟨extra, final, same⟩ := ih
      have shape : lines (c :: cs) = [[c]] := by
        rw [lines, none] <;> assumption
      rw [none, List.map_nil, List.nil_append] at same
      refine ⟨[], .inl rfl, ?_⟩
      rw [shape, rows_cons newline, List.append_nil]
      rcases final with rfl | rfl
      · exact (List.splitOnP_ne_nil _ cs (List.map_eq_nil_iff.1 same)).elim
      · obtain ⟨row, only, empty⟩ := List.map_eq_singleton_iff.1 same
        rw [only, List.modifyHead_cons, List.map_singleton, List.map_singleton]
        exact congrArg ([·]) (trimEnd_cons_congr c empty)
  | case5 c cs newline carriage line rest more ih =>
      obtain ⟨extra, final, same⟩ := ih
      have shape : lines (c :: cs) = (c :: line) :: rest := by
        rw [lines, more] <;> assumption
      refine ⟨extra, final, ?_⟩
      rw [more, List.map_cons, List.cons_append] at same
      obtain ⟨row, others, split, first, remaining⟩ := List.map_eq_cons_iff.1 same
      rw [shape, rows_cons newline, split, List.modifyHead_cons, List.map_cons, List.map_cons,
        remaining, trimEnd_cons_congr c first]
      rfl

theorem rows_trim (cs : List Char) : ∃ extra, (extra = [] ∨ extra = [[]]) ∧
    (rows cs).map trim = (lines cs).map trim ++ extra := by
  obtain ⟨extra, final, same⟩ := rows_eq_lines cs
  have trimmed (texts : List (List Char)) : (texts.map trimEnd).map trim = texts.map trim := by
    rw [List.map_map]
    exact List.map_congr_left fun row _ => trim_trimEnd row
  refine ⟨extra.map trim, ?_, ?_⟩
  · rcases final with rfl | rfl
    · exact .inl rfl
    · exact .inr rfl
  · rw [← trimmed, same, List.map_append, trimmed]

end Timeslice.Text
