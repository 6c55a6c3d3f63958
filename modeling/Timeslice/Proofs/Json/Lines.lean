import Mathlib.Data.List.DropRight
import Timeslice.Proofs.Json.Lexing
import Timeslice.Proofs.Machine.Grammar
import Timeslice.Proofs.Text.Upper

/-! # Documents as programs

A document says nothing as a program. No token begins with a dot and no string has a line break in
it, so no line of a document is a marker that would open a region.
-/

namespace Timeslice

def Text.Undotted (line : List Char) : Prop := (trimStart line).head? ≠ some '.'

namespace Json

namespace Lexer

variable {lexer next : Lexer} {tokens : List Token} {c : Char}

/-- A line break is read between tokens only, where it may end a word or a number. -/
theorem between_of_newline (read : lexer.step '\n' = some next) : next.mode = .between := by
  obtain ⟨mode, tokens⟩ := lexer
  cases mode with
  | between =>
      cases read
      rfl
  | word _ | number _ =>
      obtain ⟨closed, -, begun⟩ := Option.bind_eq_some_iff.1 read
      cases begun
      rfl
  | string _ | escape _ | unit _ _ _ => cases read

theorem begin_of_step (between : lexer.mode = .between) (read : lexer.step c = some next) :
    begin lexer.tokens c = some next := by
  rwa [step, between] at read

theorem ne_dot_of_begin (begun : begin tokens c = some next) : c ≠ '.' := by
  rintro rfl
  cases begun

/-- Of the blanks of program texts, those that a document may have between tokens leave the lexer
there. -/
theorem between_of_begin (begun : begin tokens c = some next) (blank : Text.isBlank c) :
    next.mode = .between := by
  have range := Text.toNat_of_isBlank blank
  unfold begin at begun
  split at begun
  iterate 7 exact absurd blank (by decide)
  split at begun
  · cases begun
    rfl
  · split at begun
    · rename_i letter
      simp only [isLetter, Bool.and_eq_true, decide_eq_true_eq] at letter
      have low : 97 ≤ c.toNat := UInt32.le_iff_toNat_le.1 letter.1
      have high : c.toNat ≤ 122 := UInt32.le_iff_toNat_le.1 letter.2
      omega
    · split at begun
      · rename_i digit
        simp only [Char.isDigit, Bool.or_eq_true, Bool.and_eq_true, decide_eq_true_eq,
          beq_iff_eq] at digit
        rcases digit with ⟨low, high⟩ | rfl
        · have low : 48 ≤ c.toNat := UInt32.le_iff_toNat_le.1 low
          have high : c.toNat ≤ 57 := UInt32.le_iff_toNat_le.1 high
          omega
        · exact absurd blank (by decide)
      · cases begun

end Lexer

open Text (Undotted)

theorem undotted_nil : Undotted [] := by
  rintro ⟨⟩

theorem undotted_cons {c : Char} {line : List Char} {tokens : List Token} {next : Lexer}
    (begun : Lexer.begin tokens c = some next) (rest : next.mode = .between → Undotted line) :
    Undotted (c :: line) := by
  unfold Text.Undotted Text.trimStart
  by_cases blank : Text.isBlank c
  · rw [List.dropWhile_cons_of_pos blank]
    exact rest (Lexer.between_of_begin begun blank)
  · rw [List.dropWhile_cons_of_neg blank]
    exact fun dotted => Lexer.ne_dot_of_begin begun (Option.some.inj dotted)

/-- Of the text after a place where the lexer stands, every line but the first is undotted, and so
is the first if the lexer stands between two tokens. -/
theorem undotted_lines (cs : List Char) {lexer last : Lexer}
    (read : cs.foldlM Lexer.step lexer = some last) :
    (∀ line ∈ (Text.lines cs).tail, Undotted line) ∧
      (lexer.mode = .between → ∀ line ∈ Text.lines cs, Undotted line) := by
  induction cs using Text.lines.induct generalizing lexer with
  | case1 =>
      exact ⟨fun _ member => absurd member List.not_mem_nil,
        fun _ _ member => absurd member List.not_mem_nil⟩
  | case2 cs ih =>
      rw [List.foldlM_cons] at read
      obtain ⟨next, step, read⟩ := Option.bind_eq_some_iff.1 read
      have fresh := (ih read).2 (Lexer.between_of_newline step)
      exact ⟨fresh, fun _ => List.forall_mem_cons.2 ⟨undotted_nil, fresh⟩⟩
  | case3 cs ih =>
      rw [List.foldlM_cons] at read
      obtain ⟨middle, -, read⟩ := Option.bind_eq_some_iff.1 read
      rw [List.foldlM_cons] at read
      obtain ⟨next, step, read⟩ := Option.bind_eq_some_iff.1 read
      have fresh := (ih read).2 (Lexer.between_of_newline step)
      exact ⟨fresh, fun _ => List.forall_mem_cons.2 ⟨undotted_nil, fresh⟩⟩
  | case4 c cs newline carriage none ih =>
      have shape : Text.lines (c :: cs) = [[c]] := by
        rw [Text.lines, none] <;> assumption
      rw [List.foldlM_cons] at read
      obtain ⟨next, step, -⟩ := Option.bind_eq_some_iff.1 read
      rw [shape]
      refine ⟨fun _ member => absurd member List.not_mem_nil, fun between => ?_⟩
      exact List.forall_mem_singleton.2
        (undotted_cons (Lexer.begin_of_step between step) fun _ => undotted_nil)
  | case5 c cs newline carriage line rest more ih =>
      have shape : Text.lines (c :: cs) = (c :: line) :: rest := by
        rw [Text.lines, more] <;> assumption
      rw [List.foldlM_cons] at read
      obtain ⟨next, step, read⟩ := Option.bind_eq_some_iff.1 read
      obtain ⟨others, first⟩ := ih read
      rw [more] at others first
      rw [shape]
      refine ⟨others, fun between => List.forall_mem_cons.2 ⟨?_, others⟩⟩
      exact undotted_cons (Lexer.begin_of_step between step) fun between =>
        first between line List.mem_cons_self

end Json

/-! ## Loading a document -/

namespace Program

/-- Every marker starts with a dot. -/
theorem afterMarker?_of_undotted {line : List Char} (undotted : Text.Undotted line)
    (region : Region) : region.afterMarker? (Text.trim line) = none := by
  have headed {marker : String}
      (word : String.ofList ((Text.trim line).map Char.toLower) = marker) :
      marker.toList.head? ≠ some '.' := by
    intro dotted
    rw [← word, String.toList_ofList, List.head?_map] at dotted
    obtain ⟨c, head, lower⟩ := Option.map_eq_some_iff.1 dotted
    obtain ⟨tail, whole⟩ := List.rdropWhile_prefix Text.isBlank (Text.trimStart line)
    have start : (Text.trimStart line).head? = some c := by
      rw [← whole, List.head?_append]
      exact congrArg (Option.or · tail.head?) head
    exact undotted (Text.eq_of_toLower lower (by decide) ▸ start)
  unfold Region.afterMarker?
  split
  iterate 4 exact absurd rfl (headed ‹_›)
  rfl

/-- The text of a document loads as a program with nothing in it. -/
theorem parse_of_tokens {text : String} {tokens : List Json.Token}
    (read : Json.Token.ofText? text = some tokens) : parse text = .ok .empty := by
  obtain ⟨last, read, -⟩ := Option.bind_eq_some_iff.1 read
  have undotted := (Json.undotted_lines text.toList read).2 rfl
  have skipped (lines : List Line)
      (plain : ∀ line ∈ lines, Region.outside.afterMarker? line.1 = none) :
      lines.foldlM (fun loading line => Loading.read loading line.2 line.1) Loading.start =
        .ok Loading.start := by
    induction lines with
    | nil => rfl
    | cons line lines ih =>
        have same : Loading.start.read line.2 line.1 = .ok .start := by
          have outside : Loading.start.region = .outside := rfl
          simp only [Loading.read, outside, plain line List.mem_cons_self]
          split <;> rfl
        rw [List.foldlM_cons, same]
        exact ih fun other member => plain other (List.mem_cons_of_mem line member)
  have plain : ∀ line ∈ numberedLines text, Region.outside.afterMarker? line.1 = none := by
    intro line member
    obtain ⟨raw, found, same⟩ := List.mem_map.1 (List.fst_mem_of_mem_zipIdx member)
    rw [← same]
    exact afterMarker?_of_undotted (undotted raw found) .outside
  unfold parse
  rw [skipped _ plain]
  rfl

end Program

end Timeslice
