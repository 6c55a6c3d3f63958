import Mathlib.Data.List.TakeWhile
import Timeslice.Json.Printer
import Timeslice.Json.Token
import Timeslice.Proofs.Text.Decimal

/-! # Reading the parts of printed text

The lexer reads what the printer writes: blanks between tokens go by, numbers and words end where
what follows cannot belong to them, and every character of a string comes back from the form it is
written in. Each lemma leaves the lexer between two tokens, before the rest of the text.
-/

namespace Timeslice.Json

open Lexer (isBlank isLetter inNumber)

/-! ## Running the lexer -/

def Lexer.run (lexer : Lexer) (cs : List Char) : Option (List Token) := do
  let last ← cs.foldlM Lexer.step lexer
  let closed ← last.close
  return closed.tokens.reverse

/-- The tokens of characters that come after `tokens`, which are held last first. -/
def Token.after (tokens : List Token) (cs : List Char) : Option (List Token) :=
  Lexer.run ⟨.between, tokens⟩ cs

theorem Token.ofText?_eq (text : String) : Token.ofText? text = Token.after [] text.toList := rfl

namespace Lexer

variable {lexer next : Lexer} {c : Char} {cs rest : List Char} {tokens : List Token}

theorem run_cons (step : lexer.step c = some next) : lexer.run (c :: cs) = next.run cs := by
  simp only [run, List.foldlM_cons, step]
  rfl

/-- Characters that no word and no number goes on with. -/
def Delimits (rest : List Char) : Prop := ∀ c ∈ rest.head?, ¬ isLetter c ∧ ¬ inNumber c

/-- A word or number under way is a token once its characters are over. -/
theorem run_of_close {token : Token} (closed : lexer.close = some (emit lexer.tokens token))
    (ends : ∀ c ∈ rest.head?, lexer.step c =
      lexer.close.bind fun closed => begin closed.tokens c) :
    lexer.run rest = Token.after (token :: lexer.tokens) rest := by
  cases rest with
  | nil =>
      show lexer.close.bind (fun closed => some closed.tokens.reverse) = _
      rw [closed]
      rfl
  | cons c rest =>
      have step := ends c (by simp)
      rw [closed] at step
      simp only [run, Token.after, List.foldlM_cons, step]
      rfl

theorem run_word {letters : List Char} {token : Token} (word : word? letters.reverse = some token)
    (delimits : Delimits rest) :
    run ⟨.word letters, tokens⟩ rest = Token.after (token :: tokens) rest := by
  refine run_of_close (by simp only [close, word, Option.map_some]) fun c member => ?_
  simp only [step, (delimits c member).1, Bool.false_eq_true, if_false]

theorem run_number {literal : List Char} {token : Token}
    (numeral : numeral? literal.reverse = some token) (delimits : Delimits rest) :
    run ⟨.number literal, tokens⟩ rest = Token.after (token :: tokens) rest := by
  refine run_of_close (by simp only [close, numeral, Option.map_some]) fun c member => ?_
  simp only [step, (delimits c member).2, Bool.false_eq_true, if_false]

end Lexer

namespace Token

variable {c : Char} {cs rest : List Char} {tokens : List Token}

theorem after_cons {token : Token} (begun : Lexer.begin tokens c = some (Lexer.emit tokens token)) :
    after tokens (c :: rest) = after (token :: tokens) rest := Lexer.run_cons begun

theorem isBlank_iff : isBlank c ↔ c = ' ' ∨ c = '\t' ∨ c = '\n' ∨ c = '\r' := by
  simp only [isBlank, Bool.or_eq_true, beq_iff_eq, or_assoc]

theorem begin_blank (blank : isBlank c) : Lexer.begin tokens c = some ⟨.between, tokens⟩ := by
  rcases isBlank_iff.1 blank with rfl | rfl | rfl | rfl <;> rfl

theorem after_blanks (blank : ∀ c ∈ cs, isBlank c) :
    after tokens (cs ++ rest) = after tokens rest := by
  induction cs with
  | nil => rfl
  | cons c cs ih =>
      rw [← ih fun d hd => blank d (List.mem_cons_of_mem c hd)]
      exact Lexer.run_cons (begin_blank (blank c List.mem_cons_self))

theorem delimits_blanks (blank : ∀ c ∈ cs, isBlank c) (delimits : Lexer.Delimits rest) :
    Lexer.Delimits (cs ++ rest) := by
  cases cs with
  | nil => exact delimits
  | cons c cs =>
      intro d hd
      cases hd
      rcases isBlank_iff.1 (blank _ List.mem_cons_self) with rfl | rfl | rfl | rfl <;> decide

/-- A blank ends the word or number under way, as the end of the text does. -/
theorem step_blank {lexer closed : Lexer} (closes : lexer.close = some closed) (blank : isBlank c) :
    lexer.step c = some closed := by
  have alone : Lexer.Delimits ([c] ++ []) := delimits_blanks
    (fun d hd => List.mem_singleton.1 hd ▸ blank) (fun _ hd => by cases hd)
  have ends := alone c rfl
  obtain ⟨mode, tokens⟩ := lexer
  cases mode with
  | between =>
      cases closes
      exact begin_blank blank
  | word letters =>
      simp only [Lexer.step, ends.1, Bool.false_eq_true, if_false, closes, Option.bind_some,
        begin_blank blank]
      obtain ⟨token, -, rfl⟩ := Option.map_eq_some_iff.1 closes
      rfl
  | number literal =>
      simp only [Lexer.step, ends.2, Bool.false_eq_true, if_false, closes, Option.bind_some,
        begin_blank blank]
      obtain ⟨token, -, rfl⟩ := Option.map_eq_some_iff.1 closes
      rfl
  | string _ | escape _ | unit _ _ _ => cases closes

/-- Text that is read to its end is read with a line break after it as well. -/
theorem ofText?_line {text : String} {tokens : List Token} (read : ofText? text = some tokens) :
    ofText? (text ++ "\n") = some tokens := by
  obtain ⟨last, run, read⟩ := Option.bind_eq_some_iff.1 read
  obtain ⟨closed, closes, reversed⟩ := Option.bind_eq_some_iff.1 read
  have between : closed.close = some closed := by
    obtain ⟨mode, tokens⟩ := last
    cases mode with
    | between => cases closes; rfl
    | word _ | number _ =>
        obtain ⟨token, -, rfl⟩ := Option.map_eq_some_iff.1 closes
        rfl
    | string _ | escape _ | unit _ _ _ => cases closes
  have ended : last.step '\n' = some closed := step_blank closes (by decide)
  have whole : (text ++ "\n").toList.foldlM Lexer.step Lexer.start = some closed := by
    rw [String.toList_append, List.foldlM_append, run]
    exact congrArg (Option.bind · _) ended
  rw [ofText?, whole]
  exact (congrArg (Option.bind · _) between).trans reversed

/-! ## Words -/

theorem after_null (delimits : Lexer.Delimits rest) :
    after tokens ("null".toList ++ rest) = after (.null :: tokens) rest := by
  show Lexer.run ⟨.word ['l', 'l', 'u', 'n'], tokens⟩ rest = _
  exact Lexer.run_word rfl delimits

theorem after_true (delimits : Lexer.Delimits rest) :
    after tokens ("true".toList ++ rest) = after (.bool true :: tokens) rest := by
  show Lexer.run ⟨.word ['e', 'u', 'r', 't'], tokens⟩ rest = _
  exact Lexer.run_word rfl delimits

theorem after_false (delimits : Lexer.Delimits rest) :
    after tokens ("false".toList ++ rest) = after (.bool false :: tokens) rest := by
  show Lexer.run ⟨.word ['e', 's', 'l', 'a', 'f'], tokens⟩ rest = _
  exact Lexer.run_word rfl delimits

/-! ## Numbers -/

/-- The decimal text of a positive number has no leading zero. -/
theorem head?_toDigits_ne {n : Nat} (pos : 0 < n) : (Nat.toDigits 10 n).head? ≠ some '0' := by
  induction n using Nat.strongRecOn with
  | ind n ih =>
      rcases Nat.lt_or_ge n 10 with small | large
      · rw [Nat.toDigits_of_lt_base small]
        have digits : ∀ d < 10, 0 < d → [d.digitChar].head? ≠ some '0' := by decide
        exact digits n small pos
      · have shorter := ih (n / 10) (by omega) (by omega)
        rw [Nat.toDigits_of_base_le (by decide) large]
        cases digits : Nat.toDigits 10 (n / 10) with
        | nil => simp at digits
        | cons d ds =>
            rw [digits] at shorter
            exact shorter

/-- Decimal digits are a whole part that nothing follows. -/
theorem wellFormed_toDigits (n : Nat) :
    let digits := Nat.toDigits 10 n
    digits.takeWhile Char.isDigit = digits ∧ digits.dropWhile Char.isDigit = [] ∧
      (digits.isEmpty || (digits.head? == some '0' && digits.length != 1) || !isTail []) = false ∧
      digits.head? ≠ some '-' := by
  intro digits
  have all := Text.isDigit_toDigits n
  refine ⟨?_, List.dropWhile_eq_nil_iff.2 all, ?_, ?_⟩
  · rw [List.takeWhile_eq_self_iff]
    exact all
  · rw [List.isEmpty_eq_false_iff.2 Nat.toDigits_ne_nil]
    rcases Nat.eq_zero_or_pos n with rfl | pos
    · rfl
    · rw [beq_eq_false_iff_ne.2 (head?_toDigits_ne pos)]
      rfl
  · intro head
    exact absurd (all '-' (List.mem_of_mem_head? head)) (by decide)

theorem numeral?_decimal (i : Int) : numeral? (Text.decimal i).toList = some (.int i) := by
  obtain ⟨whole, tail, clean, unsigned⟩ := wellFormed_toDigits i.natAbs
  rw [Text.toList_decimal]
  by_cases negative : i < 0
  · have nonzero : (i.natAbs == 0) = false := beq_eq_false_iff_ne.2 (by omega)
    have value : -(i.natAbs : Int) = i := by omega
    simp only [numeral?, negative, if_true, List.singleton_append, List.head?_cons,
      beq_self_eq_true, List.drop_one, List.tail_cons, whole, tail, clean, Bool.false_eq_true,
      if_false, Nat.ofDigitChars_ten_toDigits, nonzero, Bool.and_false, Bool.not_false,
      List.isEmpty_nil, Bool.and_self, value]
  · have value : (i.natAbs : Int) = i := by omega
    have positive := beq_eq_false_iff_ne.2 unsigned
    simp only [numeral?, negative, if_false, List.nil_append, positive, whole, tail, clean,
      Bool.false_eq_true, Nat.ofDigitChars_ten_toDigits, Bool.false_and, Bool.not_false,
      List.isEmpty_nil, Bool.and_self, if_true, value]

theorem begin_digit (digit : c.isDigit ∨ c = '-') :
    Lexer.begin tokens c = some ⟨.number [c], tokens⟩ := by
  rcases digit with digit | rfl
  · have blank : isBlank c = false := by
      refine Bool.eq_false_iff.2 fun blank => ?_
      rcases isBlank_iff.1 blank with rfl | rfl | rfl | rfl <;> exact absurd digit (by decide)
    have letter : isLetter c = false := by
      simp only [Char.isDigit, Bool.and_eq_true, decide_eq_true_eq] at digit
      refine Bool.eq_false_iff.2 fun letter => ?_
      simp only [isLetter, Bool.and_eq_true, decide_eq_true_eq] at letter
      have least : (97 : UInt32) ≤ c.val := letter.1
      exact absurd (UInt32.le_trans least digit.2) (by decide)
    unfold Lexer.begin
    split
    iterate 7 exact absurd digit (by decide)
    rw [blank, letter, digit]
    rfl
  · rfl

theorem after_int (i : Int) (delimits : Lexer.Delimits rest) :
    after tokens ((Text.decimal i).toList ++ rest) = after (.int i :: tokens) rest := by
  have numeral := numeral?_decimal i
  have characters : ∀ c ∈ (Text.decimal i).toList, c.isDigit ∨ c = '-' :=
    fun _ member => Text.mem_decimal member
  have run (literal cs : List Char) (all : ∀ c ∈ cs, c.isDigit ∨ c = '-') :
      Lexer.run ⟨.number literal, tokens⟩ (cs ++ rest) =
        Lexer.run ⟨.number (cs.reverse ++ literal), tokens⟩ rest := by
    induction cs generalizing literal with
    | nil => rfl
    | cons c cs ih =>
        have inside : inNumber c = true := by
          rcases all c List.mem_cons_self with digit | rfl
          · simp only [inNumber, digit, Bool.true_or]
          · rfl
        have step : Lexer.step ⟨.number literal, tokens⟩ c =
            some ⟨.number (c :: literal), tokens⟩ := by
          simp only [Lexer.step, inside, if_true]
        rw [List.cons_append, Lexer.run_cons step,
          ih _ fun d hd => all d (List.mem_cons_of_mem c hd), List.reverse_cons, List.append_assoc]
        rfl
  cases text : (Text.decimal i).toList with
  | nil =>
      rw [text] at numeral
      cases numeral
  | cons c cs =>
      rw [text] at numeral characters
      have begun : Lexer.step ⟨.between, tokens⟩ c = some ⟨.number [c], tokens⟩ :=
        begin_digit (characters c List.mem_cons_self)
      rw [List.cons_append, after, Lexer.run_cons begun,
        run _ _ fun d hd => characters d (List.mem_cons_of_mem c hd)]
      exact Lexer.run_number (by rw [List.reverse_append, List.reverse_reverse]; exact numeral)
        delimits

end Token

/-! ## Strings -/

namespace Piece

/-- Pieces that denote `text`, whatever comes after them. -/
def Spells (pieces : List Piece) (text : List Char) : Prop :=
  ∀ more, join (pieces ++ more) = (join more).map (text ++ ·)

theorem isHigh_iff {n : Nat} : isHigh n ↔ 0xd800 ≤ n ∧ n ≤ 0xdbff := by
  simp only [isHigh, Bool.and_eq_true, decide_eq_true_eq]

theorem isLow_iff {n : Nat} : isLow n ↔ 0xdc00 ≤ n ∧ n ≤ 0xdfff := by
  simp only [isLow, Bool.and_eq_true, decide_eq_true_eq]

namespace Spells

variable {first second pieces : List Piece} {text a b : List Char}

theorem nil : Spells [] [] := fun more => by
  cases joined : join more <;> simp only [List.nil_append, joined] <;> rfl

theorem append (left : Spells first a) (right : Spells second b) :
    Spells (first ++ second) (a ++ b) := fun more => by
  rw [List.append_assoc, left, right, Option.map_map]
  refine congrArg (Option.map · _) (funext fun cs => ?_)
  exact (List.append_assoc a b cs).symm

theorem join_eq (spells : Spells pieces text) : join pieces = some text := by
  have whole := spells []
  rw [List.append_nil] at whole
  rw [whole]
  exact congrArg some (List.append_nil text)

theorem char (c : Char) : Spells [.char c] [c] := fun _ => rfl

/-- A unit that is no surrogate stands for its own code point, whatever unit comes next. -/
theorem unit {n : Nat} (high : ¬ isHigh n) (low : ¬ isLow n) :
    Spells [.unit n] [Char.ofNat n] := fun more => by
  cases more with
  | nil => simp only [List.cons_append, List.nil_append, join, high, low]; rfl
  | cons piece more =>
      cases piece <;> simp only [List.cons_append, List.nil_append, join, high, low] <;> rfl

theorem surrogates {h l : Nat} (high : isHigh h) (low : isLow l) :
    Spells [.unit h, .unit l]
      [Char.ofNat (0x10000 + (h - 0xd800) * 0x400 + (l - 0xdc00))] := fun more => by
  simp only [List.cons_append, List.nil_append, join, high, low, if_true]

end Spells

/-- A code point is spelt by its units. -/
theorem spells_units (c : Char) : Spells ((units c.toNat).map .unit) [c] := by
  have valid : c.toNat < 0xd800 ∨ 0xdfff < c.toNat ∧ c.toNat < 0x110000 := c.valid
  unfold units
  split
  · have spells := Spells.unit (n := c.toNat) (by rw [isHigh_iff]; omega)
      (by rw [isLow_iff]; omega)
    rwa [Char.ofNat_toNat] at spells
  · have spells := Spells.surrogates (h := 0xd800 + (c.toNat - 0x10000) / 0x400)
      (l := 0xdc00 + (c.toNat - 0x10000) % 0x400) (by rw [isHigh_iff]; omega)
      (by rw [isLow_iff]; omega)
    have code : 0x10000 + (0xd800 + (c.toNat - 0x10000) / 0x400 - 0xd800) * 0x400
        + (0xdc00 + (c.toNat - 0x10000) % 0x400 - 0xdc00) = c.toNat := by omega
    rwa [code, Char.ofNat_toNat] at spells

end Piece

namespace Lexer

variable {held : List Piece} {tokens : List Token} {cs rest : List Char} {layout : Layout}

theorem step_unit {value digit missing : Nat} {c : Char} (hex : hexDigit? c = some digit) :
    step ⟨.unit held value (missing + 2), tokens⟩ c =
      some ⟨.unit held (value * 16 + digit) (missing + 1), tokens⟩ := by
  simp only [step, hex]
  rfl

theorem step_unit_last {value digit : Nat} {c : Char} (hex : hexDigit? c = some digit) :
    step ⟨.unit held value 1, tokens⟩ c =
      some ⟨.string (.unit (value * 16 + digit) :: held), tokens⟩ := by
  simp only [step, hex]
  rfl

theorem hexDigit?_digitChar : ∀ d < 16, hexDigit? d.digitChar = some d := by decide

/-- A 16-bit unit comes back from its four digits. -/
theorem run_fourDigits {n : Nat} (small : n < 0x10000) :
    run ⟨.string held, tokens⟩ ('\\' :: 'u' :: (fourDigits n ++ cs)) =
      run ⟨.string (.unit n :: held), tokens⟩ cs := by
  have digit (d : Nat) : hexDigit? (Nat.digitChar (d % 16)) = some (d % 16) :=
    hexDigit?_digitChar _ (Nat.mod_lt d (by decide))
  have value : (((0 * 16 + n / 4096 % 16) * 16 + n / 256 % 16) * 16 + n / 16 % 16) * 16 + n % 16
      = n := by omega
  show run ⟨.unit held 0 4, tokens⟩ (fourDigits n ++ cs) = _
  simp only [fourDigits, List.map_cons, List.map_nil, List.cons_append, List.nil_append]
  iterate 3 rw [run_cons (step_unit (digit _))]
  rw [run_cons (step_unit_last (digit n)), value]

theorem run_numbered (c : Char) : run ⟨.string held, tokens⟩ (numbered c.toNat ++ cs) =
    run ⟨.string (((units c.toNat).map Piece.unit).reverse ++ held), tokens⟩ cs := by
  have valid : c.toNat < 0xd800 ∨ 0xdfff < c.toNat ∧ c.toNat < 0x110000 := c.valid
  unfold numbered units
  split
  · simp only [List.flatMap_cons, List.flatMap_nil, List.append_nil, List.cons_append]
    rw [run_fourDigits (by assumption)]
    rfl
  · simp only [List.flatMap_cons, List.flatMap_nil, List.append_nil, List.cons_append,
      List.append_assoc]
    rw [run_fourDigits (by omega), run_fourDigits (by omega)]
    rfl

/-- Each character comes back from the form it has in a literal. -/
theorem run_escapeChar (byNumber : Char → Bool) (c : Char) :
    ∃ pieces, Piece.Spells pieces [c] ∧
      ∀ held tokens cs, run ⟨.string held, tokens⟩ (escapeChar byNumber c ++ cs) =
        run ⟨.string (pieces.reverse ++ held), tokens⟩ cs := by
  unfold escapeChar
  split
  iterate 7 exact ⟨_, .char _, fun _ _ _ => rfl⟩
  rename_i quote backslash _ _ _ _ _
  split
  · exact ⟨_, Piece.spells_units c, fun _ _ _ => run_numbered c⟩
  · rename_i plain
    refine ⟨_, .char c, fun held tokens cs => run_cons ?_⟩
    have printable : ¬ c.toNat < 0x20 := by
      intro small
      simp only [small, decide_true, Bool.true_or, not_true] at plain
    simp only [step, beq_eq_false_iff_ne.2 quote, beq_eq_false_iff_ne.2 backslash, printable,
      Bool.false_eq_true, if_false]
    rfl

/-- The rest of a literal, from a place where the pieces held denote `text`. -/
theorem run_literal (byNumber : Char → Bool) (s : List Char) {text : List Char}
    (spells : Piece.Spells held.reverse text) :
    run ⟨.string held, tokens⟩ (s.foldr (escapeChar byNumber · ++ ·) ('"' :: rest)) =
      Token.after (.string (some (String.ofList (text ++ s))) :: tokens) rest := by
  induction s generalizing held text with
  | nil =>
      refine run_cons ?_
      simp only [step, beq_self_eq_true, if_true, spells.join_eq, List.append_nil]
      rfl
  | cons c s ih =>
      obtain ⟨pieces, character, run⟩ := run_escapeChar byNumber c
      have longer : Piece.Spells (pieces.reverse ++ held).reverse (text ++ [c]) := by
        rw [List.reverse_append, List.reverse_reverse]
        exact spells.append character
      rw [List.foldr_cons, run, ih longer, List.append_assoc]
      rfl

end Lexer

theorem Token.after_string (layout : Layout) (value : Option String) {tokens : List Token}
    {rest : List Char} : after tokens (writeString layout value rest) =
      after (.string value :: tokens) rest := by
  cases value with
  | none => rfl
  | some s =>
      have empty : Piece.Spells [].reverse [] := .nil
      show Lexer.run ⟨.string [], tokens⟩ (s.toList.foldr _ ('"' :: rest)) = _
      rw [Lexer.run_literal layout.byNumber s.toList empty, List.nil_append,
        String.ofList_toList]

end Timeslice.Json
