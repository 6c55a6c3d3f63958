import Timeslice.Machine.Instruction
import Timeslice.Proofs.Text.Decimal
import Timeslice.Proofs.Text.Upper

/-! # Instructions printed and decoded again

An instruction is printed as its mnemonic and the text of its operand, and what is printed decodes
to it again. The one exception is a numeric syscall code: it is written without a hash sign and
printed with one, and a code with a hash sign is no number.
-/

namespace Timeslice

open Text (IsField)

namespace Operand

def printed? (operand : Operand) : Option String :=
  if operand = missing then none else some operand.text

/-- What a syscall code becomes when it is printed and decoded again. -/
def misread : Operand → Operand
  | immediate value => malformed (immediate value).text
  | operand => operand

theorem toList_text_immediate (value : Int32) :
    (immediate value).text.toList = '#' :: (Text.decimal value.toInt).toList := by
  rw [text, String.toList_append]
  rfl

theorem isField_immediate (value : Int32) : IsField (immediate value).text.toList := by
  rw [toList_text_immediate]
  refine ⟨List.cons_ne_nil _ _, fun c member => ?_⟩
  rcases List.mem_cons.1 member with rfl | digit
  · decide
  · exact (Text.isField_decimal _).solid c digit

theorem ofField_immediate (value : Int32) :
    ofField (some (immediate value).text) = immediate value := by
  simp only [ofField, toList_text_immediate, Text.int32?_decimal]

/-- A code with a hash sign is not a number. -/
theorem codeOfField_immediate (value : Int32) :
    codeOfField (some (immediate value).text) = malformed (immediate value).text := by
  have hash : Text.int32? ('#' :: (Text.decimal value.toInt).toList) = none := rfl
  simp only [codeOfField, toList_text_immediate, hash]

/-- An operand is a number or missing, or it keeps the text of the field that it is decoded from. -/
theorem ofField_cases (field : Option String) :
    (∃ value, ofField field = immediate value) ∨ (ofField field).printed? = field := by
  unfold ofField
  split
  · exact .inr rfl
  · split
    · split
      · exact .inl ⟨_, rfl⟩
      · exact .inr rfl
    · exact .inr rfl

theorem codeOfField_cases (field : Option String) :
    (∃ value, codeOfField field = immediate value) ∨ (codeOfField field).printed? = field := by
  unfold codeOfField
  split
  · exact .inr rfl
  · split
    · exact .inl ⟨_, rfl⟩
    · exact .inr rfl

theorem ofField_printed? (field : Option String) :
    ofField (ofField field).printed? = ofField field := by
  rcases ofField_cases field with ⟨value, number⟩ | kept
  · rw [number]
    exact ofField_immediate value
  · rw [kept]

theorem codeOfField_printed? (field : Option String) :
    codeOfField (codeOfField field).printed? = (codeOfField field).misread := by
  rcases codeOfField_cases field with ⟨value, number⟩ | kept
  · rw [number]
    exact codeOfField_immediate value
  · cases shape : codeOfField field with
    | immediate value => exact codeOfField_immediate value
    | direct _ | malformed _ | missing =>
        rw [← shape, kept, shape]
        rfl

theorem printed?_misread (operand : Operand) : operand.misread.printed? = operand.printed? := by
  cases operand <;> rfl

end Operand

namespace Instruction

def reread : Instruction → Instruction
  | syscall code => syscall code.misread
  | i => i

variable {opcode : String} {field : Option String}

theorem mnemonic_ofFields (opcode : String) (field : Option String) :
    (ofFields opcode field).mnemonic = opcode := by
  unfold ofFields
  split <;> rfl

theorem ofFields_argument? (opcode : String) (field : Option String) :
    ofFields opcode (ofFields opcode field).argument? = (ofFields opcode field).reread := by
  unfold ofFields
  split
  -- The six opcodes with an operand, then SYSCALL. Branches and unknown opcodes keep theirs.
  case h_1 | h_2 | h_3 | h_4 | h_5 | h_6 =>
    exact congrArg _ (Operand.ofField_printed? field)
  case h_11 => exact congrArg syscall (Operand.codeOfField_printed? field)
  all_goals rfl

theorem printed_syscall (code : Operand) : (syscall code).argument? = code.printed? := rfl

theorem text_reread (i : Instruction) : i.reread.text = i.text := by
  cases i with
  | syscall code =>
      simp only [text, reread, printed_syscall, code.printed?_misread]
      rfl
  | arithmetic _ _ | load _ | store _ | branch _ _ | unknown _ => rfl

theorem reread_eq_iff (i : Instruction) :
    i.reread = i ↔ ∀ value, i ≠ syscall (.immediate value) := by
  cases i with
  | syscall code => cases code <;> simp [reread, Operand.misread]
  | arithmetic _ _ | load _ | store _ | branch _ _ | unknown _ => simp [reread]

/-- What is printed after the mnemonic is one field. -/
theorem isField_argument {word : String} (whole : ∀ w ∈ field, IsField w.toList)
    (printed : (ofFields opcode field).argument? = some word) : IsField word.toList := by
  have operand (decoder : Option String → Operand)
      (cases : (∃ value, decoder field = .immediate value) ∨ (decoder field).printed? = field)
      (printed : (decoder field).printed? = some word) : IsField word.toList := by
    rcases cases with ⟨value, number⟩ | kept
    · rw [number] at printed
      cases printed
      exact Operand.isField_immediate value
    · exact whole word (kept.symm.trans printed)
  unfold ofFields at printed
  split at printed
  case h_1 | h_2 | h_3 | h_4 | h_5 | h_6 =>
    exact operand .ofField (Operand.ofField_cases field) printed
  case h_7 | h_8 | h_9 | h_10 => exact whole word printed
  case h_11 => exact operand .codeOfField (Operand.codeOfField_cases field) printed
  case h_12 => cases printed

/-- The mnemonic and the argument are the first two fields of an instruction's text. -/
theorem decode_text_eq {i : Instruction} (opcode : IsField i.mnemonic.toList)
    (capital : Text.upper i.mnemonic.toList = i.mnemonic.toList)
    (argument : ∀ word, i.argument? = some word → IsField word.toList) :
    decode i.text.toList = ofFields i.mnemonic i.argument? := by
  cases printed : i.argument? with
  | none =>
      have fields : Text.fields i.text.toList = [i.mnemonic.toList] := by
        simp only [text, printed]
        exact opcode.fields
      simp only [decode, fields, capital, String.ofList_toList, List.head?_nil, Option.map_none]
  | some word =>
      have fields : Text.fields i.text.toList = [i.mnemonic.toList, word.toList] := by
        simp only [text, printed, String.toList_append]
        have second := (argument word printed).fields
        rw [Text.fields_gap _ _ (by decide) (by decide), opcode.fields, second]
        rfl
      simp only [decode, fields, capital, String.ofList_toList, List.head?_cons, Option.map_some]

/-- What decoding passes on are two fields, the first of them in upper case. -/
theorem decode_cases (text : List Char) :
    decode text = unknown "" ∨ ∃ opcode field, decode text = ofFields opcode field ∧
      IsField opcode.toList ∧ Text.upper opcode.toList = opcode.toList ∧
      ∀ word ∈ field, IsField word.toList := by
  unfold decode
  split
  · exact .inl rfl
  · rename_i first rest split
    have each : ∀ word ∈ first :: rest, IsField word := fun word member =>
      Text.isField_of_mem (split ▸ member)
    refine .inr ⟨_, _, rfl, ?_, ?_, fun word second => ?_⟩
    · rw [String.toList_ofList]
      exact (each first List.mem_cons_self).upper
    · rw [String.toList_ofList, Text.upper_upper]
    · obtain ⟨raw, head, rfl⟩ := Option.map_eq_some_iff.1 second
      rw [String.toList_ofList]
      exact each raw (List.mem_cons_of_mem first (List.mem_of_mem_head? head))

/-- A printed instruction decodes to itself, and only a numeric syscall code does not come back.
What comes back is printed as before. -/
theorem decode_printed (text : List Char) :
    let i := decode text
    let again := decode i.text.toList
    again = i.reread ∧ again.text = i.text ∧
      (again = i ↔ ∀ value, i ≠ syscall (.immediate value)) := by
  intro i again
  have same : again = i.reread := by
    show decode (decode text).text.toList = (decode text).reread
    rcases decode_cases text with empty | ⟨opcode, field, shape, word, capital, whole⟩
    · rw [empty]
      rfl
    · have mnemonic := mnemonic_ofFields opcode field
      rw [shape, ← ofFields_argument?, decode_text_eq, mnemonic]
      · rwa [mnemonic]
      · rwa [mnemonic]
      · exact fun argument printed => isField_argument whole printed
  exact ⟨same, same ▸ i.text_reread, same ▸ i.reread_eq_iff⟩

theorem syscall_code_reread :
    decode (decode "SYSCALL 1".toList).text.toList ≠ decode "SYSCALL 1".toList := by
  decide

end Instruction

end Timeslice
