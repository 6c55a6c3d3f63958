import Timeslice.Proofs.Text.Blank
import Timeslice.Text.Decimal

/-! # Decimal integers read back -/

namespace Timeslice.Text

theorem isDigit_toDigits (n : Nat) : ∀ c ∈ Nat.toDigits 10 n, c.isDigit = true :=
  fun _ member => Nat.isDigit_of_mem_toDigits (by decide) (by decide) member

theorem toList_decimal (i : Int) : (decimal i).toList =
    (if i < 0 then ['-'] else []) ++ Nat.toDigits 10 i.natAbs := by
  unfold decimal
  split
  · rw [String.toList_append, Nat.toList_repr]
    rfl
  · rw [Nat.toList_repr]
    rfl

theorem mem_decimal {i : Int} {c : Char} (member : c ∈ (decimal i).toList) :
    c.isDigit ∨ c = '-' := by
  rw [toList_decimal] at member
  rcases List.mem_append.1 member with sign | digit
  · split at sign
    · exact .inr (List.mem_singleton.1 sign)
    · exact (List.not_mem_nil sign).elim
  · exact .inl (isDigit_toDigits _ c digit)

theorem not_isBlank_of_isDigit {c : Char} (digit : c.isDigit) : ¬ isBlank c := by
  simp only [Char.isDigit, Bool.and_eq_true, decide_eq_true_eq] at digit
  have low : 48 ≤ c.toNat := UInt32.le_iff_toNat_le.1 digit.1
  have high : c.toNat ≤ 57 := UInt32.le_iff_toNat_le.1 digit.2
  intro blank
  have := toNat_of_isBlank blank
  omega

theorem isField_decimal (i : Int) : IsField (decimal i).toList := by
  refine ⟨?_, fun c member => ?_⟩
  · rw [toList_decimal]
    simp
  · rcases mem_decimal member with digit | rfl
    · exact not_isBlank_of_isDigit digit
    · decide

/-- No digit is a sign, so digits are read as they stand. -/
theorem signed?_toDigits (n : Nat) : signed? (Nat.toDigits 10 n) = some (n : Int) := by
  have digits := isDigit_toDigits n
  unfold signed?
  split
  · rename_i signed
    exact absurd (digits '+' (signed ▸ List.mem_cons_self)) (by decide)
  · rename_i signed
    exact absurd (digits '-' (signed ▸ List.mem_cons_self)) (by decide)
  · rw [digits?_toDigits]
    rfl

theorem signed?_decimal (i : Int) : signed? (decimal i).toList = some i := by
  rw [toList_decimal]
  split
  · have value : -(i.natAbs : Int) = i := by omega
    simp only [List.singleton_append, signed?, digits?_toDigits]
    exact congrArg some value
  · have value : (i.natAbs : Int) = i := by omega
    rw [List.nil_append, signed?_toDigits, value]

theorem int32?_decimal (v : Int32) : int32? (decimal v.toInt).toList = some v := by
  have low : Word.least32 ≤ v.toInt := v.le_toInt
  have high : v.toInt ≤ Word.largest32 := Int.le_of_lt_add_one v.toInt_lt
  simp only [int32?, signedIn?, signed?_decimal, Option.filter_some, low, high, decide_true,
    Bool.and_self, if_true, Option.map_some, Int32.ofInt_toInt]

end Timeslice.Text
