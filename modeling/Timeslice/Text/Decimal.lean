import Timeslice.Word

/-! # Decimal integers

Integers are written in decimal with a minus sign where negative. They are read from an optional
sign and at least one ASCII digit; leading zeros are allowed and nothing else is.
-/

namespace Timeslice.Text

/-- The decimal text of an integer. -/
def decimal (i : Int) : String :=
  if i < 0 then "-" ++ Nat.repr i.natAbs else Nat.repr i.natAbs

/-- The value of one or more ASCII digits. -/
def digits? (cs : List Char) : Option Nat :=
  if cs.isEmpty then none
  else if cs.all Char.isDigit then some (Nat.ofDigitChars 10 cs 0)
  else none

/-- An integer that may carry either sign. -/
def signed? : List Char → Option Int
  | '+' :: cs => (digits? cs).map Int.ofNat
  | '-' :: cs => (digits? cs).map fun n => -(n : Int)
  | cs => (digits? cs).map Int.ofNat

/-- A natural number, which may carry a plus sign but no minus sign. -/
def unsigned? : List Char → Option Nat
  | '+' :: cs => digits? cs
  | cs => digits? cs

/-- An integer in `lo..hi`. -/
def signedIn? (lo hi : Int) (cs : List Char) : Option Int :=
  (signed? cs).filter fun i => lo ≤ i && i ≤ hi

/-- A natural number up to `hi`. -/
def unsignedIn? (hi : Nat) (cs : List Char) : Option Nat :=
  (unsigned? cs).filter fun n => n ≤ hi

/-- A 32-bit integer. -/
def int32? (cs : List Char) : Option Int32 :=
  (signedIn? Word.least32 Word.largest32 cs).map Int32.ofInt

theorem digits?_toDigits (n : Nat) : digits? (Nat.toDigits 10 n) = some n := by
  have nonempty : (Nat.toDigits 10 n).isEmpty = false := by
    cases h : Nat.toDigits 10 n with
    | nil =>
      have := (Nat.length_toDigits_le_iff (b := 10) (n := n) (k := 1) (by decide) (by decide)).1
      simp [h] at this
      have bad : Nat.toDigits 10 n ≠ [] := by
        rw [Nat.toDigits_of_lt_base this]
        simp
      exact (bad h).elim
    | cons c cs => rfl
  have digit : (Nat.toDigits 10 n).all Char.isDigit = true :=
    List.all_eq_true.2 fun _ h => Nat.isDigit_of_mem_toDigits (by decide) (by decide) h
  simp [digits?, nonempty, digit, Nat.ofDigitChars_toDigits]

theorem unsigned?_toDigits (n : Nat) : unsigned? (Nat.toDigits 10 n) = some n := by
  have plus : ∀ cs, Nat.toDigits 10 n ≠ '+' :: cs := by
    intro cs h
    have := Nat.isDigit_of_mem_toDigits (b := 10) (n := n) (c := '+') (by decide) (by decide)
      (by simp [h])
    simp at this
  rw [← digits?_toDigits n]
  unfold unsigned?
  split
  · exact (plus _ ‹_›).elim
  · rfl

end Timeslice.Text
