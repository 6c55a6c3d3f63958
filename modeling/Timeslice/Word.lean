/-! # Words

Ids, ticks and counters are natural numbers of at most 64 bits. Where a sum would not fit, it
stays at the largest word. `sum?` and `remainder?` are the arithmetic that gives nothing where a
word does not hold the result, or there is none.
-/

namespace Timeslice.Word

/-- The largest 64-bit word. -/
def limit : Nat := 0xffffffffffffffff

/-- The largest 32-bit word. -/
def limit32 : Nat := 0xffffffff

/-- The least signed 32-bit word. -/
def least32 : Int := -0x80000000

/-- The largest signed 32-bit word. -/
def largest32 : Int := 0x7fffffff

/-- The least signed 64-bit word. -/
def least64 : Int := -0x8000000000000000

/-- The largest signed 64-bit word. -/
def largest64 : Int := 0x7fffffffffffffff

/-- The sum, or the largest word if the sum does not fit. -/
def add (a b : Nat) : Nat := min (a + b) limit

theorem add_le_limit (a b : Nat) : add a b ≤ limit := Nat.min_le_right _ _

theorem add_of_le {a b : Nat} (h : a + b ≤ limit) : add a b = a + b := Nat.min_eq_left h

/-- The sum, if it fits. -/
def sum? (a b : Nat) : Option Nat := if a + b ≤ limit then some (a + b) else none

/-- The remainder, if `b` is not zero. -/
def remainder? (a b : Nat) : Option Nat := if b = 0 then none else some (a % b)

theorem sum?_of_le {a b : Nat} (h : a + b ≤ limit) : sum? a b = some (a + b) := if_pos h

theorem sum?_eq_none_iff {a b : Nat} : sum? a b = none ↔ limit < a + b := by
  rw [sum?, ite_eq_right_iff, ← Nat.not_le]
  exact ⟨fun absent fits => Option.some_ne_none _ (absent fits),
    fun large fits => (large fits).elim⟩

theorem remainder?_of_pos {a b : Nat} (h : 0 < b) : remainder? a b = some (a % b) :=
  if_neg (Nat.ne_of_gt h)

end Timeslice.Word
