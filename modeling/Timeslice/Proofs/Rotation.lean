import Mathlib.Order.Interval.Finset.Nat
import Timeslice.Proofs.Json.Documents

/-! # Durations in turn

The next duration of a rotation `offset` places on leaves the rotation `offset + 1` places on, also
where the offset is no word any more. So each duration has a closed form, and as many as the range
has are one of each. The arithmetic of a duration is never cut off: the place of a rotation is less
than the number of durations, and only the range of all words has more of them than a word counts.
-/

namespace Timeslice

namespace BlockRange

variable {range : BlockRange}

def low (range : BlockRange) : Nat := Min.min range.min range.max

def high (range : BlockRange) : Nat := Max.max range.min range.max

/-- How many durations are dealt out: as many as there are, and no more than a word counts. -/
def span (range : BlockRange) : Nat := Min.min (range.high - range.low + 1) Word.limit

def IsFull (range : BlockRange) : Prop := range.low = 0 ∧ range.high = Word.limit

theorem low_le_high (range : BlockRange) : range.low ≤ range.high :=
  (Nat.min_le_left _ _).trans (Nat.le_max_left _ _)

theorem low_add_le_high {place : Nat} (inside : place < range.span) :
    range.low + place ≤ range.high := by
  have ordered := range.low_le_high
  have fewer : range.span ≤ range.high - range.low + 1 := Nat.min_le_left _ _
  omega

namespace Fits

theorem high_le_limit (fits : range.Fits) : range.high ≤ Word.limit :=
  Nat.max_le.2 ⟨fits.min, fits.max⟩

/-- Only the range of all words has more durations than a word counts. -/
theorem limit_lt_iff_isFull (fits : range.Fits) :
    Word.limit < range.high - range.low + 1 ↔ range.IsFull := by
  have high := fits.high_le_limit
  simp only [IsFull, Word.limit] at *
  omega

theorem low_add_span (fits : range.Fits) (proper : ¬ range.IsFull) :
    range.low + range.span = range.high + 1 := by
  have ordered := range.low_le_high
  have counted : range.high - range.low + 1 ≤ Word.limit :=
    Nat.not_lt.1 fun more => proper (fits.limit_lt_iff_isFull.1 more)
  rw [span, Nat.min_eq_left counted]
  omega

end Fits

end BlockRange

namespace Rotation

def after : Rotation → Nat → Rotation
  | rotation, 0 => rotation
  | rotation, count + 1 => after rotation.next.2 count

/-- The next duration by arithmetic that gives nothing where a word does not hold the result. -/
def next? (rotation : Rotation) : Option (Nat × Rotation) := do
  let duration ← Word.sum? rotation.low rotation.position
  let following ← Word.sum? rotation.position 1
  let position ← Word.remainder? following rotation.span
  return (duration, { rotation with position })

theorem of_eq (range : BlockRange) (offset : Nat) :
    of range offset = ⟨range.low, range.span, offset % range.span⟩ := rfl

/-- As many numbers in a row as there are remainders have one of each. -/
theorem perm_map_mod (start count : Nat) :
    ((List.range' start count).map (· % count)).Perm (List.range count) := by
  have interval : Multiset.Ico start (start + count) = ↑(List.range' start count) := by
    show (↑(List.range' start (start + count - start)) : Multiset Nat) = _
    rw [Nat.add_sub_cancel_left]
  have same := Nat.multiset_Ico_map_mod start count
  rw [interval] at same
  exact Multiset.coe_eq_coe.1 same

section Turns

variable {range : BlockRange} (fits : range.Fits) (offset : Nat)

include fits

/-! ## One duration -/

theorem next_of :
    (of range offset).next = (range.low + offset % range.span, of range (offset + 1)) := by
  have inside : offset % range.span < range.span := position_of_lt range offset
  have duration := (BlockRange.low_add_le_high inside).trans fits.high_le_limit
  rw [of_eq, of_eq, next, Word.add_of_le duration, Nat.mod_add_mod]

theorem next?_of : (of range offset).next? = some (of range offset).next := by
  have inside : offset % range.span < range.span := position_of_lt range offset
  have duration := (BlockRange.low_add_le_high inside).trans fits.high_le_limit
  have following : offset % range.span + 1 ≤ Word.limit :=
    Nat.le_trans inside (Nat.min_le_right _ _)
  rw [of_eq, next?, next, Word.sum?_of_le duration, Word.sum?_of_le following,
    Word.add_of_le duration]
  simp only [bind, Option.bind, Word.remainder?_of_pos (Nat.zero_lt_of_lt inside)]
  rfl

/-! ## Durations in a row -/

theorem after_of (count : Nat) : (of range offset).after count = of range (offset + count) := by
  induction count generalizing offset with
  | zero => rfl
  | succ count ih => rw [after, next_of fits, ih, Nat.add_right_comm, Nat.add_assoc]

theorem take_of (count : Nat) :
    (of range offset).take count =
      (List.range' offset count).map fun place => range.low + place % range.span := by
  induction count generalizing offset with
  | zero => rfl
  | succ count ih => rw [take, next_of fits, ih, List.range'_succ, List.map_cons]

theorem perm_take_of :
    ((of range offset).take range.span).Perm (List.range' range.low range.span) := by
  have split : (of range offset).take range.span =
      ((List.range' offset range.span).map (· % range.span)).map (range.low + ·) := by
    rw [take_of fits, List.map_map]
    rfl
  rw [split, @List.range'_eq_map_range range.low]
  exact (perm_map_mod offset range.span).map _

/-- Unless the range is that of all words, as many durations as it has are one of each. -/
theorem count_take_of (proper : ¬ range.IsFull) (value : Nat) :
    ((of range offset).take range.span).count value =
      if range.low ≤ value ∧ value ≤ range.high then 1 else 0 := by
  have whole := fits.low_add_span proper
  have dealt : value ∈ List.range' range.low range.span ↔
      range.low ≤ value ∧ value ≤ range.high := by
    rw [List.mem_range'_1, whole, Nat.lt_succ_iff]
  rw [(perm_take_of fits offset).count_eq, (List.nodup_range' 1).count]
  exact if_congr dealt rfl rfl

/-- Whichever way round its range of words is given and however many places on it starts, a rotation
deals out the durations from the least one on, one place further each time, and starts again after
the last. All of them are in the range, and no sum is cut off and no remainder is by zero, except
that the number of durations is where the range is that of all words. For any other range, as many
durations in a row as it has are each of them once. -/
theorem durations_in_turn :
    let start := of range offset
    (∀ k, (start.after k).next.1 = range.low + (offset + k) % range.span ∧
      range.low ≤ (start.after k).next.1 ∧ (start.after k).next.1 ≤ range.high ∧
      (start.after k).next? = some (start.after k).next) ∧
    (range.low ≤ range.high ∧ start.span = range.span ∧ 0 < range.span ∧
      (Word.sum? (range.high - range.low) 1 = none ↔ range.IsFull)) ∧
    (¬ range.IsFull → ∀ k value, ((start.after k).take range.span).count value =
      if range.low ≤ value ∧ value ≤ range.high then 1 else 0) := by
  intro start
  have further (k : Nat) : start.after k = of range (offset + k) := after_of fits offset k
  refine ⟨fun k => ?_, ⟨range.low_le_high, rfl, span_of_pos range offset, ?_⟩,
    fun proper k value => ?_⟩
  · have inside : (offset + k) % range.span < range.span := position_of_lt range (offset + k)
    rw [further, next?_of fits, next_of fits]
    exact ⟨rfl, Nat.le_add_right _ _, BlockRange.low_add_le_high inside, rfl⟩
  · rw [Word.sum?_eq_none_iff, fits.limit_lt_iff_isFull]
  · rw [further]
    exact count_take_of fits (offset + k) proper value

end Turns

/-- The three largest words the other way round, from an offset that is the largest word itself, and
the range of all words, which never comes to the largest. -/
theorem durations_in_turn_largest :
    let range : BlockRange := ⟨Word.limit, Word.limit - 2⟩
    let start := of range Word.limit
    let full := of ⟨Word.limit, 0⟩ (Word.limit - 1)
    range.Fits ∧ (start.after 1).next.1 = Word.limit - 1 ∧
      (start.after 2).next? = some (Word.limit, start.after 3) ∧
      (∀ k, ((start.after k).take 3).count Word.limit = 1) ∧
      full.next.1 = Word.limit - 1 ∧ (full.after 1).next.1 = 0 := by
  intro range start full
  have fits : range.Fits := ⟨by decide, by decide⟩
  have all : BlockRange.Fits ⟨Word.limit, 0⟩ := ⟨by decide, by decide⟩
  have proper : ¬ range.IsFull := fun full => absurd full.1 (by decide)
  have three : range.span = 3 := by decide
  obtain ⟨turns, -, once⟩ := durations_in_turn fits Word.limit
  obtain ⟨whole, -, -⟩ := durations_in_turn all (Word.limit - 1)
  refine ⟨fits, ?_, ?_, fun k => ?_, ?_, ?_⟩
  · rw [(turns 1).1]
    decide
  · rw [(turns 2).2.2.2]
    decide
  · rw [← three, once proper k]
    decide
  · rw [show full = full.after 0 from rfl, (whole 0).1]
    decide
  · rw [(whole 1).1]
    decide

end Rotation

end Timeslice
