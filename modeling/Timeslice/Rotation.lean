import Timeslice.Json.Codec

/-! # Rotations

A rotation deals out the durations of a closed range in turn and starts again after the last. The
ends of the range may be given in either order.
-/

namespace Timeslice

/-- A closed range of durations, by its ends. -/
structure BlockRange where
  min : Nat
  max : Nat
  deriving DecidableEq

namespace BlockRange

def standard : BlockRange := ⟨3, 5⟩

def codec : Codec BlockRange where
  encode range := .record [
    ("min", Codec.word.encode range.min), ("max", Codec.word.encode range.max)]
  decode json := do
    let record ← Record.of? ["min", "max"] json
    return { min := ← record.required "min" .word, max := ← record.required "max" .word }

end BlockRange

/-- The least duration, how many there are, and how far the next one is from the least. -/
structure Rotation where
  low : Nat
  span : Nat
  position : Nat
  deriving DecidableEq

namespace Rotation

/-- The rotation over a range, `offset` places on from the low end. The number of durations is a
word, so the full range of words has one too few. -/
def of (range : BlockRange) (offset : Nat) : Rotation :=
  let low := Min.min range.min range.max
  let high := Max.max range.min range.max
  let span := Word.add (high - low) 1
  ⟨low, span, offset % span⟩

def standard : Rotation := of .standard 0

/-- The next duration, and the rotation after it. -/
def next (rotation : Rotation) : Nat × Rotation :=
  (Word.add rotation.low rotation.position,
    { rotation with position := (rotation.position + 1) % rotation.span })

/-- The next `count` durations. -/
def take : Nat → Rotation → List Nat
  | 0, _ => []
  | count + 1, rotation => rotation.next.1 :: take count rotation.next.2

theorem span_of_pos (range : BlockRange) (offset : Nat) : 0 < (of range offset).span := by
  simp only [of, Word.add, Word.limit]
  omega

theorem position_of_lt (range : BlockRange) (offset : Nat) :
    (of range offset).position < (of range offset).span :=
  Nat.mod_lt _ (span_of_pos range offset)

end Rotation

end Timeslice
