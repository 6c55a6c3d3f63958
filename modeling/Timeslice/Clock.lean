import Timeslice.Word

/-! # The clock

Time is counted in ticks from 0, moves only when told to, and stays at the largest word once it
is there.
-/

namespace Timeslice

structure Clock where
  ticks : Nat
  deriving DecidableEq

namespace Clock

def zero : Clock := ⟨0⟩

def advance (clock : Clock) (ticks : Nat) : Clock := ⟨Word.add clock.ticks ticks⟩

def tick (clock : Clock) : Clock := clock.advance 1

end Clock

end Timeslice
