/-! # Columns

Padding to a width counts characters and never cuts. Where both sides are padded, the odd blank
goes to the right.
-/

namespace Timeslice.Text

def blanks (n : Nat) : String := String.ofList (List.replicate n ' ')

/-- Flush left in `width` columns. -/
def padRight (width : Nat) (s : String) : String := s ++ blanks (width - s.length)

/-- Flush right in `width` columns. -/
def padLeft (width : Nat) (s : String) : String := blanks (width - s.length) ++ s

/-- In the middle of `width` columns. -/
def centre (width : Nat) (s : String) : String :=
  let gap := width - s.length
  blanks (gap / 2) ++ s ++ blanks (gap - gap / 2)

/-- The first `n` characters. -/
def truncate (n : Nat) (s : String) : String := String.ofList (s.toList.take n)

end Timeslice.Text
