/-! # Blank characters and lines

`isBlank` is the Unicode property `White_Space`, 25 characters in all. Trimming and splitting into
fields go by it. Lines end at a newline alone, and a carriage return just before the newline
belongs to the line's end.
-/

namespace Timeslice.Text

/-- The Unicode property `White_Space`. -/
def isBlank (c : Char) : Bool :=
  let n := c.toNat
  (0x09 ≤ n && n ≤ 0x0d) || n == 0x20 || n == 0x85 || n == 0xa0 || n == 0x1680 ||
    (0x2000 ≤ n && n ≤ 0x200a) || n == 0x2028 || n == 0x2029 || n == 0x202f ||
    n == 0x205f || n == 0x3000

def trimStart (cs : List Char) : List Char := cs.dropWhile isBlank

def trimEnd (cs : List Char) : List Char := (cs.reverse.dropWhile isBlank).reverse

def trim (cs : List Char) : List Char := trimEnd (trimStart cs)

/-- The maximal runs of characters that are not blank. -/
def fields (cs : List Char) : List (List Char) :=
  (cs.splitOnP isBlank).filter (! ·.isEmpty)

/-- The lines of a text, without their ends. A final newline starts no further line. -/
def lines : List Char → List (List Char)
  | [] => []
  | '\n' :: cs => [] :: lines cs
  | '\r' :: '\n' :: cs => [] :: lines cs
  | c :: cs =>
    match lines cs with
    | [] => [[c]]
    | line :: rest => (c :: line) :: rest

end Timeslice.Text
