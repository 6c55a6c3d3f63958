import Timeslice.Text.Hidden

/-! # Quoted text

A text between double quotes. Quotes and backslashes are escaped, the four control characters with
a name of their own are written by it, and every other hidden character by its number.
-/

namespace Timeslice.Text

/-- The digits of `n` in base sixteen, in lower case. -/
def hexadecimal (n : Nat) : String := String.ofList (Nat.toDigits 16 n)

def quoteChar (c : Char) : String :=
  match c with
  | '\x00' => "\\0"
  | '\t' => "\\t"
  | '\r' => "\\r"
  | '\n' => "\\n"
  | '"' => "\\\""
  | '\\' => "\\\\"
  | c =>
    if isHidden c then "\\u\x7b" ++ hexadecimal c.toNat ++ "\x7d" else String.singleton c

def quoted (s : String) : String :=
  "\"" ++ String.join (s.toList.map quoteChar) ++ "\""

end Timeslice.Text
