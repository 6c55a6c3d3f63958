import Timeslice.Json.Basic
import Timeslice.Text.Decimal

/-! # Writing JSON

A value is written either without blanks or over several lines, two blanks to the level. Empty
containers are written closed up in both layouts.
-/

namespace Timeslice.Json

structure Layout where
  /-- What stands before each value of a container, and before its end one level up. -/
  lineBreak : Nat → List Char
  afterColon : List Char
  /-- Characters to give by number although a string may hold them as they are. -/
  byNumber : Char → Bool

def Layout.compact : Layout := ⟨fun _ => [], [], fun _ => false⟩

def Layout.pretty : Layout :=
  ⟨fun depth => '\n' :: List.replicate (2 * depth) ' ', [' '], fun _ => false⟩

/-- The last four hexadecimal digits of `n`, in lower case. -/
def fourDigits (n : Nat) : List Char :=
  [n / 4096, n / 256, n / 16, n].map fun d => Nat.digitChar (d % 16)

/-- The 16-bit units of a code point: itself, or a high and a low surrogate. -/
def units (n : Nat) : List Nat :=
  if n < 0x10000 then [n]
  else [0xd800 + (n - 0x10000) / 0x400, 0xdc00 + (n - 0x10000) % 0x400]

/-- A code point given by number. -/
def numbered (n : Nat) : List Char := (units n).flatMap fun u => '\\' :: 'u' :: fourDigits u

/-- A character as it stands in a string literal. -/
def escapeChar (byNumber : Char → Bool) (c : Char) : List Char :=
  match c with
  | '"' => ['\\', '"']
  | '\\' => ['\\', '\\']
  | '\x08' => ['\\', 'b']
  | '\x0c' => ['\\', 'f']
  | '\n' => ['\\', 'n']
  | '\r' => ['\\', 'r']
  | '\t' => ['\\', 't']
  | c => if c.toNat < 0x20 || byNumber c then numbered c.toNat else [c]

/-- A string literal before `rest`. For a string without a text it is a lone surrogate. -/
def writeString (layout : Layout) (value : Option String) (rest : List Char) : List Char :=
  match value with
  | some s =>
    '"' :: s.toList.foldr (fun c rest => escapeChar layout.byNumber c ++ rest) ('"' :: rest)
  | none => "\"\\ud800\"".toList ++ rest

mutual

/-- The text of a value before `rest`. -/
def write (layout : Layout) (depth : Nat) : Json → List Char → List Char
  | .null, rest => "null".toList ++ rest
  | .bool true, rest => "true".toList ++ rest
  | .bool false, rest => "false".toList ++ rest
  | .int value, rest => (Text.decimal value).toList ++ rest
  | .real literal, rest => literal.toList ++ rest
  | .string value, rest => writeString layout value rest
  | .array [], rest => '[' :: ']' :: rest
  | .array (item :: items), rest =>
    '[' :: (layout.lineBreak (depth + 1) ++ write layout (depth + 1) item
      (writeItems layout depth items rest))
  | .object [], rest => '\x7b' :: '\x7d' :: rest
  | .object ((name, value) :: members), rest =>
    '\x7b' :: (layout.lineBreak (depth + 1) ++ writeString layout name
      (':' :: (layout.afterColon ++ write layout (depth + 1) value
        (writeMembers layout depth members rest))))

/-- The items after the first, and the end of their array. -/
def writeItems (layout : Layout) (depth : Nat) : List Json → List Char → List Char
  | [], rest => layout.lineBreak depth ++ ']' :: rest
  | item :: items, rest =>
    ',' :: (layout.lineBreak (depth + 1) ++ write layout (depth + 1) item
      (writeItems layout depth items rest))

/-- The members after the first, and the end of their object. -/
def writeMembers (layout : Layout) (depth : Nat) :
    List (Option String × Json) → List Char → List Char
  | [], rest => layout.lineBreak depth ++ '\x7d' :: rest
  | (name, value) :: members, rest =>
    ',' :: (layout.lineBreak (depth + 1) ++ writeString layout name
      (':' :: (layout.afterColon ++ write layout (depth + 1) value
        (writeMembers layout depth members rest))))

end

def render (layout : Layout) (value : Json) : String := String.ofList (write layout 0 value [])

def compact (value : Json) : String := render .compact value

def pretty (value : Json) : String := render .pretty value

end Timeslice.Json
