/-! # JSON tokens

The lexer reads one character at a time. Between tokens stand the four blanks of the grammar.
Words and numbers extend as far as their alphabets reach and are judged when they end. Inside a
string every character from the blank on stands for itself, the quote and the backslash apart.
-/

namespace Timeslice.Json

inductive Token where
  | openArray
  | closeArray
  | openObject
  | closeObject
  | comma
  | colon
  | null
  | bool (value : Bool)
  | int (value : Int)
  | real (literal : String)
  | string (value : Option String)
  deriving DecidableEq

/-- What a string literal is made of: characters, and 16-bit units given by number. -/
inductive Piece where
  | char (c : Char)
  | unit (n : Nat)

namespace Piece

def isHigh (n : Nat) : Bool := 0xd800 ≤ n && n ≤ 0xdbff

def isLow (n : Nat) : Bool := 0xdc00 ≤ n && n ≤ 0xdfff

/-- The characters that the pieces denote. Each high surrogate must stand just before a low one,
and each low one just after a high one. -/
def join : List Piece → Option (List Char)
  | [] => some []
  | .char c :: rest => (join rest).map (c :: ·)
  | .unit high :: .unit low :: rest =>
    if isHigh high then
      if isLow low then
        (join rest).map (Char.ofNat (0x10000 + (high - 0xd800) * 0x400 + (low - 0xdc00)) :: ·)
      else none
    else if isLow high then none
    else (join (.unit low :: rest)).map (Char.ofNat high :: ·)
  | .unit n :: rest =>
    if isHigh n || isLow n then none else (join rest).map (Char.ofNat n :: ·)

end Piece

/-! ## Numbers and words -/

/-- What may follow the integer part: a fraction, an exponent, both or neither. -/
def isTail (cs : List Char) : Bool :=
  let exponent : List Char → Bool
    | [] => true
    | e :: cs =>
      (e == 'e' || e == 'E') &&
        match cs with
        | sign :: digits =>
          if sign == '+' || sign == '-' then !digits.isEmpty && digits.all Char.isDigit
          else cs.all Char.isDigit
        | [] => false
  match cs with
  | '.' :: cs => !(cs.takeWhile Char.isDigit).isEmpty && exponent (cs.dropWhile Char.isDigit)
  | cs => exponent cs

/-- The token of a number's literal. The integer part has no leading zero. -/
def numeral? (literal : List Char) : Option Token :=
  let negative := literal.head? == some '-'
  let unsigned := if negative then literal.drop 1 else literal
  let whole := unsigned.takeWhile Char.isDigit
  let tail := unsigned.dropWhile Char.isDigit
  if whole.isEmpty || (whole.head? == some '0' && whole.length != 1) || !isTail tail then none
  else
    let magnitude := Nat.ofDigitChars 10 whole 0
    if tail.isEmpty && !(negative && magnitude == 0) then
      some (.int (if negative then -(magnitude : Int) else magnitude))
    else some (.real (String.ofList literal))

def word? (letters : List Char) : Option Token :=
  match String.ofList letters with
  | "null" => some .null
  | "true" => some (.bool true)
  | "false" => some (.bool false)
  | _ => none

/-! ## The lexer -/

/-- Where the lexer stands. Characters and pieces read so far are held last first. -/
inductive Mode where
  | between
  | word (letters : List Char)
  | number (literal : List Char)
  | string (pieces : List Piece)
  | escape (pieces : List Piece)
  /-- Inside `\u`, with the value read so far and the number of digits still missing. -/
  | unit (pieces : List Piece) (value missing : Nat)

/-- The tokens read so far, last first, and where the lexer stands. -/
structure Lexer where
  mode : Mode
  tokens : List Token

namespace Lexer

def start : Lexer := ⟨.between, []⟩

def isBlank (c : Char) : Bool := c == ' ' || c == '\t' || c == '\n' || c == '\r'

def isLetter (c : Char) : Bool := 'a' ≤ c && c ≤ 'z'

def inNumber (c : Char) : Bool :=
  c.isDigit || c == '-' || c == '+' || c == '.' || c == 'e' || c == 'E'

def emit (tokens : List Token) (token : Token) : Lexer := ⟨.between, token :: tokens⟩

/-- The value of a hexadecimal digit in either case. -/
def hexDigit? (c : Char) : Option Nat :=
  if '0' ≤ c && c ≤ '9' then some (c.toNat - '0'.toNat)
  else if 'a' ≤ c && c ≤ 'f' then some (c.toNat - 'a'.toNat + 10)
  else if 'A' ≤ c && c ≤ 'F' then some (c.toNat - 'A'.toNat + 10)
  else none

/-- The character that a one-letter escape stands for. -/
def escaped? : Char → Option Char
  | '"' => some '"'
  | '\\' => some '\\'
  | '/' => some '/'
  | 'b' => some '\x08'
  | 'f' => some '\x0c'
  | 'n' => some '\n'
  | 'r' => some '\r'
  | 't' => some '\t'
  | _ => none

/-- Reads a character that no token under way claims. -/
def begin (tokens : List Token) (c : Char) : Option Lexer :=
  match c with
  | '[' => some (emit tokens .openArray)
  | ']' => some (emit tokens .closeArray)
  | '\x7b' => some (emit tokens .openObject)
  | '\x7d' => some (emit tokens .closeObject)
  | ',' => some (emit tokens .comma)
  | ':' => some (emit tokens .colon)
  | '"' => some ⟨.string [], tokens⟩
  | c =>
    if isBlank c then some ⟨.between, tokens⟩
    else if isLetter c then some ⟨.word [c], tokens⟩
    else if c.isDigit || c == '-' then some ⟨.number [c], tokens⟩
    else none

/-- Ends the word or number under way. -/
def close (lexer : Lexer) : Option Lexer :=
  match lexer.mode with
  | .between => some lexer
  | .word letters => (word? letters.reverse).map (emit lexer.tokens)
  | .number literal => (numeral? literal.reverse).map (emit lexer.tokens)
  | _ => none

def step (lexer : Lexer) (c : Char) : Option Lexer :=
  match lexer.mode with
  | .between => begin lexer.tokens c
  | .word letters =>
    if isLetter c then some { lexer with mode := .word (c :: letters) }
    else lexer.close.bind fun closed => begin closed.tokens c
  | .number literal =>
    if inNumber c then some { lexer with mode := .number (c :: literal) }
    else lexer.close.bind fun closed => begin closed.tokens c
  | .string pieces =>
    if c == '"' then
      some (emit lexer.tokens (.string ((Piece.join pieces.reverse).map String.ofList)))
    else if c == '\\' then some { lexer with mode := .escape pieces }
    else if c.toNat < 0x20 then none
    else some { lexer with mode := .string (.char c :: pieces) }
  | .escape pieces =>
    if c == 'u' then some { lexer with mode := .unit pieces 0 4 }
    else (escaped? c).map fun e => { lexer with mode := .string (.char e :: pieces) }
  | .unit pieces value missing =>
    (hexDigit? c).map fun digit =>
      let value := value * 16 + digit
      match missing with
      | 0 | 1 => { lexer with mode := .string (.unit value :: pieces) }
      | missing + 1 => { lexer with mode := .unit pieces value missing }

end Lexer

/-- The tokens of a text, or `none` if some part of it is not a token. -/
def Token.ofText? (text : String) : Option (List Token) := do
  let lexer ← text.toList.foldlM Lexer.step Lexer.start
  let closed ← lexer.close
  return closed.tokens.reverse

end Timeslice.Json
