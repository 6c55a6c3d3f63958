import Timeslice.Json.Basic
import Timeslice.Json.Token

/-! # Reading JSON

The parser reads one token at a time and holds the containers part way through in a list, so the
depth of a value costs no recursion.
-/

namespace Timeslice.Json

/-- A container part way through, up to the place of the value under way. Its contents are held
last first. -/
inductive Frame where
  | array (items : List Json)
  | object (members : List (Option String × Json)) (name : Option String)

/-- What may come next. The innermost container, if it is between two of its values, is held here
and not among the frames. -/
inductive Want where
  | value
  | firstItem
  | moreItems (items : List Json)
  | firstMember
  | member (members : List (Option String × Json))
  | colon (members : List (Option String × Json)) (name : Option String)
  | moreMembers (members : List (Option String × Json))
  | nothing (value : Json)

structure Parser where
  frames : List Frame
  want : Want

namespace Parser

def start : Parser := ⟨[], .value⟩

/-- Hands a finished value to the container that waits for it. -/
def finish (value : Json) : List Frame → Parser
  | [] => ⟨[], .nothing value⟩
  | .array items :: frames => ⟨frames, .moreItems (value :: items)⟩
  | .object members name :: frames => ⟨frames, .moreMembers ((name, value) :: members)⟩

/-- Reads the first token of a value. -/
def begin (frames : List Frame) : Token → Option Parser
  | .null => some (finish .null frames)
  | .bool value => some (finish (.bool value) frames)
  | .int value => some (finish (.int value) frames)
  | .real literal => some (finish (.real literal) frames)
  | .string value => some (finish (.string value) frames)
  | .openArray => some ⟨frames, .firstItem⟩
  | .openObject => some ⟨frames, .firstMember⟩
  | .closeArray | .closeObject | .comma | .colon => none

def step (parser : Parser) (token : Token) : Option Parser :=
  let frames := parser.frames
  match parser.want, token with
  | .value, token => begin frames token
  | .firstItem, .closeArray => some (finish (.array []) frames)
  | .firstItem, token => begin (.array [] :: frames) token
  | .moreItems items, .closeArray => some (finish (.array items.reverse) frames)
  | .moreItems items, .comma => some ⟨.array items :: frames, .value⟩
  | .firstMember, .closeObject => some (finish (.object []) frames)
  | .firstMember, .string name => some ⟨frames, .colon [] name⟩
  | .member members, .string name => some ⟨frames, .colon members name⟩
  | .colon members name, .colon => some ⟨.object members name :: frames, .value⟩
  | .moreMembers members, .closeObject => some (finish (.object members.reverse) frames)
  | .moreMembers members, .comma => some ⟨frames, .member members⟩
  | _, _ => none

end Parser

/-- The value that a text holds, if it holds exactly one. -/
def parse? (text : String) : Option Json := do
  let tokens ← Token.ofText? text
  let parser ← tokens.foldlM Parser.step Parser.start
  match parser with
  | ⟨[], .nothing value⟩ => some value
  | _ => none

end Timeslice.Json
