/-! # JSON values

A value as it was written: members keep their order and their repetitions. A string literal with a
surrogate escape that has no partner is well formed but denotes no text, so strings and member
names are optional texts. Numbers written as integers are kept apart from all others.
-/

namespace Timeslice

inductive Json where
  | null
  | bool (value : Bool)
  | int (value : Int)
  /-- A number with a fraction or an exponent, or the negative zero, by its literal. -/
  | real (literal : String)
  /-- A string, or `none` for a literal that denotes no text. -/
  | string (value : Option String)
  | array (items : List Json)
  | object (members : List (Option String × Json))

namespace Json

instance : Inhabited Json := ⟨.null⟩

def text (s : String) : Json := .string (some s)

def nat (n : Nat) : Json := .int n

/-- The object of named members, in the order given. -/
def record (members : List (String × Json)) : Json :=
  .object (members.map fun (name, value) => (some name, value))

end Json

end Timeslice
