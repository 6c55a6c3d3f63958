import Timeslice.Json.Basic
import Timeslice.Store
import Timeslice.Word

/-! # Codecs

A codec gives a type its JSON form and reads it back. A record is read from an object, whose
members may come in any order beside unknown ones, or from an array of its fields in their order.
A name stands for a choice alone or as the only member of an object, with `null` as its value.
-/

namespace Timeslice

structure Codec (α : Type) where
  encode : α → Json
  decode : Json → Option α

namespace Codec

def bool : Codec Bool where
  encode := .bool
  decode
    | .bool value => some value
    | _ => none

def text : Codec String where
  encode := Json.text
  decode
    | .string value => value
    | _ => none

/-- Integers in `lo..hi`. -/
def integer (lo hi : Int) : Codec Int where
  encode := .int
  decode
    | .int value => if lo ≤ value ∧ value ≤ hi then some value else none
    | _ => none

/-- Natural numbers up to `hi`. -/
def natural (hi : Nat) : Codec Nat where
  encode := Json.nat
  decode json := ((integer 0 hi).decode json).map Int.toNat

/-- Words of 64 bits. -/
def word : Codec Nat := natural Word.limit

def int32 : Codec Int32 where
  encode value := .int value.toInt
  decode json := ((integer Word.least32 Word.largest32).decode json).map Int32.ofInt

def int64 : Codec Int := integer Word.least64 Word.largest64

def option {α : Type} (codec : Codec α) : Codec (Option α) where
  encode
    | some value => codec.encode value
    | none => .null
  decode
    | .null => some none
    | json => (codec.decode json).map some

def list {α : Type} (codec : Codec α) : Codec (List α) where
  encode values := .array (values.map codec.encode)
  decode
    | .array items => items.mapM codec.decode
    | _ => none

def pair {α β : Type} (first : Codec α) (second : Codec β) : Codec (α × β) where
  encode value := .array [first.encode value.1, second.encode value.2]
  decode
    | .array [a, b] => do return (← first.decode a, ← second.decode b)
    | _ => none

/-- Values given by name. `name` writes the value, and `values` lists every name that is read. -/
def choice {α : Type} (name : α → String) (values : List (String × α)) : Codec α where
  encode value := Json.text (name value)
  decode
    | .string given => given.bind fun given => values.lookup given
    | .object [(given, .null)] => given.bind fun given => values.lookup given
    | _ => none

def store : Codec Store where
  encode store := Json.record (store.entries.map fun (name, value) => (name, int32.encode value))
  decode
    | .object members => do
      let entries ← members.mapM fun (name, value) => do return (← name, ← int32.decode value)
      return Store.ofList entries
    | _ => none

end Codec

/-- The fields of a record that a value gives. -/
abbrev Record := List (String × Json)

namespace Record

/-- The fields among `names` that a value gives. In an object none of them may come twice, and
the name of every member must be a text. -/
def of? (names : List String) : Json → Option Record
  | .object members => do
    let named ← members.mapM fun (name, value) => do return (← name, value)
    let known := named.filter fun member => names.contains member.1
    if (known.map (·.1)).Nodup then some known else none
  | .array items => if items.length ≤ names.length then some (names.zip items) else none
  | _ => none

def required {α : Type} (record : Record) (name : String) (codec : Codec α) : Option α :=
  (record.lookup name).bind codec.decode

/-- The field's value, or `fallback` where it is not given. -/
def defaulted {α : Type} (record : Record) (name : String) (codec : Codec α) (fallback : α) :
    Option α :=
  match record.lookup name with
  | some json => codec.decode json
  | none => some fallback

end Record

end Timeslice
