import Mathlib.Logic.Relation
import Timeslice.Proofs.Json.Schema
import Timeslice.Scenario.Basic

/-! # What decoding a scenario heeds

The schema of a scenario names its fields, those of its processes and those of its range of block
durations, with the values that stand for the fields that may be left out. Decoding follows it.
-/

namespace Timeslice

open Record (Reads)

namespace BlockRange

def schema : Schema := .record [⟨"min", .plain, none⟩, ⟨"max", .plain, none⟩]

theorem follows : codec.Follows schema :=
  Codec.follows_record (by decide) (fun _ => rfl) <|
    .required (Codec.follows_natural _) fun _ =>
    .required (Codec.follows_natural _) fun _ => .nil _

end BlockRange

namespace ProcessSpec

def schema : Schema := .record [
  ⟨"name", .plain, none⟩,
  ⟨"arrival_time", .plain, some (Codec.word.encode 0)⟩,
  ⟨"class", .choice, none⟩,
  ⟨"priority", .choice, some (Priority.codec.encode .low)⟩,
  ⟨"program", .plain, some .null⟩,
  ⟨"program_path", .plain, some .null⟩]

theorem follows : codec.Follows schema :=
  Codec.follows_record (by decide) (fun _ => rfl) <|
    .required Codec.follows_text fun _ =>
    .defaulted (Codec.follows_natural _) rfl fun _ =>
    .required (Codec.follows_choice _ _) fun _ =>
    .defaulted (Codec.follows_choice _ _) rfl fun _ =>
    .defaulted Codec.follows_option_text rfl fun _ =>
    .defaulted Codec.follows_option_text rfl fun _ => .nil _

end ProcessSpec

namespace Scenario

def schema : Schema := .record [
  ⟨"quantum", .plain, some (quantumCodec.encode 2)⟩,
  ⟨"max_ticks", .plain, some (Codec.word.encode 1000)⟩,
  ⟨"log_level", .choice, some (Log.Level.codec.encode .info)⟩,
  ⟨"block_ticks", BlockRange.schema, some (BlockRange.codec.encode .standard)⟩,
  ⟨"inputs", .list .plain, some ((Codec.list .text).encode [])⟩,
  ⟨"processes", .list ProcessSpec.schema, none⟩]

theorem follows : codec.Follows schema :=
  Codec.follows_record (by decide) (fun _ => rfl) <|
    .defaulted (Codec.follows_natural _) rfl fun _ =>
    .defaulted (Codec.follows_natural _) rfl fun _ =>
    .defaulted (Codec.follows_choice _ _) rfl fun _ =>
    .defaulted BlockRange.follows rfl fun _ =>
    .defaulted (Codec.follows_list Codec.follows_text) rfl fun _ =>
    .required (Codec.follows_list ProcessSpec.follows) fun _ => .nil _

theorem decode_edited {json json' : Json} (edited : Relation.EqvGen schema.Edit json json') :
    codec.decode json' = codec.decode json := by
  induction edited with
  | rel json json' edit => exact follows.heeds json json' edit
  | refl json => rfl
  | symm json json' edited ih => exact ih.symm
  | trans json json' json'' first second ih ih' => exact ih'.trans ih

/-- What a document says does not depend on the order of its members, on members that are ignored,
on whether defaults are written out, or on whether a record is an object or an array: through any
number of edits, made or undone, it is accepted as before and decoded to the same scenario. A
document with a fault anywhere is rejected. -/
theorem ofText_edited {text : String} {json : Json} (parsed : Json.parse? text = some json) :
    (∀ text' json', Json.parse? text' = some json' → Relation.EqvGen schema.Edit json json' →
      ofText text' = ofText text) ∧
    (schema.Faulty json → ofText text = .error .invalid) := by
  refine ⟨fun text' json' parsed' edited => ?_, fun faulty => ?_⟩
  · rw [ofText, ofText, parsed, parsed', Option.bind_some, Option.bind_some,
      decode_edited edited]
  · rw [ofText, parsed, Option.bind_some, follows.refuses json faulty]

theorem ofText_edited_array :
    ofText "[3, 1000, \"info\", \x7b\"min\": 3, \"max\": 5\x7d, [], []]" =
        ofText "\x7b\"processes\": [], \"note\": \x7b\x7d, \"quantum\": 3\x7d" ∧
      ofText "\x7b\"quantum\": 3\x7d" = .error .invalid := by
  have object : Json.parse? "\x7b\"processes\": [], \"note\": \x7b\x7d, \"quantum\": 3\x7d" =
      some (.object [(some "processes", .array []), (some "note", .object []),
        (some "quantum", .int 3)]) := by rfl
  have array : Json.parse? "[3, 1000, \"info\", \x7b\"min\": 3, \"max\": 5\x7d, [], []]" =
      some (.array [.int 3, .int 1000, .text "info", BlockRange.codec.encode .standard, .array [],
        .array []]) := by rfl
  have short : Json.parse? "\x7b\"quantum\": 3\x7d" =
      some (.object [(some "quantum", .int 3)]) := by rfl
  refine ⟨(ofText_edited object).1 _ _ array (.rel _ _ (.asArray ?_ ?_ ?_)),
    (ofText_edited short).2 (.omitted (List.getLast_mem (List.cons_ne_nil _ _)) rfl ?_)⟩
  · simp
  · decide
  · refine .cons (.inl ?_) (.cons (.inr ⟨?_, rfl⟩) (.cons (.inr ⟨?_, rfl⟩)
      (.cons (.inr ⟨?_, rfl⟩) (.cons (.inr ⟨?_, rfl⟩) (.cons (.inl ?_) .nil))))) <;> simp
  · simp

/-- An object that stands for a name may not get another member, and no object of a scenario may
get a member whose name is no text. -/
theorem additions_rejected :
    ofText ("\x7b\"processes\": [\x7b\"name\": \"a\", \"program\": \"\", " ++
        "\"class\": \x7b\"realtime\": null\x7d\x7d]\x7d") =
        .ok ⟨2, 1000, .info, .standard, [], [⟨"a", 0, .realtime, .low, some "", none⟩]⟩ ∧
      ofText ("\x7b\"processes\": [\x7b\"name\": \"a\", \"program\": \"\", " ++
        "\"class\": \x7b\"realtime\": null, \"note\": 0\x7d\x7d]\x7d") = .error .invalid ∧
      ofText "\x7b\"processes\": []\x7d" = .ok ⟨2, 1000, .info, .standard, [], []⟩ ∧
      ofText "\x7b\"processes\": [], \"\\ud800\": 0\x7d" = .error .invalid := by
  decide +kernel

end Scenario

end Timeslice
