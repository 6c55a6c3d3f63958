import Mathlib.Data.List.Count
import Mathlib.Data.List.Forall2
import Mathlib.Data.List.Nodup
import Timeslice.Proofs.Json.Codec

/-! # What codecs heed

A schema says which parts of a value a codec looks at. An edit changes a value in a way that the
schema takes no notice of: it moves members of an object, adds members that the schema ignores,
writes out what a field has anyway, or gives the fields of a record in an array. A value is faulty
if it lacks a field that its schema requires, gives one twice, or has a member that can not be
ignored. A codec follows a schema if no edit changes what it decodes and it decodes nothing
faulty.
-/

namespace Timeslice

/-! ## Schemas -/

structure Field (Schema : Type) where
  name : String
  schema : Schema
  /-- The value of a field that may be left out, or `none` for a field that is required. -/
  fallback : Option Json

inductive Schema where
  /-- A text or a number, which is neither an object nor an array. -/
  | plain
  /-- A name, alone or as the only member of an object. -/
  | choice
  | list (item : Schema)
  | record (fields : List (Field Schema))

def Json.isContainer : Json → Bool
  | .array _ | .object _ => true
  | _ => false

namespace Schema

/-- The schema of the member of a name. What is ignored may be anything, like what stands where an
object or an array is wrong in any case. -/
def member : Schema → Option String → Schema
  | record fields, some name => ((fields.find? (·.name = name)).map (·.schema)).getD plain
  | _, _ => plain

def item : Schema → Nat → Schema
  | list schema, _ => schema
  | record fields, place => (fields[place]?.map (·.schema)).getD plain
  | _, _ => plain

/-- Whether a member of this name has no bearing on an object. A record ignores all names but those
of its fields; the name must be a text. An object that stands for a name has no other member. -/
def Ignores : Schema → Option String → Prop
  | record fields, name => ∃ text, name = some text ∧ ∀ field ∈ fields, field.name ≠ text
  | choice, _ => False
  | _, _ => True

/-- `Edit schema json json'`: the value is changed in one place, however deep, in a way that has no
bearing on what it says. -/
inductive Edit : Schema → Json → Json → Prop where
  /-- The members of any object change places. -/
  | permute {schema : Schema} {members members' : List (Option String × Json)}
      (permuted : members.Perm members') : Edit schema (.object members) (.object members')
  /-- A member that is ignored is added anywhere, with any value. -/
  | insert {schema : Schema} {name : Option String} (before after : List (Option String × Json))
      (value : Json) (ignored : schema.Ignores name) :
      Edit schema (.object (before ++ after)) (.object (before ++ (name, value) :: after))
  /-- A field that is left out is added anywhere, with the value that it has then. -/
  | writeOut {fields : List (Field Schema)} {field : Field Schema} {value : Json}
      {before after : List (Option String × Json)} (known : field ∈ fields)
      (fallback : field.fallback = some value)
      (omitted : ∀ member ∈ before ++ after, member.1 ≠ some field.name) :
      Edit (.record fields) (.object (before ++ after))
        (.object (before ++ (some field.name, value) :: after))
  /-- An array of fields gets the next one that is left out. -/
  | extend {fields : List (Field Schema)} {field : Field Schema} {value : Json}
      {items : List Json} (next : fields[items.length]? = some field)
      (fallback : field.fallback = some value) :
      Edit (.record fields) (.array items) (.array (items ++ [value]))
  /-- A record is written as an array of its fields in the order of the schema. -/
  | asArray {fields : List (Field Schema)} {members : List (Option String × Json)}
      {items : List Json} (named : none ∉ members.map (·.1))
      (once : ∀ field ∈ fields, (members.map (·.1)).count (some field.name) ≤ 1)
      (listed : List.Forall₂ (fun field item => (some field.name, item) ∈ members ∨
        (∀ member ∈ members, member.1 ≠ some field.name) ∧ field.fallback = some item)
        fields items) :
      Edit (.record fields) (.object members) (.array items)
  /-- The value of a member is edited. -/
  | member {schema : Schema} {name : Option String} {value value' : Json}
      (before after : List (Option String × Json))
      (inner : Edit (schema.member name) value value') :
      Edit schema (.object (before ++ (name, value) :: after))
        (.object (before ++ (name, value') :: after))
  /-- An item is edited. -/
  | item {schema : Schema} {value value' : Json} (before after : List Json)
      (inner : Edit (schema.item before.length) value value') :
      Edit schema (.array (before ++ value :: after)) (.array (before ++ value' :: after))

/-- `Faulty schema json`: somewhere in the value a field is missing or given twice, or a member has
no place where it stands. -/
inductive Faulty : Schema → Json → Prop where
  /-- The name of a member is no text. -/
  | unnamed {fields : List (Field Schema)} {members : List (Option String × Json)}
      (textless : none ∈ members.map (·.1)) : Faulty (.record fields) (.object members)
  | repeated {fields : List (Field Schema)} {field : Field Schema}
      {members : List (Option String × Json)} (known : field ∈ fields)
      (twice : 1 < (members.map (·.1)).count (some field.name)) :
      Faulty (.record fields) (.object members)
  | omitted {fields : List (Field Schema)} {field : Field Schema}
      {members : List (Option String × Json)} (known : field ∈ fields)
      (required : field.fallback = none)
      (absent : ∀ member ∈ members, member.1 ≠ some field.name) :
      Faulty (.record fields) (.object members)
  /-- An array ends before a field that is required. -/
  | short {fields : List (Field Schema)} {field : Field Schema} {place : Nat} {items : List Json}
      (known : fields[place]? = some field) (required : field.fallback = none)
      (absent : items.length ≤ place) : Faulty (.record fields) (.array items)
  | member {fields : List (Field Schema)} {field : Field Schema} {value : Json}
      {members : List (Option String × Json)} (known : field ∈ fields)
      (given : (some field.name, value) ∈ members) (inner : Faulty field.schema value) :
      Faulty (.record fields) (.object members)
  /-- More than one member is given where an object stands for a name. -/
  | crowded {members : List (Option String × Json)} (more : 1 < members.length) :
      Faulty .choice (.object members)
  | field {fields : List (Field Schema)} {field : Field Schema} {value : Json} {place : Nat}
      {items : List Json} (known : fields[place]? = some field) (given : items[place]? = some value)
      (inner : Faulty field.schema value) : Faulty (.record fields) (.array items)
  | item {schema : Schema} {value : Json} {items : List Json} (given : value ∈ items)
      (inner : Faulty schema value) : Faulty (.list schema) (.array items)

variable {schema : Schema} {json json' : Json}

/-- Edits lead from containers to containers. -/
theorem Edit.isContainer (edit : schema.Edit json json') :
    json.isContainer ∧ json'.isContainer := by
  cases edit <;> exact ⟨rfl, rfl⟩

end Schema

/-! ## Codecs that follow a schema -/

namespace Codec

variable {α : Type} {codec : Codec α} {json json' : Json}

structure Follows (codec : Codec α) (schema : Schema) : Prop where
  heeds : ∀ json json', schema.Edit json json' → codec.decode json' = codec.decode json
  refuses : ∀ json, schema.Faulty json → codec.decode json = none

/-- A codec that decodes no container has nothing to heed in one. -/
theorem follows_plain (simple : ∀ json : Json, json.isContainer → codec.decode json = none) :
    codec.Follows .plain where
  heeds json json' edit := by
    obtain ⟨before, after⟩ := edit.isContainer
    rw [simple json before, simple json' after]
  refuses json faulty := by cases faulty

theorem follows_text : text.Follows .plain :=
  follows_plain fun json container => by cases json <;> first | rfl | cases container

theorem follows_natural (hi : Nat) : (natural hi).Follows .plain :=
  follows_plain fun json container => by cases json <;> first | rfl | cases container

theorem follows_option_text : (option text).Follows .plain :=
  follows_plain fun json container => by cases json <;> first | rfl | cases container

/-- An object stands for a name only if its one member has no value. -/
theorem exists_of_choice {name : α → String} {values : List (String × α)} {value : α}
    {members : List (Option String × Json)}
    (decoded : (choice name values).decode (.object members) = some value) :
    ∃ given, members = [(given, .null)] := by
  match members with
  | [] => cases decoded
  | [(given, json)] =>
      cases json with
      | null => exact ⟨given, rfl⟩
      | _ => cases decoded
  | (_, json) :: _ :: _ => cases json <;> cases decoded

theorem follows_choice (name : α → String) (values : List (String × α)) :
    (choice name values).Follows .choice where
  heeds json json' edit := by
    -- An object with a container in it stands for no name, whatever else it has.
    have deep {given : Option String} {inner : Json} (container : inner.isContainer)
        (before after : List (Option String × Json)) :
        (choice name values).decode (.object (before ++ (given, inner) :: after)) = none := by
      refine Option.eq_none_iff_forall_ne_some.2 fun value decoded => ?_
      obtain ⟨other, single⟩ := exists_of_choice decoded
      have member : (given, inner) ∈ [(other, Json.null)] :=
        single ▸ List.mem_append_right before List.mem_cons_self
      cases List.mem_singleton.1 member
      cases container
    cases edit with
    | @permute _ members members' permuted =>
        refine Option.ext fun value => ⟨fun decoded => ?_, fun decoded => ?_⟩
        · obtain ⟨given, rfl⟩ := exists_of_choice decoded
          rwa [List.perm_singleton.1 permuted]
        · obtain ⟨given, rfl⟩ := exists_of_choice decoded
          rwa [List.singleton_perm.1 permuted] at decoded
    | insert before after value ignored => cases ignored
    | member before after inner =>
        rw [deep inner.isContainer.1, deep inner.isContainer.2]
    | item before after inner => rfl
  refuses json faulty := by
    cases faulty with
    | crowded more =>
        refine Option.eq_none_iff_forall_ne_some.2 fun value decoded => ?_
        obtain ⟨given, rfl⟩ := exists_of_choice decoded
        exact absurd more (Nat.lt_irrefl 1)

theorem follows_list {schema : Schema} (follows : codec.Follows schema) :
    (list codec).Follows (.list schema) where
  heeds json json' edit := by
    cases edit with
    | permute _ | insert _ _ _ _ | member _ _ _ => rfl
    | item before after inner =>
        show (before ++ _ :: after).mapM codec.decode = (before ++ _ :: after).mapM codec.decode
        simp only [List.mapM_append, List.mapM_cons, follows.heeds _ _ inner]
  refuses json faulty := by
    cases faulty with
    | @item _ value items given inner =>
        show items.mapM codec.decode = none
        obtain ⟨before, after, rfl⟩ := List.append_of_mem given
        simp only [List.mapM_append, List.mapM_cons, follows.refuses _ inner]
        cases before.mapM codec.decode <;> rfl

end Codec

/-! ## Fields of a record -/

section Lookup

variable {α β : Type} [BEq α] [LawfulBEq α] {key : α} {value : β} {entries : List (α × β)}

theorem mem_of_lookup (found : entries.lookup key = some value) : (key, value) ∈ entries := by
  obtain ⟨before, after, rfl, -⟩ := List.lookup_eq_some_iff.1 found
  exact List.mem_append_right before List.mem_cons_self

theorem lookup_of_mem (once : (entries.map (·.1)).count key ≤ 1)
    (member : (key, value) ∈ entries) : entries.lookup key = some value := by
  obtain ⟨before, after, rfl⟩ := List.append_of_mem member
  refine List.lookup_eq_some_iff.2 ⟨before, after, rfl, fun entry earlier => bne_iff_ne.2 ?_⟩
  rintro rfl
  have first : 0 < (before.map (·.1)).count entry.1 :=
    List.count_pos_iff.2 (List.mem_map_of_mem earlier)
  rw [List.map_append, List.map_cons, List.count_append, List.count_cons_self] at once
  omega

theorem lookup_eq_none_of_absent (absent : ∀ entry ∈ entries, entry.1 ≠ key) :
    entries.lookup key = none :=
  List.lookup_eq_none_iff.2 fun entry member => bne_iff_ne.2 (absent entry member).symm

theorem lookup_insert {before after : List (α × β)}
    (once : ((before ++ (key, value) :: after).map (·.1)).count key ≤ 1) :
    (before ++ (key, value) :: after).lookup key = some value :=
  lookup_of_mem once (List.mem_append_right before List.mem_cons_self)

theorem lookup_insert_of_ne {before after : List (α × β)} {other : α} (ne : key ≠ other) :
    (before ++ (other, value) :: after).lookup key = (before ++ after).lookup key := by
  rw [List.lookup_append, List.lookup_append, List.lookup_cons, beq_false_of_ne ne]

theorem lookup_permuted {entries' : List (α × β)} (permuted : entries.Perm entries')
    (once : (entries.map (·.1)).count key ≤ 1) : entries'.lookup key = entries.lookup key := by
  have once' : (entries'.map (·.1)).count key ≤ 1 := (permuted.map (·.1)).count_eq key ▸ once
  refine Option.ext fun value => ⟨fun found => ?_, fun found => ?_⟩
  · exact lookup_of_mem once (permuted.mem_iff.2 (mem_of_lookup found))
  · exact lookup_of_mem once' (permuted.mem_iff.1 (mem_of_lookup found))

theorem lookup_zip {keys : List α} {values : List β} {place : Nat} (distinct : keys.Nodup)
    (there : keys[place]? = some key) : (keys.zip values).lookup key = values[place]? := by
  induction keys generalizing values place with
  | nil => cases there
  | cons first keys ih =>
      obtain ⟨fresh, distinct⟩ := List.nodup_cons.1 distinct
      cases values with
      | nil => rfl
      | cons value values =>
          cases place with
          | zero =>
              cases there
              rw [List.zip_cons_cons, List.lookup_cons, beq_self_eq_true]
              rfl
          | succ place =>
              have later : key ∈ keys := List.mem_of_getElem? there
              have other : (key == first) = false :=
                beq_false_of_ne fun same => fresh (same ▸ later)
              rw [List.zip_cons_cons, List.lookup_cons, other]
              exact ih distinct there

end Lookup

namespace Record

variable {names : List String} {members : List (Option String × Json)} {record : Record}
  {name : String}

theorem count_record (record : Record) (name : String) :
    ((record.map fun member => (some member.1, member.2)).map (·.1)).count (some name) =
      (record.map (·.1)).count name := by
  have shape : ((record.map fun member => (some member.1, member.2)).map (·.1)) =
      (record.map (·.1)).map some := by
    rw [List.map_map, List.map_map]
    rfl
  rw [shape, List.count_map_of_injective _ _ fun _ _ => Option.some.inj]

theorem lookup_record (record : Record) (name : String) :
    (record.map fun member => (some member.1, member.2)).lookup (some name) =
      record.lookup name := by
  induction record with
  | nil => rfl
  | cons member record ih =>
      rw [List.map_cons, List.lookup_cons, List.lookup_cons, ih]
      rfl

theorem lookup_filter (known : name ∈ names) (record : Record) :
    (record.filter fun member => names.contains member.1).lookup name = record.lookup name := by
  induction record with
  | nil => rfl
  | cons member record ih =>
      obtain ⟨key, value⟩ := member
      by_cases same : name = key
      · subst same
        have kept : names.contains name := List.contains_iff_mem.2 known
        rw [List.filter_cons, if_pos kept, List.lookup_cons_self, List.lookup_cons_self]
      · rw [List.lookup_cons, beq_false_of_ne same, List.filter_cons]
        split
        · rw [List.lookup_cons, beq_false_of_ne same, ih]
        · exact ih

/-- An object is read as a record if every name is a text and no field is given twice. -/
theorem isSome_of?_object (names : List String) (members : List (Option String × Json)) :
    (of? names (.object members)).isSome ↔ none ∉ members.map (·.1) ∧
      ∀ name ∈ names, (members.map (·.1)).count (some name) ≤ 1 := by
  by_cases named : none ∉ members.map (·.1)
  · obtain ⟨record, shape⟩ := exists_named named
    cases shape
    have counted : ((record.map (·.1)).filter names.contains).Nodup ↔
        ∀ name ∈ names, (record.map (·.1)).count name ≤ 1 := by
      rw [List.nodup_iff_count_le_one]
      refine ⟨fun once name known => ?_, fun once name => ?_⟩
      · rw [← List.count_filter (List.contains_iff_mem.2 known)]
        exact once name
      · by_cases known : name ∈ names
        · rw [List.count_filter (List.contains_iff_mem.2 known)]
          exact once name known
        · rw [List.count_eq_zero.2 fun found => ?_]
          · exact Nat.zero_le 1
          · exact known (List.contains_iff_mem.1 (List.mem_filter.1 found).2)
    rw [and_iff_right named, show Json.object _ = .record record from rfl, of?_record_eq]
    simp only [count_record, counted, Option.isSome_ite]
  · rw [of?_of_unnamed (Decidable.not_not.1 named)]
    exact ⟨fun read => (Bool.false_ne_true read).elim, fun both => (named both.1).elim⟩

theorem lookup_of?_object (read : of? names (.object members) = some record)
    (known : name ∈ names) : record.lookup name = members.lookup (some name) := by
  have named : none ∉ members.map (·.1) :=
    ((isSome_of?_object names members).1 (read ▸ rfl)).1
  obtain ⟨whole, shape⟩ := exists_named named
  rw [shape, of?_record_eq] at read
  obtain ⟨-, same⟩ := Option.ite_none_right_eq_some.1 read
  cases same
  rw [lookup_filter known, Json.object.inj shape]
  exact (lookup_record whole name).symm

/-- An array is read as a record if it has no more items than there are fields. -/
theorem lookup_of?_array {items : List Json} {place : Nat} (distinct : names.Nodup)
    (read : of? names (.array items) = some record) (there : names[place]? = some name) :
    record.lookup name = items[place]? := by
  obtain ⟨-, same⟩ := Option.ite_none_right_eq_some.1 read
  cases same
  exact lookup_zip distinct there

end Record

/-! ## Records that follow a schema -/

namespace Field

inductive Shifts (field : Field Schema) : Option Json → Option Json → Prop where
  | same (given : Option Json) : Shifts field given given
  | edited {value value' : Json} (inner : field.schema.Edit value value') :
      Shifts field (some value) (some value')
  | writtenOut {value : Json} (fallback : field.fallback = some value) :
      Shifts field none (some value)

inductive Fails (field : Field Schema) : Option Json → Prop where
  | missing (required : field.fallback = none) : Fails field none
  | faulty {value : Json} (inner : field.schema.Faulty value) : Fails field (some value)

end Field

namespace Schema

variable {fields : List (Field Schema)} {field : Field Schema} {json json' : Json}
  {record record' : Record}

theorem member_of_known (distinct : (fields.map (·.name)).Nodup) (known : field ∈ fields) :
    (Schema.record fields).member (some field.name) = field.schema := by
  have found : fields.find? (·.name = field.name) = some field := by
    refine List.find?_eq_some_iff_append.2 ⟨by simp, ?_⟩
    obtain ⟨before, after, rfl⟩ := List.append_of_mem known
    refine ⟨before, after, rfl, fun other earlier => ?_⟩
    have apart := (List.nodup_append.1 (List.map_append ▸ distinct)).2.2 other.name
      (List.mem_map_of_mem earlier) field.name (List.mem_map_of_mem List.mem_cons_self)
    simpa using apart
  rw [member, found]
  rfl

theorem item_of_known {place : Nat} (known : fields[place]? = some field) :
    (Schema.record fields).item place = field.schema := by
  rw [item, known]
  rfl

/-- What an edit comes to for a record: the value is read if it was read before, and the fields
that are read have shifted. -/
structure Moves (fields : List (Field Schema)) (json json' : Json) : Prop where
  read : (Record.of? (fields.map (·.name)) json).isSome ↔
    (Record.of? (fields.map (·.name)) json').isSome
  shifts : ∀ record record', Record.of? (fields.map (·.name)) json = some record →
    Record.of? (fields.map (·.name)) json' = some record' → ∀ field ∈ fields,
      field.Shifts (record.lookup field.name) (record'.lookup field.name)

namespace Moves

variable {members members' before after : List (Option String × Json)} {items items' : List Json}
  {value value' : Json}

theorem objects (named : none ∈ members.map (·.1) ↔ none ∈ members'.map (·.1))
    (once : ∀ field ∈ fields, (members.map (·.1)).count (some field.name) ≤ 1 ↔
      (members'.map (·.1)).count (some field.name) ≤ 1)
    (shifts : ∀ field ∈ fields, (members.map (·.1)).count (some field.name) ≤ 1 →
      field.Shifts (members.lookup (some field.name)) (members'.lookup (some field.name))) :
    Moves fields (.object members) (.object members') where
  read := by
    simp only [Record.isSome_of?_object, List.forall_mem_map, named]
    exact and_congr_right fun _ => forall₂_congr once
  shifts record record' read read' field known := by
    have name := List.mem_map_of_mem known (f := (·.name))
    have single := ((Record.isSome_of?_object _ members).1 (read ▸ rfl)).2 field.name name
    rw [Record.lookup_of?_object read name, Record.lookup_of?_object read' name]
    exact shifts field known single

theorem arrays (distinct : (fields.map (·.name)).Nodup)
    (fits : items.length ≤ fields.length ↔ items'.length ≤ fields.length)
    (shifts : ∀ (place : Nat) (field : Field Schema), fields[place]? = some field →
      field.Shifts items[place]? items'[place]?) :
    Moves fields (.array items) (.array items') where
  read := by
    simp only [Record.of?, List.length_map, Option.isSome_ite, fits]
  shifts record record' read read' field known := by
    obtain ⟨place, there⟩ := List.mem_iff_getElem?.1 known
    have named : (fields.map (·.name))[place]? = some field.name := by
      rw [List.getElem?_map, there]
      rfl
    rw [Record.lookup_of?_array distinct read named, Record.lookup_of?_array distinct read' named]
    exact shifts place field there

theorem permute (permuted : members.Perm members') :
    Moves fields (.object members) (.object members') := by
  have keys := permuted.map (·.1)
  refine objects keys.mem_iff (fun field _ => by rw [keys.count_eq]) fun field _ single => ?_
  rw [lookup_permuted permuted single]
  exact .same _

theorem insert {text : String} (ignored : ∀ field ∈ fields, field.name ≠ text) :
    Moves fields (.object (before ++ after)) (.object (before ++ (some text, value) :: after)) := by
  refine objects (by simp) (fun field known => ?_) fun field known _ => ?_
  · have other : some text ≠ some field.name :=
      fun same => ignored field known (Option.some.inj same).symm
    simp [List.count_cons_of_ne other]
  · have other : some field.name ≠ some text :=
      fun same => ignored field known (Option.some.inj same)
    rw [lookup_insert_of_ne other]
    exact .same _

theorem writeOut (distinct : (fields.map (·.name)).Nodup) (known : field ∈ fields)
    (fallback : field.fallback = some value)
    (omitted : ∀ member ∈ before ++ after, member.1 ≠ some field.name) :
    Moves fields (.object (before ++ after))
      (.object (before ++ (some field.name, value) :: after)) := by
  have absent : ((before ++ after).map (·.1)).count (some field.name) = 0 := by
    refine List.count_eq_zero.2 fun found => ?_
    obtain ⟨member, found, same⟩ := List.mem_map.1 found
    exact omitted member found same
  have single : ((before ++ (some field.name, value) :: after).map (·.1)).count (some field.name) =
      1 := by
    rw [List.map_append, List.count_append] at absent
    rw [List.map_append, List.map_cons, List.count_append, List.count_cons_self]
    omega
  refine objects (by simp) (fun other _ => ?_) fun other there _ => ?_
  · by_cases same : other.name = field.name
    · rw [same, absent, single]
      decide
    · have ne : some field.name ≠ some other.name :=
        fun named => same (Option.some.inj named).symm
      simp [List.count_cons_of_ne ne]
  · by_cases same : other.name = field.name
    · rw [List.inj_on_of_nodup_map distinct there known same, lookup_eq_none_of_absent omitted,
        lookup_insert (Nat.le_of_eq single)]
      exact .writtenOut fallback
    · rw [lookup_insert_of_ne fun named => same (Option.some.inj named)]
      exact .same _

theorem member {name : Option String} (distinct : (fields.map (·.name)).Nodup)
    (inner : ((Schema.record fields).member name).Edit value value') :
    Moves fields (.object (before ++ (name, value) :: after))
      (.object (before ++ (name, value') :: after)) := by
  have keys : (before ++ (name, value) :: after).map (·.1) =
      (before ++ (name, value') :: after).map (·.1) := by simp
  refine objects (by rw [keys]) (fun field _ => by rw [keys]) fun field known single => ?_
  by_cases same : some field.name = name
  · subst same
    rw [lookup_insert single, lookup_insert (keys ▸ single)]
    exact .edited (member_of_known distinct known ▸ inner)
  · rw [lookup_insert_of_ne same, lookup_insert_of_ne same]
    exact .same _

theorem extend (distinct : (fields.map (·.name)).Nodup) (next : fields[items.length]? = some field)
    (fallback : field.fallback = some value) :
    Moves fields (.array items) (.array (items ++ [value])) := by
  obtain ⟨room, -⟩ := List.getElem?_eq_some_iff.1 next
  refine arrays distinct ?_ fun place other there => ?_
  · rw [List.length_append, List.length_singleton]
    omega
  · rcases Nat.lt_trichotomy place items.length with earlier | rfl | later
    · rw [List.getElem?_append_left earlier]
      exact .same _
    · cases next.symm.trans there
      rw [List.getElem?_eq_none (Nat.le_refl _), List.getElem?_concat_length]
      exact .writtenOut fallback
    · rw [List.getElem?_append_right (Nat.le_of_lt later),
        List.getElem?_eq_none (Nat.le_of_lt later),
        List.getElem?_eq_none (Nat.sub_pos_of_lt later)]
      exact .same _

theorem item {before after : List Json} (distinct : (fields.map (·.name)).Nodup)
    (inner : ((Schema.record fields).item before.length).Edit value value') :
    Moves fields (.array (before ++ value :: after)) (.array (before ++ value' :: after)) := by
  refine arrays distinct (by simp) fun place other there => ?_
  rcases Nat.lt_trichotomy place before.length with earlier | rfl | later
  · rw [List.getElem?_append_left earlier, List.getElem?_append_left earlier]
    exact .same _
  · rw [List.getElem?_append_right (Nat.le_refl _), List.getElem?_append_right (Nat.le_refl _),
      Nat.sub_self]
    exact .edited (item_of_known there ▸ inner)
  · obtain ⟨gap, rfl⟩ := Nat.exists_eq_add_of_lt later
    rw [List.getElem?_append_right (by omega), List.getElem?_append_right (by omega),
      show before.length + gap + 1 - before.length = gap + 1 by omega]
    exact .same _

theorem asArray (distinct : (fields.map (·.name)).Nodup) (named : none ∉ members.map (·.1))
    (once : ∀ field ∈ fields, (members.map (·.1)).count (some field.name) ≤ 1)
    (listed : List.Forall₂ (fun field item => (some field.name, item) ∈ members ∨
      (∀ member ∈ members, member.1 ≠ some field.name) ∧ field.fallback = some item)
      fields items) :
    Moves fields (.object members) (.array items) := by
  have length := listed.length_eq
  constructor
  · have array : (Record.of? (fields.map (·.name)) (.array items)).isSome := by
      simp [Record.of?, length]
    have object := (Record.isSome_of?_object (fields.map (·.name)) members).2
      ⟨named, List.forall_mem_map.2 once⟩
    exact iff_of_true object array
  · intro record record' read read' field known
    obtain ⟨place, there⟩ := List.mem_iff_getElem?.1 known
    obtain ⟨short, rfl⟩ := List.getElem?_eq_some_iff.1 there
    have given : (some fields[place].name, items[place]) ∈ members ∨
        (∀ member ∈ members, member.1 ≠ some fields[place].name) ∧
          fields[place].fallback = some items[place] := listed.get short (length ▸ short)
    have nameAt : (fields.map (·.name))[place]? = some fields[place].name := by simp [short]
    have itemAt : record'.lookup fields[place].name = some items[place] := by
      rw [Record.lookup_of?_array distinct read' nameAt, List.getElem?_eq_getElem]
    rw [itemAt, Record.lookup_of?_object read (List.mem_map_of_mem known)]
    rcases given with given | ⟨omitted, fallback⟩
    · rw [lookup_of_mem (once _ known) given]
      exact .same _
    · rw [lookup_eq_none_of_absent omitted]
      exact .writtenOut fallback

end Moves

/-- Every edit moves a record. -/
theorem Edit.moves (distinct : (fields.map (·.name)).Nodup)
    (edit : (Schema.record fields).Edit json json') : Moves fields json json' := by
  cases edit with
  | permute permuted => exact .permute permuted
  | insert before after value ignored =>
      obtain ⟨text, rfl, ignored⟩ := ignored
      exact .insert ignored
  | writeOut known fallback omitted => exact .writeOut distinct known fallback omitted
  | extend next fallback => exact .extend distinct next fallback
  | asArray named once listed => exact .asArray distinct named once listed
  | member before after inner => exact .member distinct inner
  | item before after inner => exact .item distinct inner

/-- A faulty record fails in one of its fields, if it is read at all. -/
theorem Faulty.fails (distinct : (fields.map (·.name)).Nodup)
    (faulty : (Schema.record fields).Faulty json)
    (read : Record.of? (fields.map (·.name)) json = some record) :
    ∃ field ∈ fields, field.Fails (record.lookup field.name) := by
  have there {field : Field Schema} {place : Nat} (known : fields[place]? = some field) :
      (fields.map (·.name))[place]? = some field.name := by
    rw [List.getElem?_map, known]
    rfl
  cases faulty with
  | unnamed textless =>
      rw [Record.of?_of_unnamed textless] at read
      cases read
  | @repeated _ field members known twice =>
      have once := ((Record.isSome_of?_object _ members).1 (read ▸ rfl)).2 field.name
        (List.mem_map_of_mem known)
      omega
  | @omitted _ field members known required absent =>
      refine ⟨field, known, ?_⟩
      rw [Record.lookup_of?_object read (List.mem_map_of_mem known),
        lookup_eq_none_of_absent absent]
      exact .missing required
  | @short _ field place items known required absent =>
      refine ⟨field, List.mem_of_getElem? known, ?_⟩
      rw [Record.lookup_of?_array distinct read (there known), List.getElem?_eq_none absent]
      exact .missing required
  | @member _ field value members known given inner =>
      have once := ((Record.isSome_of?_object _ members).1 (read ▸ rfl)).2 field.name
        (List.mem_map_of_mem known)
      refine ⟨field, known, ?_⟩
      rw [Record.lookup_of?_object read (List.mem_map_of_mem known), lookup_of_mem once given]
      exact .faulty inner
  | @field _ field value place items known given inner =>
      refine ⟨field, List.mem_of_getElem? known, ?_⟩
      rw [Record.lookup_of?_array distinct read (there known), given]
      exact .faulty inner

end Schema

namespace Record

variable {α β : Type} {codec : Codec α} {schema : Schema} {fields : List (Field Schema)}

/-- `Reads fields build`: a record is built from these fields, each by a codec that follows its
schema. -/
structure Reads (fields : List (Field Schema)) (build : Record → Option α) : Prop where
  heeds : ∀ record record', (∀ field ∈ fields,
    field.Shifts (record.lookup field.name) (record'.lookup field.name)) →
      build record' = build record
  refuses : ∀ record, (∃ field ∈ fields, field.Fails (record.lookup field.name)) →
    build record = none

theorem Reads.nil (value : α) : Reads [] fun _ => some value where
  heeds _ _ _ := rfl
  refuses _ failing := by simp at failing

theorem Reads.cons {field : Field Schema} {next : α → Record → Option β}
    (read : Option Json → Option α)
    (heeds : ∀ given given', field.Shifts given given' → read given' = read given)
    (refuses : ∀ given, field.Fails given → read given = none)
    (rest : ∀ value, Reads fields (next value)) :
    Reads (field :: fields) fun record =>
      read (record.lookup field.name) >>= fun value => next value record where
  heeds record record' shifts := by
    obtain ⟨first, others⟩ := List.forall_mem_cons.1 shifts
    rw [heeds _ _ first]
    exact congrArg (Option.bind _) (funext fun value => (rest value).heeds record record' others)
  refuses record failing := by
    obtain ⟨other, known, fails⟩ := failing
    rcases List.mem_cons.1 known with rfl | known
    · rw [refuses _ fails]
      rfl
    · cases read (record.lookup field.name) with
      | none => rfl
      | some value => exact (rest value).refuses record ⟨other, known, fails⟩

theorem Reads.required {name : String} {next : α → Record → Option β}
    (follows : codec.Follows schema) (rest : ∀ value, Reads fields (next value)) :
    Reads (⟨name, schema, none⟩ :: fields) fun record =>
      record.required name codec >>= fun value => next value record := by
  refine .cons (·.bind codec.decode) (fun given given' shifts => ?_) (fun given fails => ?_) rest
  · cases shifts with
    | same => rfl
    | edited inner => exact follows.heeds _ _ inner
    | writtenOut fallback => cases fallback
  · cases fails with
    | missing => rfl
    | faulty inner => exact follows.refuses _ inner

theorem Reads.defaulted {name : String} {json : Json} {fallback : α}
    {next : α → Record → Option β}
    (follows : codec.Follows schema) (stands : codec.decode json = some fallback)
    (rest : ∀ value, Reads fields (next value)) :
    Reads (⟨name, schema, some json⟩ :: fields) fun record =>
      record.defaulted name codec fallback >>= fun value => next value record := by
  have shape (record : Record) : record.defaulted name codec fallback =
      (record.lookup name).elim (some fallback) codec.decode := by
    unfold Record.defaulted
    cases record.lookup name <;> rfl
  simp only [shape]
  refine .cons (Option.elim · (some fallback) codec.decode) (fun given given' shifts => ?_)
    (fun given fails => ?_) rest
  · cases shifts with
    | same => rfl
    | edited inner => exact follows.heeds _ _ inner
    | writtenOut written =>
        cases written
        exact stands
  · cases fails with
    | missing required => cases required
    | faulty inner => exact follows.refuses _ inner

end Record

theorem Codec.follows_record {α : Type} {codec : Codec α} {fields : List (Field Schema)}
    {build : Record → Option α} (distinct : (fields.map (·.name)).Nodup)
    (decodes : ∀ json, codec.decode json = (Record.of? (fields.map (·.name)) json).bind build)
    (reads : Record.Reads fields build) : codec.Follows (.record fields) where
  heeds json json' edit := by
    obtain ⟨both, shifts⟩ := edit.moves distinct
    rw [decodes, decodes]
    cases before : Record.of? (fields.map (·.name)) json with
    | none =>
        rw [before] at both
        rw [Option.not_isSome_iff_eq_none.1 fun after => Bool.false_ne_true (both.2 after)]
    | some record =>
        obtain ⟨record', after⟩ := Option.isSome_iff_exists.1 (both.1 (before ▸ rfl))
        rw [after]
        exact reads.heeds record record' (shifts record record' before after)
  refuses json faulty := by
    rw [decodes]
    cases read : Record.of? (fields.map (·.name)) json with
    | none => rfl
    | some record => exact reads.refuses record (faulty.fails distinct read)

end Timeslice
