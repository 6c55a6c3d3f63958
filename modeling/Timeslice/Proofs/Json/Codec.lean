import Timeslice.Json.Codec
import Timeslice.Proofs.Json.Printing

/-! # Codecs that read back what they write

A codec restores a value if it decodes the value's own form, and a form without fractions survives
printing. Ranges, options, lists, pairs, names, stores and records each restore what their parts
restore.
-/

namespace Timeslice

namespace Json.Integral

theorem record_nil : Integral (record []) := .object fun _ member => absurd member List.not_mem_nil

theorem record_cons {name : String} {value : Json} {members : List (String × Json)}
    (first : Integral value) (rest : Integral (record members)) :
    Integral (record ((name, value) :: members)) := by
  cases rest with
  | object all =>
      refine .object fun member found => ?_
      rcases List.mem_cons.1 found with rfl | found
      · exact first
      · exact all member found

end Json.Integral

namespace Codec

variable {α β : Type} {codec : Codec α} {value : α}

structure Restores (codec : Codec α) (value : α) : Prop where
  integral : (codec.encode value).Integral
  decodes : codec.decode (codec.encode value) = some value

/-- The text of the value, compact or pretty, is parsed and decoded to the value. -/
structure ReadsBack (codec : Codec α) (value : α) : Prop where
  compact : (Json.parse? (codec.encode value).compact).bind codec.decode = some value
  pretty : (Json.parse? (codec.encode value).pretty).bind codec.decode = some value

theorem Restores.readsBack (restores : codec.Restores value) : codec.ReadsBack value where
  compact := by
    rw [Json.compact, restores.integral.parse?_render Json.Layout.blank_compact]
    exact restores.decodes
  pretty := by
    rw [Json.pretty, restores.integral.parse?_render Json.Layout.blank_pretty]
    exact restores.decodes

/-- The same holds of a pretty text that ends its line. -/
theorem Restores.readsBack_line (restores : codec.Restores value) :
    (Json.parse? ((codec.encode value).pretty ++ "\n")).bind codec.decode = some value := by
  rw [Json.pretty, restores.integral.parse?_render_line Json.Layout.blank_pretty]
  exact restores.decodes

/-! ## Single values -/

theorem restores_bool (b : Bool) : bool.Restores b := ⟨.bool b, rfl⟩

theorem restores_text (s : String) : text.Restores s := ⟨.string (some s), rfl⟩

theorem decode_integer {lo hi i : Int} (fits : lo ≤ i ∧ i ≤ hi) :
    (integer lo hi).decode (.int i) = some i := if_pos fits

theorem restores_integer {lo hi i : Int} (fits : lo ≤ i ∧ i ≤ hi) : (integer lo hi).Restores i :=
  ⟨.int i, decode_integer fits⟩

theorem restores_natural {hi n : Nat} (fits : n ≤ hi) : (natural hi).Restores n := by
  refine ⟨.int n, ?_⟩
  have range : 0 ≤ (n : Int) ∧ (n : Int) ≤ hi := by omega
  show ((integer 0 hi).decode (.int n)).map Int.toNat = _
  rw [decode_integer range, Option.map_some, Int.toNat_natCast]

theorem restores_word {n : Nat} (fits : n ≤ Word.limit) : word.Restores n := restores_natural fits

theorem restores_int32 (v : Int32) : int32.Restores v := by
  refine ⟨.int v.toInt, ?_⟩
  have range : Word.least32 ≤ v.toInt ∧ v.toInt ≤ Word.largest32 :=
    ⟨v.le_toInt, Int.le_of_lt_add_one v.toInt_lt⟩
  show ((integer Word.least32 Word.largest32).decode (.int v.toInt)).map Int32.ofInt = _
  rw [decode_integer range, Option.map_some, Int32.ofInt_toInt]

/-- Names restore their choices if each is the first under its own name. -/
theorem restores_choice {name : α → String} {values : List (String × α)}
    (named : values.lookup (name value) = some value) : (choice name values).Restores value :=
  ⟨.string _, named⟩

/-! ## Values of values -/

/-- What is written item by item is read item by item. -/
theorem mapM_map {write : α → β} {read : β → Option α} {values : List α}
    (inverse : ∀ value ∈ values, read (write value) = some value) :
    (values.map write).mapM read = some values := by
  induction values with
  | nil => rfl
  | cons value values ih =>
      rw [List.map_cons, List.mapM_cons, inverse value List.mem_cons_self,
        ih fun v hv => inverse v (List.mem_cons_of_mem value hv)]
      rfl

theorem restores_none (codec : Codec α) : (option codec).Restores none := ⟨.null, rfl⟩

theorem restores_some (restores : codec.Restores value) (given : codec.encode value ≠ .null) :
    (option codec).Restores (some value) where
  integral := restores.integral
  decodes := by
    have decodes := congrArg (Option.map some) restores.decodes
    show (option codec).decode (codec.encode value) = _
    cases form : codec.encode value with
    | null => exact absurd form given
    | _ => rw [form] at decodes; exact decodes

theorem restores_list {values : List α} (restores : ∀ value ∈ values, codec.Restores value) :
    (list codec).Restores values where
  integral := by
    refine .array fun item member => ?_
    obtain ⟨value, found, rfl⟩ := List.mem_map.1 member
    exact (restores value found).integral
  decodes := mapM_map fun value member => (restores value member).decodes

theorem restores_pair {first : Codec α} {second : Codec β} {a : α} {b : β}
    (left : first.Restores a) (right : second.Restores b) :
    (pair first second).Restores (a, b) where
  integral := by
    refine .array fun item member => ?_
    rcases List.mem_cons.1 member with rfl | member
    · exact left.integral
    · exact List.mem_singleton.1 member ▸ right.integral
  decodes := by
    show (first.decode (first.encode a) >>= fun a => second.decode (second.encode b) >>= _) = _
    rw [left.decodes, right.decodes]
    rfl

end Codec

/-! ## Stores -/

namespace Store

theorem insertEntry_last {name : String} {value : Int32} {entries : List (String × Int32)}
    (last : ∀ entry ∈ entries, entry.1 < name) :
    insertEntry name value entries = entries ++ [(name, value)] := by
  induction entries with
  | nil => rfl
  | cons entry rest ih =>
      have before := last entry List.mem_cons_self
      rw [insertEntry, if_neg (String.lt_asymm before), if_neg (String.ne_of_lt before).symm,
        ih fun e he => last e (List.mem_cons_of_mem entry he)]
      rfl

theorem entries_ofList {entries : List (String × Int32)}
    (sorted : entries.Pairwise fun a b => a.1 < b.1) : (ofList entries).entries = entries := by
  have onto (store : Store) (all : (store.entries ++ entries).Pairwise fun a b => a.1 < b.1) :
      (entries.foldl (fun store entry => store.insert entry.1 entry.2) store).entries =
        store.entries ++ entries := by
    induction entries generalizing store with
    | nil => exact (List.append_nil _).symm
    | cons entry rest ih =>
        have grown : (store.insert entry.1 entry.2).entries = store.entries ++ [entry] :=
          insertEntry_last fun e he =>
            (List.pairwise_append.1 all).2.2 e he entry List.mem_cons_self
        rw [List.foldl_cons, ih (List.pairwise_cons.1 sorted).2 _ (by rw [grown]; simpa using all),
          grown, List.append_assoc]
        rfl
  exact onto empty sorted

@[simp] theorem ofList_entries (store : Store) : ofList store.entries = store := by
  have same := entries_ofList store.sorted
  cases built : ofList store.entries
  rw [built] at same
  cases store
  cases same
  rfl

end Store

theorem Codec.restores_store (s : Store) : Codec.store.Restores s where
  integral := by
    show Json.Integral (.record _)
    induction s.entries with
    | nil => exact .record_nil
    | cons entry rest ih => exact .record_cons (restores_int32 entry.2).integral ih
  decodes := by
    simp only [store, Json.record, List.map_map]
    rw [mapM_map fun entry _ => by
      rw [Function.comp_apply, (restores_int32 entry.2).decodes]
      rfl]
    exact congrArg some s.ofList_entries

/-! ## Records -/

namespace Record

variable {α β : Type} {codec : Codec α} {value : α} {name : String} {record : Record}

/-- An object is read as a record by its members that are fields, none of which may come twice. -/
theorem of?_record_eq (names : List String) (record : Record) : of? names (.record record) =
    if ((record.map (·.1)).filter names.contains).Nodup then
      some (record.filter fun member => names.contains member.1) else none := by
  have whole : (record.map fun member => (some member.1, member.2)).mapM
      (fun member : Option String × Json => do return (← member.1, member.2)) = some record :=
    Codec.mapM_map fun _ _ => rfl
  simp only [of?, Json.record]
  rw [whole, List.filter_map]
  rfl

/-- An object that gives fields of a record in their order, and nothing else, gives just them. -/
theorem of?_record {names : List String} {members : List (String × Json)}
    (distinct : names.Nodup) (ordered : (members.map (·.1)).Sublist names) :
    of? names (.record members) = some members := by
  have known : ∀ member ∈ members, names.contains member.1 := fun member found =>
    List.contains_iff_mem.2 (ordered.subset (List.mem_map_of_mem found))
  have all : (members.map (·.1)).filter names.contains = members.map (·.1) :=
    List.filter_eq_self.2 (List.forall_mem_map.2 known)
  rw [of?_record_eq, all, if_pos (distinct.sublist ordered), List.filter_eq_self.2 known]

/-! A record is decoded field by field: each of these lemmas takes one step of it. -/

theorem bind_of? {names : List String} {members : List (String × Json)} {next : Record → Option β}
    (distinct : names.Nodup) (ordered : (members.map (·.1)).Sublist names) :
    (of? names (.record members) >>= next) = next members := by
  rw [of?_record distinct ordered]
  rfl

theorem bind_required {next : α → Option β}
    (given : record.lookup name = some (codec.encode value)) (restores : codec.Restores value) :
    (record.required name codec >>= next) = next value := by
  rw [required, given]
  exact congrArg (Option.bind · next) restores.decodes

theorem bind_defaulted {fallback : α} {next : α → Option β}
    (given : record.lookup name = some (codec.encode value)) (restores : codec.Restores value) :
    (record.defaulted name codec fallback >>= next) = next value := by
  rw [defaulted, given]
  exact congrArg (Option.bind · next) restores.decodes

/-- A field that is left out where there is no value, and otherwise given without more ado. -/
theorem bind_optional {member : Option α} {next : Option α → Option β}
    (given : record.lookup name = member.map codec.encode)
    (restores : ∀ value ∈ member, codec.Restores value ∧ codec.encode value ≠ .null) :
    (record.defaulted name (.option codec) none >>= next) = next member := by
  cases member with
  | none =>
      rw [defaulted, given]
      rfl
  | some value =>
      obtain ⟨restores, proper⟩ := restores value rfl
      exact bind_defaulted given (Codec.restores_some restores proper)

/-- The members are those of a record, unless some name is no text. -/
theorem exists_named {members : List (Option String × Json)}
    (named : none ∉ members.map (·.1)) :
    ∃ record, Json.object members = .record record := by
  induction members with
  | nil => exact ⟨[], rfl⟩
  | cons member members ih =>
      obtain ⟨record, shape⟩ := ih fun found => named (List.mem_cons_of_mem _ found)
      obtain ⟨_ | text, value⟩ := member
      · exact absurd List.mem_cons_self named
      · cases shape
        exact ⟨(text, value) :: record, rfl⟩

/-- A name that is no text keeps an object from being read. -/
theorem of?_of_unnamed {names : List String} {members : List (Option String × Json)}
    (unnamed : none ∈ members.map (·.1)) : of? names (.object members) = none := by
  obtain ⟨member, found, textless⟩ := List.mem_map.1 unnamed
  have unread : members.mapM (fun member : Option String × Json =>
      do return (← member.1, member.2)) = none := by
    obtain ⟨before, after, rfl⟩ := List.append_of_mem found
    rw [List.mapM_append, List.mapM_cons, textless]
    cases before.mapM (fun member : Option String × Json => do return (← member.1, member.2)) <;>
      rfl
  simp only [of?]
  rw [unread]
  rfl

/-- The fields of an object are among its members. -/
theorem mem_of_of?_object {names : List String} {members : List (Option String × Json)}
    (read : of? names (.object members) = some record) {field : String × Json}
    (found : field ∈ record) : (some field.1, field.2) ∈ members := by
  have named : none ∉ members.map (·.1) := fun unnamed => by
    rw [of?_of_unnamed unnamed] at read
    cases read
  obtain ⟨whole, shape⟩ := exists_named named
  cases shape
  rw [show Json.object _ = .record whole from rfl, of?_record_eq] at read
  obtain ⟨-, same⟩ := Option.ite_none_right_eq_some.1 read
  cases same
  exact List.mem_map_of_mem (List.mem_filter.1 found).1

theorem lookup_of_absent {names : List String} {members : List (Option String × Json)}
    (read : of? names (.object members) = some record)
    (absent : ∀ member ∈ members, member.1 ≠ some name) : record.lookup name = none := by
  refine List.lookup_eq_none_iff.2 fun field found => ?_
  have other := absent _ (mem_of_of?_object read found)
  exact bne_iff_ne.2 fun same => other (congrArg some same.symm)

theorem defaulted_of_omitted {fallback : α} (omitted : record.lookup name = none) :
    record.defaulted name codec fallback = some fallback := by
  rw [defaulted, omitted]

end Record

/-! ## What is decoded -/

namespace Codec

variable {α : Type} {codec : Codec α} {P : α → Prop}

def Ensures (codec : Codec α) (P : α → Prop) : Prop :=
  ∀ json value, codec.decode json = some value → P value

theorem ensures_natural (hi : Nat) : (natural hi).Ensures (· ≤ hi) := by
  intro json value decoded
  obtain ⟨i, read, rfl⟩ := Option.map_eq_some_iff.1 decoded
  cases json with
  | int n =>
      obtain ⟨range, same⟩ := Option.ite_none_right_eq_some.1 read
      cases same
      show i.toNat ≤ hi
      omega
  | _ => cases read

theorem ensures_word : word.Ensures (· ≤ Word.limit) := ensures_natural _

theorem ensures_list (ensures : codec.Ensures P) :
    (list codec).Ensures fun values => ∀ value ∈ values, P value := by
  intro json values decoded
  cases json with
  | array items =>
      replace decoded : items.mapM codec.decode = some values := decoded
      induction items generalizing values with
      | nil =>
          cases decoded
          exact fun value member => absurd member List.not_mem_nil
      | cons item items ih =>
          rw [List.mapM_cons] at decoded
          obtain ⟨first, read, decoded⟩ := Option.bind_eq_some_iff.1 decoded
          obtain ⟨rest, others, same⟩ := Option.bind_eq_some_iff.1 decoded
          cases same
          intro value member
          rcases List.mem_cons.1 member with rfl | member
          · exact ensures item value read
          · exact ih rest others value member
  | _ => cases decoded

end Codec

namespace Record

variable {α : Type} {codec : Codec α} {P : α → Prop} {record : Record} {name : String} {value : α}

theorem of_required (ensures : codec.Ensures P) (read : record.required name codec = some value) :
    P value := by
  obtain ⟨json, -, decoded⟩ := Option.bind_eq_some_iff.1 read
  exact ensures json value decoded

theorem of_defaulted {fallback : α} (ensures : codec.Ensures P) (otherwise : P fallback)
    (read : record.defaulted name codec fallback = some value) : P value := by
  unfold defaulted at read
  cases given : record.lookup name with
  | none =>
      rw [given] at read
      exact Option.some.inj read ▸ otherwise
  | some json =>
      rw [given] at read
      exact ensures json value read

end Record

end Timeslice
