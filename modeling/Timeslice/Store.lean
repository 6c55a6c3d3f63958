/-! # Data stores

A store gives names their values. Its entries are kept in the order of their names, which is the
order of code points, so that two stores with the same values are equal.
-/

namespace Timeslice

/-- Names with their values, in strictly increasing order of the names. -/
structure Store where
  entries : List (String × Int32)
  sorted : entries.Pairwise (fun a b => a.1 < b.1)
  deriving DecidableEq

namespace Store

def empty : Store := ⟨[], List.Pairwise.nil⟩

instance : Inhabited Store := ⟨empty⟩

/-- Writes an entry at its place, over an entry of the same name. -/
def insertEntry (name : String) (value : Int32) :
    List (String × Int32) → List (String × Int32)
  | [] => [(name, value)]
  | entry :: rest =>
    if name < entry.1 then (name, value) :: entry :: rest
    else if name = entry.1 then (name, value) :: rest
    else entry :: insertEntry name value rest

theorem lt_of_not_lt {a b : String} (h : ¬ a < b) (hne : a ≠ b) : b < a := by
  by_cases hba : b < a
  · exact hba
  · exact (hne (String.le_antisymm hba h)).elim

theorem mem_insertEntry {name : String} {value : Int32} {entry : String × Int32}
    {entries : List (String × Int32)} (h : entry ∈ insertEntry name value entries) :
    entry = (name, value) ∨ entry ∈ entries := by
  induction entries with
  | nil => simpa [insertEntry] using h
  | cons first rest ih =>
    simp only [insertEntry] at h
    split at h
    · simpa using h
    · split at h
      · rcases List.mem_cons.1 h with h | h
        · exact .inl h
        · exact .inr (List.mem_cons_of_mem _ h)
      · rcases List.mem_cons.1 h with h | h
        · exact .inr (h ▸ List.mem_cons_self)
        · exact (ih h).imp_right (List.mem_cons_of_mem _)

theorem pairwise_insertEntry (name : String) (value : Int32) {entries : List (String × Int32)}
    (h : entries.Pairwise (fun a b => a.1 < b.1)) :
    (insertEntry name value entries).Pairwise (fun a b => a.1 < b.1) := by
  induction entries with
  | nil => simp [insertEntry]
  | cons first rest ih =>
    obtain ⟨hfirst, hrest⟩ := List.pairwise_cons.1 h
    simp only [insertEntry]
    split
    · refine List.pairwise_cons.2 ⟨fun entry hmem => ?_, h⟩
      rcases List.mem_cons.1 hmem with rfl | hmem
      · assumption
      · exact String.lt_trans ‹_› (hfirst entry hmem)
    · split
      · rename_i heq
        exact List.pairwise_cons.2 ⟨fun entry hmem => heq ▸ hfirst entry hmem, hrest⟩
      · refine List.pairwise_cons.2 ⟨fun entry hmem => ?_, ih hrest⟩
        rcases mem_insertEntry hmem with rfl | hmem
        · exact lt_of_not_lt ‹_› ‹_›
        · exact hfirst entry hmem

/-- Gives `name` the value `value`, whether it had one or not. -/
def insert (store : Store) (name : String) (value : Int32) : Store :=
  ⟨insertEntry name value store.entries, pairwise_insertEntry name value store.sorted⟩

def get? (store : Store) (name : String) : Option Int32 := store.entries.lookup name

/-- The store of a list of entries, of which a later one of the same name wins. -/
def ofList (entries : List (String × Int32)) : Store :=
  entries.foldl (fun store entry => store.insert entry.1 entry.2) empty

theorem lookup_entry (key : String) (entry : String × Int32) (rest : List (String × Int32)) :
    (entry :: rest).lookup key = if key = entry.1 then some entry.2 else rest.lookup key := by
  rw [List.lookup_cons]
  by_cases h : key = entry.1
  · simp [h]
  · simp [h, beq_eq_false_iff_ne.2 h]

theorem lookup_insertEntry (name : String) (value : Int32) (entries : List (String × Int32))
    (key : String) :
    (insertEntry name value entries).lookup key =
      if key = name then some value else entries.lookup key := by
  induction entries with
  | nil => rw [insertEntry, lookup_entry]
  | cons entry rest ih =>
    rw [insertEntry]
    split
    · rw [lookup_entry]
    · split
      · rename_i heq
        rw [lookup_entry, lookup_entry]
        by_cases h : key = name
        · simp [h]
        · simp [h, heq ▸ h]
      · rename_i hne
        rw [lookup_entry, lookup_entry, ih]
        by_cases h : key = entry.1
        · simp [h, show ¬ entry.1 = name from fun hn => hne hn.symm]
        · simp [h]

/-- Reading after a write gives the value written under its own name, and what was there before
under any other. -/
theorem get?_insert (store : Store) (name : String) (value : Int32) (key : String) :
    (store.insert name value).get? key = if key = name then some value else store.get? key :=
  lookup_insertEntry name value store.entries key

end Store

end Timeslice
