/-!
Dictionaries with text keys, kept in increasing order of the keys. Main statements: what a
dictionary holds after an insertion, and that look-ups determine a dictionary.
-/

set_option autoImplicit false

namespace ClassScript

/-- A finite map from texts, entries in increasing order of the keys. -/
structure Dict (α : Type) where
  entries : List (String × α)
  sorted : entries.Pairwise (fun first second => first.1 < second.1)

namespace Dict

variable {α : Type}

def empty : Dict α :=
  { entries := [], sorted := .nil }

instance : EmptyCollection (Dict α) := ⟨empty⟩

instance : Inhabited (Dict α) := ⟨empty⟩

def lookup (key : String) : List (String × α) → Option α
  | [] => none
  | (other, value) :: rest => if key = other then some value else lookup key rest

/-- Put an entry where its key belongs, in the place of an entry with the same key. -/
def insertEntry (key : String) (value : α) : List (String × α) → List (String × α)
  | [] => [(key, value)]
  | (other, old) :: rest =>
    if key < other then (key, value) :: (other, old) :: rest
    else if key = other then (key, value) :: rest
    else (other, old) :: insertEntry key value rest

private theorem mem_insertEntry {key : String} {value : α} {entries : List (String × α)}
    {entry : String × α} (member : entry ∈ insertEntry key value entries) :
    entry = (key, value) ∨ entry ∈ entries := by
  induction entries with
  | nil => simpa [insertEntry] using member
  | cons head tail ih =>
    obtain ⟨other, old⟩ := head
    simp only [insertEntry] at member
    split at member
    · simpa using member
    · split at member
      · rcases List.mem_cons.mp member with here | there
        · exact .inl here
        · exact .inr (List.mem_cons_of_mem _ there)
      · rcases List.mem_cons.mp member with here | there
        · exact .inr (here ▸ List.mem_cons_self)
        · exact (ih there).imp id (List.mem_cons_of_mem _)

private theorem lt_of_not_lt_of_ne {first second : String} (notLess : ¬first < second)
    (different : first ≠ second) : second < first := by
  apply Classical.byContradiction
  intro notGreater
  exact different (String.le_antisymm (String.not_lt.mp notGreater) (String.not_lt.mp notLess))

private theorem sorted_insertEntry (key : String) (value : α) {entries : List (String × α)}
    (sorted : entries.Pairwise (fun first second => first.1 < second.1)) :
    (insertEntry key value entries).Pairwise (fun first second => first.1 < second.1) := by
  induction entries with
  | nil => simp [insertEntry]
  | cons head tail ih =>
    obtain ⟨other, old⟩ := head
    obtain ⟨above, sortedTail⟩ := List.pairwise_cons.mp sorted
    simp only [insertEntry]
    split
    · rename_i less
      refine List.pairwise_cons.mpr ⟨?_, sorted⟩
      intro entry member
      rcases List.mem_cons.mp member with rfl | there
      · exact less
      · exact String.lt_trans less (above entry there)
    · rename_i notLess
      split
      · rename_i same
        exact List.pairwise_cons.mpr ⟨fun entry member => same ▸ above entry member, sortedTail⟩
      · rename_i different
        refine List.pairwise_cons.mpr ⟨?_, ih sortedTail⟩
        intro entry member
        rcases mem_insertEntry member with rfl | there
        · exact lt_of_not_lt_of_ne notLess different
        · exact above entry there

def find? (dict : Dict α) (key : String) : Option α :=
  lookup key dict.entries

def contains (dict : Dict α) (key : String) : Bool :=
  (dict.find? key).isSome

def insert (dict : Dict α) (key : String) (value : α) : Dict α :=
  { entries := insertEntry key value dict.entries
    sorted := sorted_insertEntry key value dict.sorted }

def insertAll (dict : Dict α) (entries : List (String × α)) : Dict α :=
  entries.foldl (fun dict entry => dict.insert entry.1 entry.2) dict

/-- The dictionary of some entries; of two with one key the later one stays. -/
def ofList (entries : List (String × α)) : Dict α :=
  empty.insertAll entries

def size (dict : Dict α) : Nat :=
  dict.entries.length

def keys (dict : Dict α) : List String :=
  dict.entries.map Prod.fst

private theorem lookup_insertEntry (key other : String) (value : α) (entries : List (String × α)) :
    lookup other (insertEntry key value entries) =
      if other = key then some value else lookup other entries := by
  induction entries with
  | nil => simp [insertEntry, lookup]
  | cons head tail ih =>
    obtain ⟨first, old⟩ := head
    simp only [insertEntry]
    split
    · simp [lookup]
    · split
      · rename_i same
        subst same
        simp only [lookup]
        split <;> rfl
      · rename_i different
        simp only [lookup, ih]
        split
        · rename_i here
          subst here
          simp [Ne.symm different]
        · rfl

@[simp] theorem find?_empty (key : String) : (empty : Dict α).find? key = none := rfl

theorem find?_insert (dict : Dict α) (key other : String) (value : α) :
    (dict.insert key value).find? other = if other = key then some value else dict.find? other :=
  lookup_insertEntry key other value dict.entries

@[simp] theorem find?_insert_self (dict : Dict α) (key : String) (value : α) :
    (dict.insert key value).find? key = some value := by
  simp [find?_insert]

theorem find?_insert_of_ne {dict : Dict α} {key other : String} {value : α}
    (different : other ≠ key) : (dict.insert key value).find? other = dict.find? other := by
  simp [find?_insert, different]

theorem contains_insert (dict : Dict α) (key other : String) (value : α) :
    (dict.insert key value).contains other = (decide (other = key) || dict.contains other) := by
  rw [contains, contains, find?_insert]
  by_cases same : other = key <;> simp [same]

theorem contains_insertAll (dict : Dict α) (entries : List (String × α)) (key : String) :
    (dict.insertAll entries).contains key ↔ dict.contains key ∨ key ∈ entries.map Prod.fst := by
  induction entries generalizing dict with
  | nil => simp [insertAll]
  | cons entry rest ih =>
    have inserted := ih (dict.insert entry.1 entry.2)
    rw [contains_insert, Bool.or_eq_true, decide_eq_true_iff, or_comm (a := key = entry.1),
      or_assoc] at inserted
    rw [List.map_cons, List.mem_cons]
    exact inserted

private theorem lookup_eq_none_of_lt {key : String} {entries : List (String × α)}
    (above : ∀ entry ∈ entries, key < entry.1) : lookup key entries = none := by
  induction entries with
  | nil => rfl
  | cons head tail ih =>
    obtain ⟨other, value⟩ := head
    have less : key < other := above _ List.mem_cons_self
    have different : key ≠ other := by
      rintro rfl
      exact String.lt_irrefl key less
    rw [lookup, if_neg different]
    exact ih fun entry member => above entry (List.mem_cons_of_mem _ member)

private theorem entries_eq_of_lookup {first second : List (String × α)}
    (sorted : first.Pairwise (fun one other => one.1 < other.1))
    (sorted' : second.Pairwise (fun one other => one.1 < other.1))
    (same : ∀ key, lookup key first = lookup key second) : first = second := by
  induction first generalizing second with
  | nil =>
    cases second with
    | nil => rfl
    | cons head tail => simpa [lookup] using same head.1
  | cons head tail ih =>
    cases second with
    | nil => simpa [lookup] using same head.1
    | cons head' tail' =>
      obtain ⟨key, value⟩ := head
      obtain ⟨key', value'⟩ := head'
      obtain ⟨above, sortedTail⟩ := List.pairwise_cons.mp sorted
      obtain ⟨above', sortedTail'⟩ := List.pairwise_cons.mp sorted'
      -- The smallest key of each side is a key of the other side.
      have notLess : ¬key < key' := by
        intro less
        have absent : lookup key ((key', value') :: tail') = none := by
          refine lookup_eq_none_of_lt fun entry member => ?_
          rcases List.mem_cons.mp member with rfl | there
          · exact less
          · exact String.lt_trans less (above' entry there)
        have found := (same key).trans absent
        simp [lookup] at found
      have notGreater : ¬key' < key := by
        intro less
        have absent : lookup key' ((key, value) :: tail) = none := by
          refine lookup_eq_none_of_lt fun entry member => ?_
          rcases List.mem_cons.mp member with rfl | there
          · exact less
          · exact String.lt_trans less (above entry there)
        have found := (same key').symm.trans absent
        simp [lookup] at found
      obtain rfl : key = key' :=
        String.le_antisymm (String.not_lt.mp notGreater) (String.not_lt.mp notLess)
      have values : value = value' := by simpa [lookup] using same key
      have tails : tail = tail' := by
        refine ih sortedTail sortedTail' fun other => ?_
        by_cases here : other = key
        · rw [here, lookup_eq_none_of_lt above, lookup_eq_none_of_lt above']
        · simpa [lookup, here] using same other
      rw [values, tails]

theorem ext_find? {first second : Dict α} (same : ∀ key, first.find? key = second.find? key) :
    first = second := by
  obtain ⟨entries, sorted⟩ := first
  obtain ⟨entries', sorted'⟩ := second
  obtain rfl : entries = entries' := entries_eq_of_lookup sorted sorted' same
  rfl

end Dict

end ClassScript
