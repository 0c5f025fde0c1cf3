import ClassScript.Proofs.Bytes
import ClassScript.Proofs.FloatFields
import ClassScript.Run.Access

/-!
Items of containers: slots of arrays, keys of maps and characters of strings. Main statement:
writing changes what is read at one place and nothing else.
-/

set_option autoImplicit false

namespace ClassScript

open Run

namespace Text

private theorem encoded_lt_of_lt {c d : Char} (less : c < d) (cs ds : List UInt8) :
    String.utf8EncodeChar c ++ cs < String.utf8EncodeChar d ++ ds := by
  have less : c.val.toNat < d.val.toNat := less
  have bound : d.val.toNat < 1114112 := by
    rcases d.valid with low | high
    · exact Nat.lt_trans low (by decide)
    · exact high.2
  unfold String.utf8EncodeChar
  simp only
  rcases Nat.lt_or_ge (c.val.toNat / 64) (d.val.toNat / 64) with upper | upper <;>
    rcases Nat.lt_or_ge (c.val.toNat / 4096) (d.val.toNat / 4096) with third | third <;>
      split_ifs <;>
        simp only [List.cons_append, List.nil_append, List.cons_lt_cons_iff, UInt8.lt_iff_toNat_lt,
          ← UInt8.toNat_inj, UInt8.toNat_ofNat'] <;> omega

end Text

private theorem Text.bytes_lt_of_lt {first second : String} (less : first < second) :
    bytes first < bytes second := by
  rw [bytes_eq_encoded, bytes_eq_encoded]
  have less : first.toList < second.toList := less
  generalize first.toList = cs at less
  generalize second.toList = ds at less
  induction cs generalizing ds with
  | nil =>
    cases ds with
    | nil => exact absurd less (List.lt_irrefl _)
    | cons d ds =>
      obtain ⟨lead, tail, split, -⟩ := utf8EncodeChar_eq_cons d
      rw [encoded_cons, split]
      exact List.nil_lt_cons _ _
  | cons c cs ih =>
    cases ds with
    | nil => exact absurd less (List.not_lt_nil _)
    | cons d ds =>
      rcases List.cons_lt_cons_iff.mp less with less | ⟨rfl, rest⟩
      · exact encoded_lt_of_lt less _ _
      · exact List.append_left_lt (ih ds rest)

theorem Dict.keys_increase {α : Type} (dict : Dict α) :
    dict.keys.Pairwise fun first second => Text.bytes first < Text.bytes second :=
  List.pairwise_map.mpr (dict.sorted.imp Text.bytes_lt_of_lt)

theorem Dict.mem_keys_iff {α : Type} (dict : Dict α) (key : String) :
    key ∈ dict.keys ↔ (dict.find? key).isSome := by
  obtain ⟨entries, sorted⟩ := dict
  simp only [keys, find?]
  clear sorted
  induction entries with
  | nil => simp [lookup]
  | cons entry rest ih =>
    by_cases same : key = entry.1
    · simp [lookup, same]
    · simpa [lookup, same] using ih

namespace Run

/-- The slot of an array or the key of a map that an index means. -/
inductive Means : Value → Value → Place → Prop where
  | slot {ref : ArrayRef} {x : Float} {n : Nat} (counts : Number.Counts x n) :
    Means (.array ref) (.number x) (.slot ref n)
  | key {ref : MapRef} {key : String} : Means (.map ref) (.text key) (.key ref key)

structure Written (store : Store) (place : Place) (value : Value) (after : Store) : Prop where
  here : ∀ object index, Means object index place → readIndex after object index = .ok value
  elsewhere : ∀ object index, ¬Means object index place →
    readIndex after object index = readIndex store object index
  arrays : ∀ ref, (∀ n, place ≠ .slot ref n) → after.arrays[ref]? = store.arrays[ref]?
  maps : ∀ ref, (∀ key, place ≠ .key ref key) → after.maps[ref]? = store.maps[ref]?
  others : after = { store with arrays := after.arrays, maps := after.maps }
  lengths : ∀ ref, (after.items ref).size = (store.items ref).size
  keys : ∀ ref key, key ∈ (after.entries ref).keys ↔
    key ∈ (store.entries ref).keys ∨ place = .key ref key
  increasing : ∀ ref, (after.entries ref).keys.Pairwise fun first second =>
    Text.bytes first < Text.bytes second

private theorem slot_eq_ok_iff {index : Value} {length n : Nat} :
    slot index length = .ok n ↔ n < length ∧ ∃ x, index = .number x ∧ Number.Counts x n := by
  cases index with
  | number x =>
    simp only [slot, Value.number.injEq, exists_eq_left', ← Number.natural?_eq_some_iff]
    cases Number.natural? x <;> grind
  | _ => simp [slot]

private theorem items_setItem (store : Store) (ref other : ArrayRef) (n : Nat) (value : Value) :
    (store.setItem ref n value).items other =
      if ref = other then (store.items other).setIfInBounds n value else store.items other := by
  simp only [Store.setItem, Store.items, Array.getElem?_modify]
  split
  · cases store.arrays[other]? <;> rfl
  · rfl

private theorem written_slot {store : Store} {ref : ArrayRef} {n : Nat}
    (inside : n < (store.items ref).size) (value : Value) :
    Written store (.slot ref n) value (store.setItem ref n value) where
  here object index means := by
    cases means with
    | slot counts =>
      have found := slot_eq_ok_iff.mpr ⟨inside, _, rfl, counts⟩
      simp only [readIndex, items_setItem, if_pos, Array.size_setIfInBounds, found]
      simp [Bind.bind, Except.bind, inside]
  elsewhere object index apart := by
    cases object with
    | array other =>
      simp only [readIndex, items_setItem]
      split
      next same =>
        subst same
        rw [Array.size_setIfInBounds]
        cases found : slot index (store.items ref).size with
        | error fault => rfl
        | ok m =>
          obtain ⟨-, x, rfl, counts⟩ := slot_eq_ok_iff.mp found
          have different : n ≠ m := by
            rintro rfl
            exact apart (.slot counts)
          simp [Bind.bind, Except.bind, different]
      · rfl
    | _ => rfl
  arrays other apart := by
    have different : ref ≠ other := by
      rintro rfl
      exact apart n rfl
    simp [Store.setItem, Array.getElem?_modify, different]
  maps _ _ := rfl
  others := rfl
  lengths other := by
    rw [items_setItem]
    split <;> simp
  keys _ _ := by simp [Store.setItem, Store.entries]
  increasing _ := Dict.keys_increase _

private theorem entries_setEntry {store : Store} {ref : MapRef} (live : ref < store.maps.size)
    (other : MapRef) (key : String) (value : Value) :
    (store.setEntry ref key value).entries other =
      if ref = other then (store.entries other).insert key value else store.entries other := by
  simp only [Store.setEntry, Store.entries, Array.getElem?_modify]
  split
  next same =>
    subst same
    simp [live]
  · rfl

private theorem written_key {store : Store} {ref : MapRef} (live : ref < store.maps.size)
    (key : String) (value : Value) :
    Written store (.key ref key) value (store.setEntry ref key value) where
  here object index means := by
    cases means with
    | key => simp [readIndex, mapKey, entries_setEntry live, Bind.bind, Except.bind]
  elsewhere object index apart := by
    cases object with
    | map other =>
      cases index with
      | text found =>
        have different : ref = other → found ≠ key := by
          rintro rfl rfl
          exact apart .key
        simp only [readIndex, mapKey, entries_setEntry live]
        split
        next same => simp [Bind.bind, Except.bind, Dict.find?_insert, different same]
        · rfl
      | _ => rfl
    | _ => rfl
  arrays _ _ := rfl
  maps other apart := by
    have different : ref ≠ other := by
      rintro rfl
      exact apart key rfl
    simp [Store.setEntry, Array.getElem?_modify, different]
  others := rfl
  lengths _ := rfl
  keys other found := by
    rw [Dict.mem_keys_iff, Dict.mem_keys_iff, entries_setEntry live]
    by_cases same : ref = other
    · subst same
      by_cases here : key = found
      · simp [here]
      · simp [here, Dict.find?_insert, Ne.symm here]
    · simp [same]
  increasing _ := Dict.keys_increase _

private theorem slot_eq_ok_iff_means {ref : ArrayRef} {index : Value} {length n : Nat} :
    slot index length = .ok n ↔ n < length ∧ Means (.array ref) index (.slot ref n) := by
  rw [slot_eq_ok_iff]
  constructor
  · rintro ⟨inside, x, rfl, counts⟩
    exact ⟨inside, .slot counts⟩
  · rintro ⟨inside, means⟩
    cases means with
    | slot counts => exact ⟨inside, _, rfl, counts⟩

section Writing

variable {store after : Store} {object index value : Value} {machine : Machine}
  {fault : RuntimeFault}

private theorem written_of_writeIndex (live : ∀ ref, object = .map ref → ref < store.maps.size)
    (writes : writeIndex store object index value = .ok after) :
    ∃ place, Means object index place ∧ Written store place value after := by
  cases object with
  | array ref =>
    simp only [writeIndex, findPlace] at writes
    cases found : slot index (store.items ref).size with
    | error fault => simp [found, Bind.bind, Except.bind] at writes
    | ok n =>
      obtain ⟨inside, means⟩ := slot_eq_ok_iff_means.mp found
      simp only [found, Bind.bind, Except.bind, put, Except.ok.injEq] at writes
      exact ⟨_, means, writes ▸ written_slot inside value⟩
  | map ref =>
    cases index with
    | text key =>
      simp only [writeIndex, findPlace, mapKey, Bind.bind, Except.bind, put,
        Except.ok.injEq] at writes
      exact ⟨_, .key, writes ▸ written_key (live ref rfl) key value⟩
    | _ => cases writes
  | _ => cases writes

private theorem assignIndex_of_ok (writes : writeIndex machine.store object index value = .ok after)
    (position : Position) :
    assignIndex object index value position machine = .done () { machine with store := after } := by
  simp only [writeIndex] at writes
  simp only [assignIndex, Bind.bind, Eval.inspect]
  cases found : findPlace machine.store object index with
  | error fault => simp [found, Bind.bind, Except.bind] at writes
  | ok place =>
    rw [found] at writes
    cases writes
    rfl

private theorem assignIndex_of_error
    (fails : writeIndex machine.store object index value = .error fault) (position : Position) :
    assignIndex object index value position machine =
      .stopped (.fault { value := fault, position }) machine := by
  simp only [writeIndex] at fails
  simp only [assignIndex, Bind.bind, Eval.inspect]
  cases found : findPlace machine.store object index with
  | error fault =>
    rw [found] at fails
    cases fails
    rfl
  | ok place => simp [found, Bind.bind, Except.bind] at fails

end Writing

private theorem reads_characters (store : Store) {text : String} {indices : List Float}
    {front back : List Char} (whole : text.toList = front ++ back)
    (counted : List.Forall₂ Number.Counts indices (List.range' front.length back.length)) :
    (indices.mapM fun x => readIndex store (.text text) (.number x)) =
      .ok (back.map fun c => .text (String.ofList [c])) := by
  induction back generalizing front indices with
  | nil =>
    cases counted
    rfl
  | cons c rest ih =>
    cases counted with
    | @cons x _ others _ counts rest =>
      have inside : front.length < text.toList.length := by simp [whole]
      have found := slot_eq_ok_iff.mpr ⟨inside, x, rfl, counts⟩
      have here : text.toList[front.length]? = some c := by simp [whole]
      have first : readIndex store (.text text) (.number x) = .ok (.text (String.ofList [c])) := by
        simp [readIndex, found, here, Bind.bind, Except.bind]
      have next := @ih others (front ++ [c]) (by simp [whole]) (by simpa using rest)
      simp [first, next, Bind.bind, Except.bind, Pure.pure, Except.pure]

private theorem join_characters (characters : List Char) :
    String.join (characters.map fun c => String.ofList [c]) = String.ofList characters := by
  refine String.toList_inj.mp ?_
  induction characters with
  | nil => rfl
  | cons c rest ih => simpa [String.toList_join] using ih

end Run

/-- Containers keep what is put into them. An item of an array can be written exactly if it can be
read, which it can if the index is exactly a natural number below the length; a map can be written
exactly at texts. After that, whatever means the place reads the value, and everything else is as
it was: other slots and keys, other containers and the rest of the store; the array has its length
and the map its keys, with at most one more, in increasing order of their bytes. An item that cannot
be read or written leaves the machine as it is. And a string is its characters, put together. -/
theorem containers_keep_what_is_put (store : Store) (object index value : Value)
    (live : ∀ ref, object = .map ref → ref < store.maps.size) :
    (∀ ref, object = .array ref →
      ((∃ after, writeIndex store object index value = .ok after) ↔
        ∃ found, readIndex store object index = .ok found) ∧
      ((∃ found, readIndex store object index = .ok found) ↔
        ∃ n, n < (store.items ref).size ∧ Means object index (.slot ref n))) ∧
    (∀ ref, object = .map ref →
      ((∃ after, writeIndex store object index value = .ok after) ↔ ∃ key, index = .text key)) ∧
    (∀ after, writeIndex store object index value = .ok after →
      ∃ place, Means object index place ∧ Written store place value after) ∧
    (∀ machine position, machine.store = store →
      (∀ after, writeIndex store object index value = .ok after →
        assignIndex object index value position machine =
          .done () { machine with store := after }) ∧
      (∀ fault, writeIndex store object index value = .error fault →
        assignIndex object index value position machine =
          .stopped (.fault { value := fault, position }) machine) ∧
      ∀ fault, readIndex store object index = .error fault →
        (Eval.inspect (readIndex · object index) >>= Eval.attempt position) machine =
          .stopped (.fault { value := fault, position }) machine) ∧
    ∀ (text : String) (indices : List Float),
      List.Forall₂ Number.Counts indices (List.range text.length) →
        ∃ parts, (indices.mapM fun x => readIndex store (.text text) (.number x)) =
          .ok (parts.map Value.text) ∧ String.join parts = text := by
  refine ⟨?_, ?_, fun after => written_of_writeIndex live, ?_, ?_⟩
  · rintro ref rfl
    simp only [← slot_eq_ok_iff_means, writeIndex, findPlace, readIndex]
    cases slot index (store.items ref).size <;> simp [Bind.bind, Except.bind]
  · rintro ref rfl
    cases index <;> simp [writeIndex, findPlace, mapKey, Bind.bind, Except.bind]
  · rintro machine position rfl
    refine ⟨fun after writes => assignIndex_of_ok writes position,
      fun fault fails => assignIndex_of_error fails position, fun fault fails => ?_⟩
    simp only [Bind.bind, Eval.inspect, fails]
    rfl
  · intro text indices counted
    rw [List.range_eq_range', ← String.length_toList] at counted
    refine ⟨text.toList.map fun c => String.ofList [c], ?_, ?_⟩
    · rw [reads_characters store (List.nil_append _).symm counted, List.map_map]
      rfl
    · rw [join_characters, String.ofList_toList]

def oneArray : Store :=
  { Store.initial with arrays := #[#[.text "x", .nil]] }

private theorem counts_zero : Number.Counts 0.0 0 := by
  unfold Number.Counts Number.Measures
  decide +kernel

private theorem counts_one : Number.Counts 1.0 1 := by
  unfold Number.Counts Number.Measures
  decide +kernel

private theorem not_counts_half (n : Nat) : ¬Number.Counts 0.5 n := fun counts => by
  have none : Number.natural? 0.5 = none := by decide +kernel
  exact Option.some_ne_none n ((Number.natural?_eq_some_iff.mpr counts).symm.trans none)

/-- The second of two items is given a value, which whatever means its slot reads; no item stands
at a half; and a string of two characters is put together from them. -/
theorem second_item_keeps_what_is_put :
    (∃ after, writeIndex oneArray (.array 0) (.number 1.0) (.text "y") = .ok after ∧
      Written oneArray (.slot 0 1) (.text "y") after) ∧
    (¬∃ found, readIndex oneArray (.array 0) (.number 0.5) = .ok found) ∧
    ∃ parts, ([0.0, 1.0].mapM fun x => readIndex oneArray (.text "hé") (.number x)) =
      .ok (parts.map Value.text) ∧ String.join parts = "hé" := by
  have laws (index : Value) := containers_keep_what_is_put oneArray (.array 0) index (.text "y")
    fun ref same => Value.noConfusion same
  refine ⟨?_, ?_, ?_⟩
  · have readable : ∃ found, readIndex oneArray (.array 0) (.number 1.0) = .ok found :=
      ((laws _).1 0 rfl).2.mpr ⟨1, by decide, .slot counts_one⟩
    obtain ⟨after, writes⟩ := ((laws _).1 0 rfl).1.mpr readable
    obtain ⟨place, means, written⟩ := (laws _).2.2.1 after writes
    cases means with
    | @slot _ _ n counts =>
      obtain rfl : 1 = n := Option.some.inj <|
        (Number.natural?_eq_some_iff.mpr counts_one).symm.trans
          (Number.natural?_eq_some_iff.mpr counts)
      exact ⟨after, writes, written⟩
  · intro readable
    obtain ⟨n, -, means⟩ := ((laws _).1 0 rfl).2.mp readable
    cases means with
    | slot counts => exact not_counts_half n counts
  · exact (laws .nil).2.2.2.2 "hé" [0.0, 1.0] (.cons counts_zero (.cons counts_one .nil))

end ClassScript
