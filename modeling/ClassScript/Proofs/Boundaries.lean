import ClassScript.Proofs.TokenPlaces
import Mathlib.Data.List.Infix

/-!
Whole characters. Main statement: scanning stops inside a character only after an invalid escape,
and no other character has two faults.
-/

set_option autoImplicit false

namespace ClassScript.Token

open Lexeme Text

/-- The places between two characters of a text, as numbers of bytes. -/
def boundaries (text : String) : List Nat :=
  text.toList.inits.map fun before => (encoded before).length

namespace Scanner

/-- A scanner over a text after any calls of `next` and `reset`. -/
inductive Reached (text : String) : Scanner → Prop where
  | fresh : Reached text (.ofText text)
  | next {scanner : Scanner} (reached : Reached text scanner) : Reached text scanner.next.2
  | reset {scanner : Scanner} (reached : Reached text scanner) : Reached text scanner.reset

def bytesRead (scanner : Scanner) : Nat :=
  (bytes scanner.text).length - scanner.cursor.elim 0 Cursor.bytesLeft

end Scanner

/-- How a call of `next` that yields an item lies in the text, by the bytes where it starts and
stops. -/
inductive Spans (text : String) : Nat → Item → Nat → Prop where
  /-- From one place between characters to another. -/
  | whole {start stop : Nat} {item : Item} (starts : start ∈ boundaries text)
    (stops : stop ∈ boundaries text)
    (unbroken : ∀ position, item ≠ .error ⟨.brokenCharacter, position⟩) :
    Spans text start item stop
  /-- Up to the first byte of a character that an escape does not go with. -/
  | tears {start : Nat} {before after : List Char} {c : Char} {position : Position}
    (starts : start ∈ boundaries text) (split : text.toList = before ++ '\\' :: c :: after)
    (wide : 1 < c.utf8Size) :
    Spans text start (.error ⟨.invalidEscape (leadingByte c), position⟩)
      ((encoded before).length + 2)
  /-- The rest of that character. -/
  | remains {before after : List Char} {c : Char} {position : Position}
    (split : text.toList = before ++ '\\' :: c :: after) (wide : 1 < c.utf8Size) :
    Spans text ((encoded before).length + 2) (.error ⟨.brokenCharacter, position⟩)
      ((encoded before).length + 1 + c.utf8Size)

/-- The byte that a fault with a character is about: the character that begins no token, or the one
after the backslash. -/
def reportedByte? : Nat × Item → Option Nat
  | (offset, .error ⟨.unexpected _, _⟩) => some offset
  | (offset, .error ⟨.brokenCharacter, _⟩) => some offset
  | (offset, .error ⟨.invalidEscape _, _⟩) => some (offset + 1)
  | _ => none

/-- Whether the item is a fault about a byte of the character that begins at the given byte. -/
def reports (start : Nat) (c : Char) (entry : Nat × Item) : Bool :=
  (reportedByte? entry).any fun byte => start ≤ byte && byte < start + c.utf8Size

variable {cursor next : Cursor} {item : Item} {after before : List Char} {offset start : Nat}

theorem Cursor.placed_of_item (found : cursor.step = .item item next) (offset : Nat) :
    cursor.placed offset =
      (offsetOf offset (offset + (cursor.bytesLeft - next.bytesLeft)) item, item) ::
        next.placed (offset + (cursor.bytesLeft - next.bytesLeft)) := by
  rw [placed.eq_def]
  split <;> simp_all

private theorem mem_boundaries {text : String} (split : text.toList = before ++ after) :
    (encoded before).length ∈ boundaries text :=
  List.mem_map.mpr ⟨before, (List.mem_inits _ _).mpr ⟨after, split.symm⟩, rfl⟩

inductive Stands (text : List Char) : Nat → Cursor → Prop where
  | between {before rest : List Char} {position : Position} (split : text = before ++ rest) :
    Stands text (encoded before).length ⟨rest, 0, position⟩
  | inside {before rest : List Char} {c : Char} {position : Position}
    (split : text = before ++ '\\' :: c :: rest) (wide : 1 < c.utf8Size) :
    Stands text ((encoded before).length + 2) ⟨rest, c.utf8Size - 1, position⟩

private theorem encoded_backslash (before : List Char) (c : Char) :
    (encoded (before ++ ['\\', c])).length = (encoded before).length + 1 + c.utf8Size := by
  have backslash : (String.utf8EncodeChar '\\').length = 1 := rfl
  simp only [encoded_append, encoded_cons, encoded_nil, List.length_append, List.length_nil,
    String.length_utf8EncodeChar] at backslash ⊢
  omega

namespace Stands

variable {text : List Char} {offset : Nat} {cursor : Cursor}

theorem add_bytesLeft (stands : Stands text offset cursor) :
    offset + cursor.bytesLeft = (encoded text).length := by
  cases stands with
  | between split =>
    rw [Cursor.bytesLeft_eq, split, encoded_append, List.length_append]
    rfl
  | @inside before rest c _ split wide =>
    have size := encoded_backslash before c
    have whole : text = before ++ ['\\', c] ++ rest := by simp [split]
    rw [Cursor.bytesLeft_eq, whole, encoded_append, List.length_append, size]
    omega

end Stands

/-- What a step does, by the characters that it finds: the place, how many bytes of a character are
still to come there, the step, and the place behind it. -/
inductive Moves (text : List Char) : Nat → Nat → Step → Nat → Prop where
  | blank {before raw rest : List Char} {position : Position}
    (split : text = before ++ raw ++ rest) :
    Moves text (encoded before).length 0 (.blank ⟨rest, 0, position⟩)
      (encoded (before ++ raw)).length
  | plain {before raw rest : List Char} {item : Item} {position : Position}
    (split : text = before ++ raw ++ rest)
    (silent : ∀ offset, reportedByte? (offset, item) = none) :
    Moves text (encoded before).length 0 (.item item ⟨rest, 0, position⟩)
      (encoded (before ++ raw)).length
  | unexpected {before rest : List Char} {c : Char} {position position' : Position}
    (split : text = before ++ c :: rest) :
    Moves text (encoded before).length 0
      (.item (.error ⟨.unexpected c, position⟩) ⟨rest, 0, position'⟩)
      ((encoded before).length + c.utf8Size)
  | escape {before raw rest : List Char} {c : Char} {position position' : Position}
    (split : text = before ++ raw ++ '\\' :: c :: rest) :
    Moves text (encoded before).length 0 (.item (.error ⟨.invalidEscape (leadingByte c), position⟩)
      ⟨rest, c.utf8Size - 1, position'⟩) ((encoded (before ++ raw)).length + 2)
  | torn {before rest : List Char} {c : Char} {position position' : Position}
    (split : text = before ++ '\\' :: c :: rest) (wide : 1 < c.utf8Size) :
    Moves text ((encoded before).length + 2) (c.utf8Size - 1)
      (.item (.error ⟨.brokenCharacter, position⟩) ⟨rest, 0, position'⟩)
      ((encoded before).length + 1 + c.utf8Size)
  | finish {position : Position} :
    Moves text (encoded text).length 0 (.finish { kind := .finish, lexeme := "", position })
      (encoded text).length

namespace Moves

variable {text : List Char} {offset torn stop : Nat} {step : Step} {item : Item} {next : Cursor}

private theorem past (moves : Moves text offset torn step stop) : offset + torn ≤ stop := by
  cases moves with
  | torn split wide => omega
  | unexpected split => exact Nat.le_add_right _ _
  | finish => exact Nat.le_refl _
  | _ =>
    simp only [encoded_append, List.length_append]
    omega

private theorem stands (moves : Moves text offset torn step stop)
    (goes : step = .blank next ∨ ∃ item, step = .item item next) : Stands text stop next := by
  obtain rfl | ⟨item, rfl⟩ := goes
  · cases moves with
    | blank split => exact .between split
  cases moves with
  | plain split silent => exact .between split
  | @unexpected before rest c _ _ split =>
    have size : (encoded (before ++ [c])).length = (encoded before).length + c.utf8Size := by
      simp [encoded_append, encoded_cons, encoded_nil]
    exact size ▸ .between (by simp [split])
  | @escape before raw rest c _ position split =>
    by_cases wide : 1 < c.utf8Size
    · exact .inside split wide
    · have size := encoded_backslash (before ++ raw) c
      have positive := c.utf8Size_pos
      have narrow : c.utf8Size - 1 = 0 := by omega
      have stop : (encoded (before ++ raw)).length + 2 =
          (encoded (before ++ raw ++ ['\\', c])).length := by omega
      rw [narrow, stop]
      exact .between (by simp [split])
  | @torn before rest c _ _ split _ =>
    rw [← encoded_backslash before c]
    exact .between (by simp [split])

end Moves

theorem Stands.exists_moves {text : List Char} (stands : Stands text offset cursor) :
    ∃ stop, Moves text offset cursor.torn cursor.step stop := by
  have stepped := cursor.stepped
  generalize cursor.step = step at stepped
  cases stands with
  | between split =>
    cases stepped with
    | blank _ => exact ⟨_, .blank (by rw [split, List.append_assoc])⟩
    | token _ => exact ⟨_, .plain (by rw [split, List.append_assoc]) fun _ => rfl⟩
    | @fault cause raw rest _ leads =>
      obtain ⟨first, tail, -, isFront⟩ := leads
      have begins := faultBegins_of_front isFront
      rw [← List.append_assoc] at split
      cases cause with
      | unexpected c =>
        obtain rfl : raw = [c] := begins
        exact ⟨_, .unexpected (by simp [split])⟩
      | brokenCharacter => exact begins.elim
      | invalidEscape c => exact begins.elim
      | unterminatedComment => exact ⟨_, .plain split fun _ => rfl⟩
      | unterminatedString => exact ⟨_, .plain split fun _ => rfl⟩
    | escape _ => exact ⟨_, .escape (by rw [split, List.append_assoc])⟩
    | torn broken => exact absurd rfl broken
    | finish =>
      obtain rfl : text = _ := by simpa using split
      exact ⟨_, .finish⟩
  | inside split wide =>
    generalize torn : _ - 1 = size at stepped
    cases stepped with
    | torn _ =>
      subst torn
      exact ⟨_, .torn split wide⟩
    | _ => omega

theorem Stands.moves {text : List Char} (stands : Stands text offset cursor)
    (goes : cursor.step = .blank next ∨ ∃ item, cursor.step = .item item next) :
    Moves text offset cursor.torn cursor.step (offset + (cursor.bytesLeft - next.bytesLeft)) := by
  have fewer : next.bytesLeft < cursor.bytesLeft := by
    obtain blank | ⟨item, found⟩ := goes
    · exact Cursor.step_blank_bytesLeft_lt blank
    · exact Cursor.step_item_bytesLeft_lt found
  obtain ⟨stop, moves⟩ := stands.exists_moves
  have before := stands.add_bytesLeft
  have after := (moves.stands goes).add_bytesLeft
  obtain rfl : stop = offset + (cursor.bytesLeft - next.bytesLeft) := by omega
  exact moves

theorem Stands.step {text : List Char} (stands : Stands text offset cursor)
    (goes : cursor.step = .blank next ∨ ∃ item, cursor.step = .item item next) :
    Stands text (offset + (cursor.bytesLeft - next.bytesLeft)) next :=
  (stands.moves goes).stands goes

private theorem same_character {text before' after' : List Char} {c c' : Char} {byte : Nat}
    (split : text = before ++ c :: after) (split' : text = before' ++ c' :: after')
    (low : (encoded before).length ≤ byte) (high : byte < (encoded before).length + c.utf8Size)
    (low' : (encoded before').length ≤ byte)
    (high' : byte < (encoded before').length + c'.utf8Size) : before = before' ∧ c = c' := by
  have size (before between : List Char) (c : Char) : (encoded before).length + c.utf8Size ≤
      (encoded (before ++ c :: between)).length := by
    simp only [encoded_append, encoded_cons, List.length_append, String.length_utf8EncodeChar]
    omega
  rcases List.append_eq_append_iff.mp (split.symm.trans split') with
    ⟨between, rfl, rest⟩ | ⟨between, rfl, rest⟩
  · cases between with
    | nil => simpa using (List.cons.inj rest).1
    | cons d between =>
      obtain rfl : c = d := (List.cons.inj rest).1
      have := size before between c
      omega
  · cases between with
    | nil => simpa using (List.cons.inj rest).1.symm
    | cons d between =>
      obtain rfl : c' = d := (List.cons.inj rest).1
      have := size before' between c'
      omega

/-- The fault at a place is about a character of the text. It has been read when the fault is given,
unless the fault is an invalid escape: then its first byte has been read. -/
structure About (text : List Char) (byte : Nat) (item : Item) (torn after : Nat)
    (before : List Char) (c : Char) : Prop where
  split : ∃ rest, text = before ++ c :: rest
  low : (encoded before).length ≤ byte
  high : byte < (encoded before).length + c.utf8Size
  read : after + torn = (encoded before).length + c.utf8Size
  torn : torn ≠ 0 → byte = (encoded before).length ∧ after = byte + 1 ∧
    ∃ position, item = .error ⟨.invalidEscape (leadingByte c), position⟩

section Faults

variable {text : List Char} {offset : Nat} {cursor : Cursor}

variable {item : Item} {next : Cursor} {c : Char}

private theorem Moves.about {torn after byte : Nat}
    (moves : Moves text offset torn (.item item next) after)
    (reported : reportedByte? (offsetOf offset after item, item) = some byte) :
    offset ≤ byte ∧
      (byte < offset + torn → ∃ position, item = .error ⟨.brokenCharacter, position⟩) ∧
      ∃ before c, About text byte item next.torn after before c := by
  have start (before : List Char) : (encoded (before ++ ['\\'])).length =
      (encoded before).length + 1 := by
    rw [encoded_append, List.length_append]
    rfl
  cases moves with
  | plain split silent =>
    rw [silent] at reported
    cases reported
  | @unexpected before rest c _ _ split =>
    obtain rfl : (encoded before).length = byte := Option.some.inj reported
    have size := c.utf8Size_pos
    exact ⟨Nat.le_refl _, by omega, before, c, ⟨rest, split⟩, by omega, by omega, rfl,
      fun torn => absurd rfl torn⟩
  | @escape before raw rest c position _ split =>
    obtain rfl : (encoded (before ++ raw)).length + 2 - 2 + 1 = byte := Option.some.inj reported
    have size := c.utf8Size_pos
    have start := start (before ++ raw)
    have long :
        (encoded (before ++ raw)).length = (encoded before).length + (encoded raw).length := by
      rw [encoded_append, List.length_append]
    refine ⟨by omega, by omega, before ++ raw ++ ['\\'], c, ⟨rest, by simp [split]⟩, by omega,
      by omega, ?_, fun _ => ⟨by omega, by omega, position, rfl⟩⟩
    simp only
    omega
  | @torn before rest c position _ split wide =>
    obtain rfl : (encoded before).length + 2 = byte := Option.some.inj reported
    have start := start before
    refine ⟨Nat.le_refl _, fun _ => ⟨position, rfl⟩, before ++ ['\\'], c, ⟨rest, by simp [split]⟩,
      by omega, by omega, ?_, fun torn => absurd rfl torn⟩
    simp only
    omega

theorem Stands.moves_item (stands : Stands text offset cursor)
    (found : cursor.step = .item item next) :
    Moves text offset cursor.torn (.item item next)
      (offset + (cursor.bytesLeft - next.bytesLeft)) :=
  found ▸ stands.moves (.inr ⟨item, found⟩)

theorem Stands.reportedByte_ge (stands : Stands text offset cursor) :
    ∀ entry ∈ cursor.placed offset, ∀ byte, reportedByte? entry = some byte →
      offset ≤ byte ∧ (byte < offset + cursor.torn →
        ∃ position, entry = (offset, .error ⟨.brokenCharacter, position⟩)) := by
  fun_induction Cursor.placed offset cursor with
  | case1 offset cursor next found ih =>
    intro entry member byte reported
    have later := (ih (stands.step (.inl found)) entry member byte reported).1
    have past := (stands.moves (.inl found)).past
    exact ⟨by omega, fun less => by omega⟩
  | case2 offset cursor item next found after ih =>
    have moves := stands.moves_item found
    intro entry member byte reported
    rcases List.mem_cons.mp member with rfl | member
    · obtain ⟨low, isRest, -⟩ := moves.about reported
      refine ⟨low, fun less => ?_⟩
      obtain ⟨position, rfl⟩ := isRest less
      exact ⟨position, rfl⟩
    · have later := (ih (stands.step (.inr ⟨item, found⟩)) entry member byte reported).1
      have past := moves.past
      exact ⟨by omega, fun less => by omega⟩
  | case3 offset cursor mark found =>
    intro entry member byte reported
    rw [List.mem_singleton.mp member] at reported
    cases reported

theorem Stands.unexpected (stands : Stands text offset cursor) {place : Nat} {position : Position}
    (member : (place, .error ⟨.unexpected c, position⟩) ∈ cursor.placed offset) :
    ∃ before after, text = before ++ c :: after ∧ place = (encoded before).length := by
  fun_induction Cursor.placed offset cursor with
  | case1 offset cursor next found ih => exact ih (stands.step (.inl found)) member
  | case2 offset cursor item next found after ih =>
    rcases List.mem_cons.mp member with same | member
    · obtain ⟨stop, moves⟩ := stands.exists_moves
      obtain ⟨rfl, rfl⟩ := Prod.mk.inj same
      rw [found] at moves
      generalize cursor.torn = torn at moves
      cases moves with
      | plain _ silent => cases silent 0
      | unexpected split => exact ⟨_, _, split, rfl⟩
    · exact ih (stands.step (.inr ⟨item, found⟩)) member
  | case3 offset cursor mark found => cases List.mem_singleton.mp member

private theorem reports_iff {start : Nat} {entry : Nat × Item} :
    reports start c entry = true ↔
      ∃ byte, reportedByte? entry = some byte ∧ start ≤ byte ∧ byte < start + c.utf8Size := by
  simp [reports, Option.any_eq_true]

/-- Two faults are about one character only if the first is an invalid escape of the character and
the second is the rest of it. -/
theorem Stands.reports_twice (stands : Stands text offset cursor) {before after : List Char}
    (split : text = before ++ c :: after) :
    (cursor.placed offset).Pairwise fun first second =>
      reports (encoded before).length c first → reports (encoded before).length c second →
        ∃ position position',
          first = ((encoded before).length - 1, .error ⟨.invalidEscape (leadingByte c), position⟩) ∧
          second = ((encoded before).length + 1, .error ⟨.brokenCharacter, position'⟩) := by
  fun_induction Cursor.placed offset cursor with
  | case1 offset cursor next found ih => exact ih (stands.step (.inl found))
  | case2 offset cursor item next found after ih =>
    have stands' := stands.step (.inr ⟨item, found⟩)
    refine List.pairwise_cons.mpr ⟨?_, ih stands'⟩
    intro second member reports reports'
    obtain ⟨byte, reported, low, high⟩ := reports_iff.mp reports
    obtain ⟨byte', reported', low', high'⟩ := reports_iff.mp reports'
    obtain ⟨-, -, front, d, about⟩ := (stands.moves_item found).about reported
    obtain ⟨rest, split'⟩ := about.split
    obtain ⟨rfl, rfl⟩ := same_character split split' low high about.low about.high
    obtain ⟨later, isRest⟩ := stands'.reportedByte_ge second member byte' reported'
    have within := about.read
    obtain ⟨position', rfl⟩ := isRest (by omega)
    have torn : next.torn ≠ 0 := by omega
    obtain ⟨start, stop, position, rfl⟩ := about.torn torn
    refine ⟨position, position', Prod.ext ?_ rfl, Prod.ext ?_ rfl⟩
    · change after - 2 = _
      omega
    · change after = _
      omega
  | case3 offset cursor mark found => exact List.pairwise_singleton _ _

end Faults

theorem Stands.at_boundary {text : String} (stands : Stands text.toList offset cursor)
    (unbroken : cursor.torn = 0) : offset ∈ boundaries text := by
  cases stands with
  | between split => exact mem_boundaries split
  | inside split wide =>
    simp only at unbroken
    omega

private theorem Moves.spans {text : String} {torn stop : Nat}
    (moves : Moves text.toList offset torn (.item item next) stop)
    (between : torn = 0 → start ∈ boundaries text) (inside : torn ≠ 0 → start = offset) :
    Spans text start item stop := by
  have boundary (unbroken : next.torn = 0) : stop ∈ boundaries text :=
    (moves.stands (.inr ⟨item, rfl⟩)).at_boundary unbroken
  cases moves with
  | plain split silent =>
    refine .whole (between rfl) (boundary rfl) fun position same => ?_
    subst same
    cases silent 0
  | unexpected split => exact .whole (between rfl) (boundary rfl) (by simp)
  | @escape before raw rest c _ _ split =>
    by_cases wide : 1 < c.utf8Size
    · exact .tears (between rfl) split wide
    · exact .whole (between rfl) (boundary (by simp only; omega)) (by simp)
  | torn split wide =>
    rw [inside (by omega)]
    exact .remains split wide

theorem Stands.spans {text : String} (stands : Stands text.toList offset cursor)
    (between : cursor.torn = 0 → start ∈ boundaries text)
    (inside : cursor.torn ≠ 0 → start = offset) :
    Spans text start cursor.next.1
        ((bytes text).length - cursor.next.2.elim 0 Cursor.bytesLeft) ∧
      ∀ after, cursor.next.2 = some after →
        Stands text.toList ((bytes text).length - after.bytesLeft) after := by
  have total : (bytes text).length = (encoded text.toList).length := by rw [bytes_eq_encoded]
  fun_induction Cursor.next cursor generalizing offset with
  | case1 cursor next found ih =>
    obtain ⟨stop, moves⟩ := stands.exists_moves
    have stands' := stands.step (.inl found)
    rw [found] at moves
    generalize unbroken : cursor.torn = torn at moves
    cases moves with
    | blank split => exact ih stands' (fun _ => between unbroken) (fun torn => absurd rfl torn)
  | case2 cursor item next found =>
    have stands' := stands.step (.inr ⟨item, found⟩)
    have left := stands'.add_bytesLeft
    have same : (bytes text).length - next.bytesLeft =
        offset + (cursor.bytesLeft - next.bytesLeft) := by omega
    refine ⟨?_, fun after isNext => ?_⟩
    · rw [Option.elim_some, same]
      exact (stands.moves_item found).spans between inside
    · obtain rfl := Option.some.inj isNext
      rw [same]
      exact stands'
  | case3 cursor mark found =>
    refine ⟨.whole ?_ ?_ (by simp), by simp⟩
    · obtain ⟨stop, moves⟩ := stands.exists_moves
      rw [found] at moves
      generalize unbroken : cursor.torn = torn at moves
      cases moves with
      | finish => exact between unbroken
    · rw [Option.elim_none, Nat.sub_zero, total]
      exact mem_boundaries (List.append_nil _).symm

theorem stands_start (text : List Char) : Stands text 0 (.start text) := by
  have split : text = [] ++ text := rfl
  exact .between split

private theorem Scanner.Reached.stands {text : String} {scanner : Scanner}
    (reached : scanner.Reached text) :
    scanner.text = text ∧ ∀ cursor, scanner.cursor = some cursor →
      Stands text.toList scanner.bytesRead cursor := by
  have start : ∀ cursor, (Scanner.ofText text).cursor = some cursor →
      Stands text.toList (Scanner.ofText text).bytesRead cursor := by
    rintro cursor ⟨⟩
    have begins : (Scanner.ofText text).bytesRead = 0 := by
      simp [bytesRead, ofText, Cursor.start, Cursor.bytesLeft_eq, bytes_eq_encoded]
    rw [begins]
    exact stands_start text.toList
  induction reached with
  | fresh => exact ⟨rfl, start⟩
  | @next scanner reached ih =>
    obtain ⟨own, _ | cursor⟩ := scanner
    · exact ih
    obtain ⟨rfl, stands⟩ := ih
    refine ⟨rfl, fun after isAfter => ?_⟩
    have stands := stands cursor rfl
    have isAfter : cursor.next.2 = some after := isAfter
    have same : (Scanner.next ⟨own, some cursor⟩).2.bytesRead =
        (bytes own).length - after.bytesLeft := by
      simp only [bytesRead, Scanner.next, isAfter, Option.elim_some]
    rw [same]
    exact (stands.spans stands.at_boundary fun _ => rfl).2 after isAfter
  | reset _ ih =>
    rw [Scanner.reset, ih.1]
    exact ⟨rfl, start⟩

/-- Scanning starts and stops between characters but for invalid escapes of characters with several
bytes: such a call stops behind the first byte of the character, and the next call yields the rest
of it as a fault. Every other unexpected character stands whole at its byte, which the place of the
fault is that of but for newlines that escapes have taken. And two faults of a scan are about one
character with several bytes only if they are such an escape and such a rest. -/
theorem only_escapes_tear_characters (text : String) :
    (∀ (scanner : Scanner) (item : Item) (after : Scanner), scanner.Reached text →
      scanner.next = (some item, after) → Spans text scanner.bytesRead item after.bytesRead) ∧
    (∀ offset c position, (offset, .error ⟨.unexpected c, position⟩) ∈ placedItems text →
      (∃ before rest, text.toList = before ++ c :: rest ∧ offset = (encoded before).length) ∧
      position = .ofOffset (blanked (newlineTaken (placedItems text)) (bytes text)) offset) ∧
    ∀ before c rest, text.toList = before ++ c :: rest → 1 < c.utf8Size →
      (placedItems text).Pairwise fun first second =>
        reports (encoded before).length c first → reports (encoded before).length c second →
          ∃ position position',
            first =
              ((encoded before).length - 1, .error ⟨.invalidEscape (leadingByte c), position⟩) ∧
            second = ((encoded before).length + 1, .error ⟨.brokenCharacter, position'⟩) := by
  have stands := stands_start text.toList
  refine ⟨?_, ?_, fun before c rest split _ => stands.reports_twice split⟩
  · intro scanner item after reached call
    obtain ⟨same, stands⟩ := reached.stands
    obtain ⟨own, _ | cursor⟩ := scanner
    · cases call
    obtain rfl : own = text := same
    have stands := stands cursor rfl
    obtain ⟨isItem, rfl⟩ := Prod.mk.inj call
    obtain rfl := Option.some.inj isItem
    exact (stands.spans stands.at_boundary fun _ => rfl).1
  · intro offset c position member
    have scanned : Scanned [] .start (bytes text) (placedItems text) := by
      rw [bytes_eq_encoded]
      exact (Cursor.start text.toList).scanned 0 [] [] rfl rfl (by simp)
    have places := scanned.places (newlineTaken (placedItems text)) (fun _ _ => rfl) rfl
    refine ⟨stands.unexpected member, ?_⟩
    rw [Position.ofOffset_eq_pastBytes, take_blanked]
    exact places _ member

def wideEscape : String :=
  "\"\\é"

/-- The call stops inside the character, and a second fault is about the rest of it. -/
theorem wide_escape_is_reported_twice :
    (∃ scanner : Scanner, scanner.Reached wideEscape ∧ scanner.bytesRead ∉ boundaries wideEscape) ∧
      (placedItems wideEscape).countP (reports 2 'é') = 2 := by
  refine ⟨⟨_, .next .fresh, ?_⟩, ?_⟩
  · decide +kernel
  · decide +kernel

def strayAndEscaped : String :=
  "é\"\\é"

/-- The first character is read whole, and the two faults about the other one are the escape and
the rest. -/
theorem stray_character_is_whole :
    (∃ item, Spans strayAndEscaped 0 item 2) ∧
      (∃ before rest, strayAndEscaped.toList = before ++ 'é' :: rest ∧
        0 = (encoded before).length) ∧
      (placedItems strayAndEscaped).Pairwise fun first second =>
        reports 4 'é' first → reports 4 'é' second →
          ∃ position position', first = (3, .error ⟨.invalidEscape 'Ã', position⟩) ∧
            second = (5, .error ⟨.brokenCharacter, position'⟩) := by
  obtain ⟨spans, unexpected, twice⟩ := only_escapes_tear_characters strayAndEscaped
  refine ⟨?_, ?_, twice ['é', '"', '\\'] 'é' [] rfl (by decide)⟩
  · have start : (Scanner.ofText strayAndEscaped).bytesRead = 0 := by decide +kernel
    have stop : (Scanner.ofText strayAndEscaped).next.2.bytesRead = 2 := by decide +kernel
    have call := spans (.ofText strayAndEscaped) _ _ .fresh rfl
    rw [start] at call
    exact ⟨_, stop ▸ call⟩
  · have step : (Cursor.start strayAndEscaped.toList).step =
        .item (.error ⟨.unexpected 'é', .start⟩) ⟨['"', '\\', 'é'], 0, ⟨1, 3⟩⟩ := rfl
    refine (unexpected 0 'é' .start ?_).1
    rw [placedItems, Cursor.placed_of_item step]
    exact List.mem_cons_self

end ClassScript.Token
