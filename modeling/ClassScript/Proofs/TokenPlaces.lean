import ClassScript.Proofs.Bytes
import ClassScript.Proofs.Fronts

/-!
The places that scanning gives to tokens and faults. Main statement: each is that of its byte, in a
text where the newlines that invalid escapes take are blanks.
-/

set_option autoImplicit false

namespace ClassScript.Token

open Lexeme Text

def positionOf : Item → Position
  | .ok token => token.position
  | .error fault => fault.position

/-- The byte that an item belongs to, given where its step begins and ends: for an invalid escape
the backslash, which is the last byte but one of the step. -/
def offsetOf (before after : Nat) : Item → Nat
  | .error ⟨.invalidEscape _, _⟩ => after - 2
  | _ => before

def takesNewline : Item → Bool
  | .error ⟨.invalidEscape c, _⟩ => c == '\n'
  | _ => false

/-- What the bytes begin with from the one on that an item belongs to. -/
def Heads (ahead : List UInt8) : Item → Prop
  | .ok ⟨.finish, lexeme, _⟩ => ahead = [] ∧ lexeme = ""
  | .ok token => bytes token.lexeme <+: ahead ∧ token.lexeme ≠ ""
  | .error ⟨.unexpected c, _⟩ => encoded [c] <+: ahead
  | .error ⟨.brokenCharacter, _⟩ => ∃ byte, IsContinuation byte ∧ [byte] <+: ahead
  | .error ⟨.unterminatedComment, _⟩ => encoded ['/', '*'] <+: ahead
  | .error ⟨.unterminatedString, _⟩ => encoded ['"'] <+: ahead
  | .error ⟨.invalidEscape c, _⟩ =>
    ∃ byte : UInt8, c = Char.ofNat byte.toNat ∧ encoded ['\\'] ++ [byte] <+: ahead

/-- The items from a cursor on, each with the byte it belongs to, given how many bytes have been
read before. -/
def Cursor.placed (offset : Nat) (cursor : Cursor) : List (Nat × Item) :=
  match _ : cursor.step with
  | .blank next => next.placed (offset + (cursor.bytesLeft - next.bytesLeft))
  | .item item next =>
    let after := offset + (cursor.bytesLeft - next.bytesLeft)
    (offsetOf offset after item, item) :: next.placed after
  | .finish mark => [(offset, .ok mark)]
termination_by cursor.bytesLeft
decreasing_by
  · exact step_blank_bytesLeft_lt (by assumption)
  · exact step_item_bytesLeft_lt (by assumption)

def placedItems (text : String) : List (Nat × Item) :=
  (Cursor.start text.toList).placed 0

/-- Whether one of the items is an invalid escape of the newline at the given byte. -/
def newlineTaken (found : List (Nat × Item)) (offset : Nat) : Bool :=
  found.any fun entry => takesNewline entry.2 && offset == entry.1 + 1

/-- The bytes with blanks in some places. -/
def blanked (taken : Nat → Bool) (bytes : List UInt8) : List UInt8 :=
  bytes.mapIdx fun offset byte => if taken offset then 32 else byte

namespace Cursor

variable {cursor after : Cursor} {item : Item} {mark : Token}

theorem items_of_blank (found : cursor.step = .blank after) : cursor.items = after.items := by
  have same : cursor.next = after.next := by
    rw [next.eq_def]
    split <;> simp_all
  rw [items.eq_def, items.eq_def after, same]

theorem items_of_item (found : cursor.step = .item item after) :
    cursor.items = item :: after.items := by
  have given : cursor.next = (item, some after) := by
    rw [next.eq_def]
    split <;> simp_all
  rw [items.eq_def]
  split <;> simp_all

theorem items_of_finish (found : cursor.step = .finish mark) : cursor.items = [.ok mark] := by
  have given : cursor.next = (.ok mark, none) := by
    rw [next.eq_def]
    split <;> simp_all
  rw [items.eq_def]
  split <;> simp_all

theorem map_placed (offset : Nat) (cursor : Cursor) :
    (cursor.placed offset).map Prod.snd = cursor.items := by
  fun_induction placed offset cursor with
  | case1 offset cursor next found ih => rw [ih, items_of_blank found]
  | case2 offset cursor item next found after ih =>
    rw [List.map_cons, ih, items_of_item found]
  | case3 offset cursor mark found => rw [items_of_finish found]; rfl

end Cursor

inductive Scanned : List UInt8 → Position → List UInt8 → List (Nat × Item) → Prop where
  | finish {before : List UInt8} {position : Position} :
    Scanned before position []
      [(before.length, .ok { kind := .finish, lexeme := "", position })]
  | blank {before chunk ahead : List UInt8} {position : Position} {found : List (Nat × Item)}
    (rest : Scanned (before ++ chunk) (position.pastBytes chunk) ahead found) :
    Scanned before position (chunk ++ ahead) found
  | item {before chunk ahead : List UInt8} {position : Position} {found : List (Nat × Item)}
    {item : Item} (some : chunk ≠ []) (place : positionOf item = position)
    (keeps : takesNewline item = false) (heads : Heads (chunk ++ ahead) item)
    (rest : Scanned (before ++ chunk) (position.pastBytes chunk) ahead found) :
    Scanned before position (chunk ++ ahead) ((before.length, item) :: found)
  | escape {before chunk ahead : List UInt8} {lead : UInt8} {position : Position}
    {found : List (Nat × Item)}
    (rest : Scanned (before ++ chunk ++ [92, lead]) ((position.pastBytes chunk).right 2) ahead
      found) :
    Scanned before position (chunk ++ 92 :: lead :: ahead)
      ((before.length + chunk.length,
        .error ⟨.invalidEscape (Char.ofNat lead.toNat), position.pastBytes chunk⟩) :: found)

theorem encoded_ne_nil {raw : List Char} (some : raw ≠ []) : encoded raw ≠ [] := by
  cases raw with
  | nil => exact absurd rfl some
  | cons c cs =>
    obtain ⟨lead, tail, spelling, -⟩ := utf8EncodeChar_eq_cons c
    simp [spelling]

@[simp] theorem bytes_ofList (raw : List Char) : bytes (String.ofList raw) = encoded raw := by
  rw [bytes_eq_encoded, String.toList_ofList]

private theorem heads_token {kind : Kind} {raw rest : List Char} {position : Position}
    (leads : Leads (raw ++ rest) (.token kind raw)) :
    Heads (encoded raw ++ encoded rest) (.ok { kind, lexeme := String.ofList raw, position }) := by
  have taken := leads.raw_ne_nil
  obtain ⟨first, tail, -, isFront⟩ := leads
  have real := kind_ne_finish_of_front isFront
  have spelt : bytes (String.ofList raw) <+: encoded raw ++ encoded rest := by
    rw [bytes_ofList]
    exact List.prefix_append _ _
  have nonempty : String.ofList raw ≠ "" := by
    intro none
    have letters := congrArg String.toList none
    rw [String.toList_ofList] at letters
    exact taken letters
  cases kind with
  | finish => exact absurd rfl real
  | _ => exact ⟨spelt, nonempty⟩

private theorem heads_fault {cause : LexicalFault} {raw rest : List Char} (position : Position)
    (leads : Leads (raw ++ rest) (.fault cause raw)) :
    Heads (encoded raw ++ encoded rest) (.error ⟨cause, position⟩) ∧
      takesNewline (.error ⟨cause, position⟩) = false ∧
      ∀ before after, offsetOf before after (.error ⟨cause, position⟩) = before := by
  obtain ⟨first, tail, -, isFront⟩ := leads
  have begins := faultBegins_of_front isFront
  cases cause with
  | unexpected c =>
    obtain rfl : raw = [c] := begins
    exact ⟨List.prefix_append _ _, rfl, fun _ _ => rfl⟩
  | unterminatedComment =>
    obtain rfl : raw = ['/', '*'] := begins
    exact ⟨List.prefix_append _ _, rfl, fun _ _ => rfl⟩
  | unterminatedString =>
    obtain ⟨body, rfl⟩ := begins
    exact ⟨⟨encoded body ++ encoded rest, by simp⟩, rfl, fun _ _ => rfl⟩
  | brokenCharacter => exact begins.elim
  | invalidEscape c => exact begins.elim

theorem Cursor.bytesLeft_eq (rest : List Char) (torn : Nat) (position : Position) :
    bytesLeft ⟨rest, torn, position⟩ = (encoded rest).length + torn := by
  have size : (rest.map Char.utf8Size).foldr (· + ·) 0 = (encoded rest).length := by
    induction rest with
    | nil => rfl
    | cons c cs ih =>
      rw [List.map_cons, List.foldr_cons, ih, encoded_cons, List.length_append,
        String.length_utf8EncodeChar]
  rw [bytesLeft, size]

theorem Cursor.bytesLeft_sub (raw rest : List Char) (position position' : Position) :
    bytesLeft ⟨raw ++ rest, 0, position⟩ - bytesLeft ⟨rest, 0, position'⟩ =
      (encoded raw).length := by
  rw [bytesLeft_eq, bytesLeft_eq, encoded_append, List.length_append]
  omega

theorem Cursor.scanned (cursor : Cursor) (offset : Nat) (before torn : List UInt8)
    (read : before.length = offset) (broken : torn.length = cursor.torn)
    (continues : ∀ byte ∈ torn, IsContinuation byte) :
    Scanned before cursor.position (torn ++ encoded cursor.rest) (cursor.placed offset) := by
  fun_induction placed offset cursor generalizing before torn with
  | case1 offset cursor next found ih =>
    have stepped := cursor.stepped
    rw [found] at stepped
    cases stepped with
    | @blank raw rest position leads =>
      obtain rfl : torn = [] := List.length_eq_zero_iff.mp broken
      have moved := ih (before ++ encoded raw) [] (by
        rw [bytesLeft_sub, List.length_append, read]) rfl (by simp)
      simp only [Position.past_eq_pastBytes, encoded_append, List.nil_append] at moved ⊢
      exact .blank moved
  | case2 offset cursor item next found after ih =>
    have stepped := cursor.stepped
    rw [found] at stepped
    subst read
    cases stepped with
    | @token kind raw rest position leads =>
      obtain rfl : torn = [] := List.length_eq_zero_iff.mp broken
      have moved := ih (before ++ encoded raw) [] (by
        simp only [after]
        rw [bytesLeft_sub, List.length_append]) rfl (by simp)
      simp only [Position.past_eq_pastBytes, encoded_append, List.nil_append] at moved ⊢
      exact .item (encoded_ne_nil leads.raw_ne_nil) rfl rfl (heads_token leads) moved
    | @fault cause raw rest position leads =>
      obtain rfl : torn = [] := List.length_eq_zero_iff.mp broken
      have moved := ih (before ++ encoded raw) [] (by
        simp only [after]
        rw [bytesLeft_sub, List.length_append]) rfl (by simp)
      simp only [Position.past_eq_pastBytes, encoded_append, List.nil_append] at moved ⊢
      obtain ⟨heads, keeps, front⟩ := heads_fault position leads
      rw [front]
      exact .item (encoded_ne_nil leads.raw_ne_nil) rfl keeps heads moved
    | @escape raw rest escaped position leads =>
      obtain rfl : torn = [] := List.length_eq_zero_iff.mp broken
      obtain ⟨lead, tail, spelling, -, continues'⟩ := utf8EncodeChar_eq_cons escaped
      have size : tail.length + 1 = escaped.utf8Size := by
        rw [← String.length_utf8EncodeChar, spelling, List.length_cons]
      have ahead : encoded (raw ++ '\\' :: escaped :: rest) =
          encoded raw ++ 92 :: lead :: (tail ++ encoded rest) := by
        simp only [encoded_append, encoded_cons, spelling]
        rfl
      have reads : after = before.length + (encoded raw).length + 2 := by
        simp only [after, bytesLeft_eq, ahead, List.length_append, List.length_cons]
        omega
      have moved := ih (before ++ encoded raw ++ [92, lead]) tail (by
        rw [reads, List.length_append, List.length_append]
        rfl) (by simp only; omega) continues'
      have place : offsetOf before.length after
          (.error ⟨.invalidEscape (leadingByte escaped), position.past raw⟩) =
            before.length + (encoded raw).length := by
        simp only [offsetOf]
        omega
      have leading : leadingByte escaped = Char.ofNat lead.toNat := by
        rw [leadingByte, spelling]
        rfl
      rw [place]
      simp only [leading, ahead, Position.past_eq_pastBytes, List.nil_append] at moved ⊢
      exact .escape moved
    | @torn rest torn' position some =>
      change torn.length = torn' at broken
      have plain : newline ∉ torn := by
        intro member
        have high := (continues newline member).1
        simp [newline] at high
      have stays : position.right torn' = position.pastBytes torn := by
        rw [Position.pastBytes_of_notMem position plain, broken]
      have nonempty : torn ≠ [] := by
        rintro rfl
        exact some broken.symm
      have moved := ih (before ++ torn) [] (by
        simp only [after, bytesLeft_eq, List.length_append]
        omega) rfl (by simp)
      have heads : Heads (torn ++ encoded rest) (.error ⟨.brokenCharacter, position⟩) := by
        obtain ⟨byte, others, rfl⟩ := List.exists_cons_of_ne_nil nonempty
        exact ⟨byte, continues byte List.mem_cons_self, others ++ encoded rest, rfl⟩
      simp only [stays, List.nil_append] at moved ⊢
      exact .item nonempty rfl rfl heads moved
  | case3 offset cursor mark found =>
    have stepped := cursor.stepped
    rw [found] at stepped
    cases stepped with
    | finish =>
      obtain rfl : torn = [] := List.length_eq_zero_iff.mp broken
      rw [← read]
      exact .finish

/-- One item comes before the other, together with the newline that it may take. -/
def Precedes (first second : Nat × Item) : Prop :=
  first.1 < second.1 ∧ (takesNewline first.2 = true → first.1 + 1 < second.1)

private theorem precedes_of_lt {found : List (Nat × Item)} (ordered : found.Pairwise Precedes)
    {first second : Nat × Item} (member : first ∈ found) (member' : second ∈ found)
    (less : first.1 < second.1) : Precedes first second := by
  induction found with
  | nil => cases member
  | cons entry rest ih =>
    obtain ⟨before, orderedRest⟩ := List.pairwise_cons.mp ordered
    rcases List.mem_cons.mp member with rfl | later
    · rcases List.mem_cons.mp member' with rfl | later'
      · omega
      · exact before second later'
    · rcases List.mem_cons.mp member' with rfl | later'
      · have := (before first later).1
        omega
      · exact ih orderedRest later later'

private theorem newlineTaken_iff {found : List (Nat × Item)} {offset : Nat} :
    newlineTaken found offset = true ↔
      ∃ entry ∈ found, takesNewline entry.2 = true ∧ offset = entry.1 + 1 := by
  simp [newlineTaken]

namespace Scanned

variable {before ahead : List UInt8} {position : Position} {found : List (Nat × Item)}

section

variable (scanned : Scanned before position ahead found)

include scanned

theorem length_le : ∀ entry ∈ found, before.length ≤ entry.1 := by
  induction scanned with
  | finish => simp
  | blank rest ih =>
    intro entry member
    have := ih entry member
    rw [List.length_append] at this
    omega
  | item some place keeps heads rest ih =>
    intro entry member
    rcases List.mem_cons.mp member with rfl | later
    · exact Nat.le_refl _
    · have := ih entry later
      rw [List.length_append] at this
      omega
  | escape rest ih =>
    intro entry member
    rcases List.mem_cons.mp member with rfl | later
    · exact Nat.le_add_right _ _
    · have := ih entry later
      rw [List.length_append, List.length_append] at this
      omega

theorem ordered : found.Pairwise Precedes := by
  induction scanned with
  | finish => exact List.pairwise_singleton _ _
  | blank rest ih => exact ih
  | @item before chunk ahead position found item some place keeps heads rest ih =>
    refine List.pairwise_cons.mpr ⟨fun later member => ?_, ih⟩
    have further := rest.length_le later member
    have positive := List.length_pos_iff.mpr some
    rw [List.length_append] at further
    refine ⟨by simp only; omega, fun takes => ?_⟩
    rw [keeps] at takes
    cases takes
  | @escape before chunk ahead lead position found rest ih =>
    refine List.pairwise_cons.mpr ⟨fun later member => ?_, ih⟩
    have further := rest.length_le later member
    simp only [List.length_append, List.length_cons, List.length_nil] at further
    exact ⟨by simp only; omega, fun _ => by simp only; omega⟩

theorem stands :
    ∀ entry ∈ found, entry.1 ≤ (before ++ ahead).length ∧
      Heads ((before ++ ahead).drop entry.1) entry.2 := by
  induction scanned with
  | finish => simp [Heads]
  | blank rest ih => simpa only [List.append_assoc] using ih
  | item some place keeps heads rest ih =>
    intro entry member
    rcases List.mem_cons.mp member with rfl | later
    · simpa using heads
    · simpa only [List.append_assoc] using ih entry later
  | @escape before chunk ahead lead position found rest ih =>
    intro entry member
    rcases List.mem_cons.mp member with rfl | later
    · have split : before ++ (chunk ++ 92 :: lead :: ahead) =
          (before ++ chunk) ++ 92 :: lead :: ahead := by simp
      refine ⟨by simp, ?_⟩
      rw [split, ← List.length_append, List.drop_left]
      exact ⟨lead, rfl, ahead, rfl⟩
    · simpa only [List.append_assoc, List.cons_append, List.nil_append] using ih entry later

theorem newline_at :
    ∀ entry ∈ found, takesNewline entry.2 = true →
      (before ++ ahead)[entry.1 + 1]? = some newline := by
  intro entry member takes
  obtain ⟨-, heads⟩ := scanned.stands entry member
  obtain ⟨offset, item⟩ := entry
  rcases item with ⟨⟨cause, place⟩⟩ | token
  · cases cause with
    | invalidEscape c =>
      obtain ⟨byte, rfl, spelling⟩ := heads
      have isNewline : byte = newline := (ofNat_eq_newline byte).mp (eq_of_beq takes)
      obtain ⟨rest, spelling⟩ := spelling
      have second : ((before ++ ahead).drop offset)[1]? = some byte := by
        rw [← spelling]
        rfl
      rwa [List.getElem?_drop, isNewline] at second
    | _ => cases takes
  · cases takes

theorem newlineTaken_eq_false {offset : Nat}
    (less : offset ≤ before.length) : newlineTaken found offset = false := by
  rw [Bool.eq_false_iff]
  intro taken
  obtain ⟨entry, member, -, rfl⟩ := newlineTaken_iff.mp taken
  have := scanned.length_le entry member
  omega

end

end Scanned

private theorem blanked_append (taken : Nat → Bool) (first second : List UInt8) :
    blanked taken (first ++ second) =
      blanked taken first ++ blanked (fun offset => taken (offset + first.length)) second :=
  List.mapIdx_append

private theorem blanked_cons (taken : Nat → Bool) (byte : UInt8) (rest : List UInt8) :
    blanked taken (byte :: rest) =
      (if taken 0 then 32 else byte) :: blanked (fun offset => taken (offset + 1)) rest :=
  List.mapIdx_cons

private theorem blanked_eq_self {taken : Nat → Bool} {bytes : List UInt8}
    (untaken : ∀ offset < bytes.length, taken offset = false) : blanked taken bytes = bytes := by
  induction bytes generalizing taken with
  | nil => rfl
  | cons byte rest ih =>
    rw [blanked_cons, untaken 0 (by simp), ih fun offset less => untaken (offset + 1) (by simpa)]
    rfl

theorem take_blanked (taken : Nat → Bool) (bytes : List UInt8) (count : Nat) :
    (blanked taken bytes).take count = blanked taken (bytes.take count) := by
  induction bytes generalizing taken count with
  | nil => simp [blanked]
  | cons byte rest ih =>
    cases count with
    | zero => rfl
    | succ count => rw [blanked_cons, List.take_succ_cons, List.take_succ_cons, blanked_cons, ih]

private theorem count_blanked_le (taken : Nat → Bool) (bytes : List UInt8) :
    (blanked taken bytes).count newline ≤ bytes.count newline := by
  induction bytes generalizing taken with
  | nil => exact Nat.le_refl _
  | cons byte rest ih =>
    have fewer := ih fun offset => taken (offset + 1)
    rw [blanked_cons, List.count_cons, List.count_cons]
    split
    · simp [newline] at fewer ⊢
      omega
    · omega

private theorem count_blanked_lt {taken : Nat → Bool} {bytes : List UInt8} {offset : Nat}
    (isTaken : taken offset = true) (ends : bytes[offset]? = some newline) :
    (blanked taken bytes).count newline < bytes.count newline := by
  induction bytes generalizing taken offset with
  | nil => simp at ends
  | cons byte rest ih =>
    rw [blanked_cons, List.count_cons, List.count_cons]
    cases offset with
    | zero =>
      obtain rfl : byte = newline := by simpa using ends
      have fewer := count_blanked_le (fun offset => taken (offset + 1)) rest
      simp [isTaken, newline] at fewer ⊢
      omega
    | succ offset =>
      have fewer : (blanked (fun offset => taken (offset + 1)) rest).count newline <
          rest.count newline := ih isTaken (by simpa using ends)
      split
      · simp [newline] at fewer ⊢
        omega
      · omega

private theorem place_past {taken : Nat → Bool} {before chunk : List UInt8} {position : Position}
    (place : position = Position.start.pastBytes (blanked taken before))
    (untaken : ∀ offset, before.length ≤ offset → offset < before.length + chunk.length →
      taken offset = false) :
    position.pastBytes chunk = Position.start.pastBytes (blanked taken (before ++ chunk)) := by
  have clear : blanked (fun offset => taken (offset + before.length)) chunk = chunk :=
    blanked_eq_self fun offset less => untaken _ (by omega) (by omega)
  rw [blanked_append, clear, Position.pastBytes_append, ← place]

/-- The invariant of scanning: it stands where the bytes before lead, with a blank for each newline
that an invalid escape takes. -/
theorem Scanned.places {before ahead : List UInt8} {position : Position} {found : List (Nat × Item)}
    (scanned : Scanned before position ahead found) (taken : Nat → Bool)
    (same : ∀ offset, before.length ≤ offset → taken offset = newlineTaken found offset)
    (place : position = Position.start.pastBytes (blanked taken before)) :
    ∀ entry ∈ found, positionOf entry.2 =
      Position.start.pastBytes (blanked taken ((before ++ ahead).take entry.1)) := by
  induction scanned with
  | finish => simpa [positionOf] using place
  | @blank before chunk ahead position found rest ih =>
    have untaken (offset : Nat) (from_ : before.length ≤ offset)
        (less : offset < before.length + chunk.length) : taken offset = false := by
      rw [same offset from_]
      exact rest.newlineTaken_eq_false (by rw [List.length_append]; omega)
    have later := ih (fun offset further => by
      exact same offset (by rw [List.length_append] at further; omega)) (place_past place untaken)
    simpa only [List.append_assoc] using later
  | @item before chunk ahead position found item some here keeps heads rest ih =>
    have skips (offset : Nat) : newlineTaken ((before.length, item) :: found) offset =
        newlineTaken found offset := by
      simp [newlineTaken, keeps]
    have untaken (offset : Nat) (from_ : before.length ≤ offset)
        (less : offset < before.length + chunk.length) : taken offset = false := by
      rw [same offset from_, skips]
      exact rest.newlineTaken_eq_false (by rw [List.length_append]; omega)
    have later := ih (fun offset further => by
      rw [← skips]
      exact same offset (by rw [List.length_append] at further; omega)) (place_past place untaken)
    intro entry member
    rcases List.mem_cons.mp member with rfl | after
    · simpa [here] using place
    · simpa only [List.append_assoc] using later entry after
  | @escape before chunk ahead lead position found rest ih =>
    set backslash := before.length + chunk.length with isBackslash
    have takes (offset : Nat) (from_ : before.length ≤ offset) (less : offset ≤ backslash + 1) :
        taken offset = (decide (lead = newline) && offset == backslash + 1) := by
      have unseen : newlineTaken found offset = false :=
        rest.newlineTaken_eq_false (by simp; omega)
      rw [same offset from_]
      simp only [newlineTaken, List.any_cons] at unseen ⊢
      rw [unseen, Bool.or_false]
      congr 1
      rw [Bool.eq_iff_iff]
      simp [takesNewline, ofNat_eq_newline]
    have here : position.pastBytes chunk =
        Position.start.pastBytes (blanked taken (before ++ chunk)) := by
      refine place_past place fun offset from_ less => ?_
      have apart : offset ≠ backslash + 1 := by omega
      rw [takes offset from_ (by omega)]
      simp [apart]
    -- The backslash stays, and the byte after it never ends a line.
    have pair : blanked (fun offset => taken (offset + (before ++ chunk).length)) [92, lead] =
        [92, if lead = newline then 32 else lead] := by
      have first := takes backslash (by omega) (by omega)
      have second := takes (backslash + 1) (by omega) (by omega)
      simp [blanked, ← isBackslash, first, Nat.add_comm 1, second]
    have plain : newline ∉ [92, if lead = newline then 32 else lead] := by
      by_cases ends : lead = newline
      · rw [if_pos ends]
        decide
      · rw [if_neg ends, List.mem_pair]
        exact not_or.mpr ⟨by decide, Ne.symm ends⟩
    have there : (position.pastBytes chunk).right 2 =
        Position.start.pastBytes (blanked taken (before ++ chunk ++ [92, lead])) := by
      rw [blanked_append, pair, Position.pastBytes_append, ← here,
        Position.pastBytes_of_notMem _ plain]
      rfl
    have later := ih (fun offset further => by
      simp only [List.length_append, List.length_cons, List.length_nil] at further
      rw [same offset (by omega)]
      have apart : offset ≠ backslash + 1 := by omega
      simp [newlineTaken, apart]) there
    intro entry member
    rcases List.mem_cons.mp member with rfl | after
    · simp only [positionOf, here, isBackslash]
      rw [← List.length_append, ← List.append_assoc, List.take_left]
    · simpa only [List.append_assoc, List.cons_append, List.nil_append] using later entry after

/-- Every item stands at its byte, in the order of the text, and its place is that of the byte,
counted with a blank for each newline that an invalid escape takes. So it is the place of the byte
in the text itself unless such a newline comes before it. -/
theorem places_are_exact_but_for_taken_newlines (text : String) :
    (placedItems text).map Prod.snd = scanAll text ∧
      (placedItems text).Pairwise (fun first second => first.1 < second.1) ∧
      ∀ offset item, (offset, item) ∈ placedItems text →
        (offset ≤ (bytes text).length ∧ Heads ((bytes text).drop offset) item) ∧
        positionOf item =
          .ofOffset (blanked (newlineTaken (placedItems text)) (bytes text)) offset ∧
        (positionOf item = .ofOffset (bytes text) offset ↔
          ∀ earlier ∈ placedItems text, earlier.1 < offset → takesNewline earlier.2 = false) := by
  have scanned : Scanned [] .start (bytes text) (placedItems text) := by
    rw [bytes_eq_encoded]
    exact (Cursor.start text.toList).scanned 0 [] [] rfl rfl (by simp)
  have ordered := scanned.ordered
  have places := scanned.places (newlineTaken (placedItems text)) (fun _ _ => rfl) rfl
  refine ⟨Cursor.map_placed 0 _, ordered.imp fun precedes => precedes.1, ?_⟩
  intro offset item member
  have place : positionOf item =
      .ofOffset (blanked (newlineTaken (placedItems text)) (bytes text)) offset := by
    rw [Position.ofOffset_eq_pastBytes, take_blanked]
    exact places (offset, item) member
  refine ⟨scanned.stands (offset, item) member, place, ?_⟩
  rw [place]
  constructor
  · intro exact_ earlier member' less
    rw [Bool.eq_false_iff]
    intro takes
    have before := (precedes_of_lt ordered member' member less).2 takes
    have isTaken : newlineTaken (placedItems text) (earlier.1 + 1) = true :=
      newlineTaken_iff.mpr ⟨earlier, member', takes, rfl⟩
    have ends : ((bytes text).take offset)[earlier.1 + 1]? = some newline := by
      rw [List.getElem?_take_of_lt before]
      exact scanned.newline_at earlier member' takes
    have fewer := count_blanked_lt isTaken ends
    have lines := congrArg Position.line exact_
    simp only [Position.ofOffset, take_blanked] at lines
    omega
  · intro untaken
    have same : (blanked (newlineTaken (placedItems text)) (bytes text)).take offset =
        (bytes text).take offset := by
      rw [take_blanked]
      refine blanked_eq_self fun other less => ?_
      rw [Bool.eq_false_iff]
      intro taken
      obtain ⟨earlier, member', takes, rfl⟩ := newlineTaken_iff.mp taken
      rw [List.length_take] at less
      rw [untaken earlier member' (by omega)] at takes
      cases takes
    rw [Position.ofOffset_eq_pastBytes, same, ← Position.ofOffset_eq_pastBytes]

def faultyText : String :=
  "é\n \"\\q x"

/-- No newline is taken, so the word has its place although it comes after two faults. -/
theorem word_after_faults_is_placed :
    ∃ entry ∈ placedItems faultyText, entry.1 = 8 ∧
      positionOf entry.2 = .ofOffset (bytes faultyText) 8 := by
  have present : ∃ entry ∈ placedItems faultyText, entry.1 = 8 := by decide +kernel
  have untaken : ∀ earlier ∈ placedItems faultyText, earlier.1 < 8 →
      takesNewline earlier.2 = false := by
    decide +kernel
  obtain ⟨⟨offset, item⟩, member, rfl⟩ := present
  obtain ⟨-, -, exact_⟩ := places_are_exact_but_for_taken_newlines faultyText
  exact ⟨(8, item), member, rfl, (exact_ 8 item member).2.2.mpr untaken⟩

def splitEscape : String :=
  "\"\\\nx"

/-- The word is the first thing on the second line, and its place is on the first. -/
theorem taken_newline_shifts_places :
    ∃ entry ∈ placedItems splitEscape, entry.1 = 3 ∧ positionOf entry.2 = ⟨1, 4⟩ ∧
      Position.ofOffset (bytes splitEscape) entry.1 = ⟨2, 1⟩ := by
  decide +kernel

end ClassScript.Token
