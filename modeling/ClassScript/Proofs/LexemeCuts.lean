import ClassScript.Proofs.Munch
import ClassScript.Proofs.TokenPlaces

/-!
Texts that are cut into tokens without a fault. Main statement: scanning gives the one cut into
longest lexemes with blanks and comments between them.
-/

set_option autoImplicit false

namespace ClassScript.Token

open Lexeme Text

def tokenAt (text : String) (offset : Nat) (kind : Kind) (raw : List Char) : Token where
  kind := kind
  lexeme := String.ofList raw
  position := .ofOffset (bytes text) offset

/-- The rest of a text from a byte on is cut into tokens, each with its byte: blanks and comments
are left out, every other piece is the longest lexeme there, and the end mark comes last. -/
inductive Cut (text : String) : Nat → List Char → List (Nat × Token) → Prop where
  | finish {offset : Nat} : Cut text offset [] [(offset, tokenAt text offset .finish [])]
  | blank {offset : Nat} {raw rest : List Char} {found : List (Nat × Token)}
    (blank : Blank raw rest) (after : Cut text (offset + (encoded raw).length) rest found) :
    Cut text offset (raw ++ rest) found
  | token {offset : Nat} {kind : Kind} {raw rest : List Char} {found : List (Nat × Token)}
    (longest : Longest kind raw (raw ++ rest)) (bare : ¬ OpensComment (raw ++ rest))
    (after : Cut text (offset + (encoded raw).length) rest found) :
    Cut text offset (raw ++ rest) ((offset, tokenAt text offset kind raw) :: found)

structure Tokenized (text : String) (found : List (Nat × Token)) : Prop where
  cut : Cut text 0 text.toList found
  spelt : ∀ entry ∈ found, bytes entry.2.lexeme <+: (bytes text).drop entry.1
  apart : found.Pairwise fun first second =>
    first.1 < second.1 ∧ first.1 + (bytes first.2.lexeme).length ≤ second.1
  ended : ∃ tokens mark, found = tokens ++ [((bytes text).length, mark)] ∧ mark.kind = .finish ∧
    ∀ entry ∈ tokens, entry.2.kind ≠ .finish

private theorem bytes_tokenAt (text : String) (offset : Nat) (kind : Kind) (raw : List Char) :
    bytes (tokenAt text offset kind raw).lexeme = encoded raw :=
  bytes_ofList raw

private theorem kind_ne_finish {kind : Kind} {raw : List Char} (spells : Spells kind raw) :
    kind ≠ .finish := by
  cases spells <;> simp

namespace Cut

variable {text : String} {offset : Nat} {rest : List Char} {found : List (Nat × Token)}

theorem offset_le (cut : Cut text offset rest found) : ∀ entry ∈ found, offset ≤ entry.1 := by
  induction cut with
  | finish => simp
  | blank _ _ ih =>
    intro entry member
    have := ih entry member
    omega
  | token _ _ _ ih =>
    intro entry member
    rcases List.mem_cons.mp member with rfl | later
    · exact Nat.le_refl _
    · have := ih entry later
      omega

theorem apart (cut : Cut text offset rest found) : found.Pairwise fun first second =>
    first.1 < second.1 ∧ first.1 + (bytes first.2.lexeme).length ≤ second.1 := by
  induction cut with
  | finish => exact List.pairwise_singleton _ _
  | blank _ _ ih => exact ih
  | @token offset kind raw rest found longest _ after ih =>
    refine List.pairwise_cons.mpr ⟨fun later member => ?_, ih⟩
    have further := after.offset_le later member
    have positive := List.length_pos_iff.mpr (encoded_ne_nil longest.spells.ne_nil)
    rw [bytes_tokenAt]
    exact ⟨by simp only; omega, further⟩

theorem spelt (cut : Cut text offset rest found) {before : List UInt8}
    (whole : bytes text = before ++ encoded rest) (read : before.length = offset) :
    ∀ entry ∈ found, bytes entry.2.lexeme <+: (bytes text).drop entry.1 := by
  induction cut generalizing before with
  | finish =>
    intro entry member
    obtain rfl := List.mem_singleton.mp member
    exact List.nil_prefix
  | @blank offset raw rest found _ _ ih =>
    exact ih (by rw [whole, encoded_append, List.append_assoc])
      (by rw [List.length_append, read])
  | @token offset kind raw rest found _ _ _ ih =>
    intro entry member
    rcases List.mem_cons.mp member with rfl | later
    · rw [whole, ← read, List.drop_left, bytes_tokenAt, encoded_append]
      exact List.prefix_append _ _
    · exact ih (by rw [whole, encoded_append, List.append_assoc])
        (by rw [List.length_append, read]) entry later

theorem ended (cut : Cut text offset rest found) : ∃ tokens mark,
    found = tokens ++ [(offset + (encoded rest).length, mark)] ∧ mark.kind = .finish ∧
      ∀ entry ∈ tokens, entry.2.kind ≠ .finish := by
  induction cut with
  | finish => exact ⟨[], _, rfl, rfl, by simp⟩
  | blank _ _ ih =>
    obtain ⟨tokens, mark, rfl, isMark, others⟩ := ih
    exact ⟨tokens, mark, by rw [encoded_append, List.length_append, Nat.add_assoc], isMark, others⟩
  | @token offset kind raw rest found longest _ _ ih =>
    obtain ⟨tokens, mark, rfl, isMark, others⟩ := ih
    have real : (tokenAt text offset kind raw).kind ≠ .finish := kind_ne_finish longest.spells
    refine ⟨(offset, tokenAt text offset kind raw) :: tokens, mark, ?_, isMark,
      List.forall_mem_cons.mpr ⟨real, others⟩⟩
    rw [encoded_append, List.length_append, Nat.add_assoc, List.cons_append]

theorem tokenized (cut : Cut text 0 text.toList found) : Tokenized text found where
  cut := cut
  spelt := by
    have whole : bytes text = [] ++ encoded text.toList := bytes_eq_encoded text
    exact cut.spelt whole rfl
  apart := cut.apart
  ended := by
    obtain ⟨tokens, mark, same, isMark, others⟩ := cut.ended
    rw [Nat.zero_add, ← bytes_eq_encoded] at same
    exact ⟨tokens, mark, same, isMark, others⟩

end Cut

private theorem past_eq_ofOffset {text : String} {before rest : List Char}
    (whole : text.toList = before ++ rest) :
    Position.start.past before = .ofOffset (bytes text) (encoded before).length := by
  rw [Position.past_eq_pastBytes, Position.ofOffset_eq_pastBytes, bytes_eq_encoded, whole,
    encoded_append, List.take_left]

theorem collect_map_ok (tokens : List Token) : collect (tokens.map .ok) = .ok tokens := by
  induction tokens with
  | nil => rfl
  | cons token tokens ih =>
    rw [List.map_cons, collect, ih]
    rfl

private theorem exists_of_map_snd {pairs : List (Nat × Item)} {tokens : List Token}
    (faultless : pairs.map Prod.snd = tokens.map .ok) :
    ∃ found : List (Nat × Token), pairs = found.map (Prod.map id .ok) ∧
      found.map Prod.snd = tokens := by
  induction pairs generalizing tokens with
  | nil =>
    cases tokens with
    | nil => exact ⟨[], rfl, rfl⟩
    | cons token tokens => cases faultless
  | cons pair pairs ih =>
    cases tokens with
    | nil => cases faultless
    | cons token tokens =>
      obtain ⟨here, later⟩ := List.cons.inj faultless
      obtain ⟨found, rfl, rfl⟩ := ih later
      exact ⟨(pair.1, token) :: found, congrArg (· :: _) (Prod.ext rfl here), rfl⟩

/-- Where scanning finds no fault, what it finds is a cut. -/
private theorem cut_of_placed {text : String} (offset : Nat) (cursor : Cursor) (before : List Char)
    (found : List (Nat × Token)) (whole : text.toList = before ++ cursor.rest)
    (read : offset = (encoded before).length) (untorn : cursor.torn = 0)
    (place : cursor.position = Position.start.past before)
    (sound : cursor.placed offset = found.map (Prod.map id .ok)) :
    Cut text offset cursor.rest found := by
  -- The characters before the cursor tell both its byte and its place.
  fun_induction Cursor.placed offset cursor generalizing before found with
  | case1 offset cursor next isBlank ih =>
    have stepped := cursor.stepped
    rw [isBlank] at stepped
    cases stepped with
    | @blank raw rest position leads =>
      rw [Cursor.bytesLeft_sub] at ih sound
      have after := ih (before ++ raw) found (by rw [whole, List.append_assoc])
        (by rw [read, encoded_append, List.length_append]) rfl
        (by rw [Position.past_append, ← place]) sound
      exact .blank leads.isBlank after
  | case2 offset cursor item next isItem after ih =>
    have stepped := cursor.stepped
    rw [isItem] at stepped
    cases found with
    | nil => cases sound
    | cons entry found =>
      obtain ⟨here, later⟩ := List.cons.inj sound
      obtain ⟨sameOffset, sameItem⟩ := Prod.mk.inj here
      cases stepped with
      | @token kind raw rest position leads =>
        obtain ⟨longest, bare⟩ := leads.longest
        have reads : after = offset + (encoded raw).length := by
          simp only [after]
          rw [Cursor.bytesLeft_sub]
        rw [reads] at ih later
        have cut := ih (before ++ raw) found (by rw [whole, List.append_assoc])
          (by rw [read, encoded_append, List.length_append]) rfl
          (by rw [Position.past_append, ← place]) later
        have isEntry : entry = (offset, tokenAt text offset kind raw) := by
          refine Prod.ext sameOffset.symm ?_
          rw [← Except.ok.inj sameItem, tokenAt, read, ← past_eq_ofOffset whole, ← place]
        rw [isEntry]
        exact .token longest bare cut
      | fault leads => cases sameItem
      | escape leads => cases sameItem
      | torn broken => cases sameItem
  | case3 offset cursor mark isFinish =>
    have stepped := cursor.stepped
    rw [isFinish] at stepped
    cases stepped with
    | @finish position =>
      have isMark : found = [(offset, tokenAt text offset .finish [])] := by
        cases found with
        | nil => cases sound
        | cons entry others =>
          obtain ⟨here, none⟩ := List.cons.inj sound
          obtain ⟨sameOffset, sameItem⟩ := Prod.mk.inj here
          have isEntry : entry = (offset, tokenAt text offset .finish []) := by
            refine Prod.ext sameOffset.symm ?_
            rw [← Except.ok.inj sameItem, tokenAt, read, ← past_eq_ofOffset whole, ← place]
          rw [isEntry, List.map_eq_nil_iff.mp none.symm]
      rw [isMark]
      exact .finish

/-- Scanning finds every cut. -/
theorem Cut.items_eq {text : String} {offset : Nat} {rest : List Char}
    {found : List (Nat × Token)} (cut : Cut text offset rest found) (before : List Char)
    (whole : text.toList = before ++ rest) (read : offset = (encoded before).length) :
    Cursor.items ⟨rest, 0, Position.start.past before⟩ = (found.map Prod.snd).map .ok := by
  induction cut generalizing before with
  | finish =>
    rw [Cursor.items_of_finish rfl, past_eq_ofOffset whole, ← read]
    rfl
  | @blank offset raw rest found blank after ih =>
    rw [Cursor.items_of_blank (Cursor.step_of_blank _ blank.leads), ← Position.past_append]
    exact ih (before ++ raw) (by rw [whole, List.append_assoc])
      (by rw [read, encoded_append, List.length_append])
  | @token offset kind raw rest found longest bare after ih =>
    have later := ih (before ++ raw) (by rw [whole, List.append_assoc])
      (by rw [read, encoded_append, List.length_append])
    rw [Cursor.items_of_item (Cursor.step_of_token _ (longest.leads_token bare)),
      ← Position.past_append, later, past_eq_ofOffset whole, ← read]
    rfl

theorem exists_tokenized {text : String} {tokens : List Token} (scanned : scan text = .ok tokens) :
    ∃ found, Tokenized text found ∧ found.map Prod.snd = tokens := by
  have items := eq_map_of_collect scanned
  rw [scanAll, ← Cursor.map_placed 0] at items
  obtain ⟨found, sound, same⟩ := exists_of_map_snd items
  have cut : Cut text 0 text.toList found :=
    cut_of_placed 0 (.start text.toList) [] found rfl rfl rfl rfl sound
  exact ⟨found, cut.tokenized, same⟩

/-- Scanning succeeds exactly where a text can be cut into longest lexemes with only blanks and
comments between them, and gives the tokens of that cut. -/
theorem tokens_are_longest_lexemes (text : String) (tokens : List Token) :
    scan text = .ok tokens ↔ ∃ found, Tokenized text found ∧ found.map Prod.snd = tokens := by
  refine ⟨exists_tokenized, ?_⟩
  rintro ⟨found, tokenized, rfl⟩
  rw [scan, scanAll, Cursor.start, ← collect_map_ok]
  exact congrArg collect (tokenized.cut.items_eq [] rfl rfl)

end ClassScript.Token
