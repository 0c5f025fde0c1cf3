import ClassScript.Token.Scan
import Mathlib.Data.List.Basic

/-!
What a step of scanning takes from the front of a text is a piece of that text.
-/

set_option autoImplicit false

namespace ClassScript

namespace Lexeme

variable {raw rest value text : List Char} {first : Char} {found : Front}

theorem StringBody.cons_eq_closed {body : StringBody} {spelling : List Char} {c : Char} :
    body.cons spelling c = .closed raw value rest ↔
      ∃ raw' value', body = .closed raw' value' rest ∧ raw = spelling ++ raw' ∧
        value = c :: value' := by
  cases body with
  | closed raw' value' rest' =>
    simp only [cons, closed.injEq]
    constructor
    · rintro ⟨rfl, rfl, rfl⟩
      exact ⟨raw', value', ⟨rfl, rfl, rfl⟩, rfl, rfl⟩
    · rintro ⟨raw'', value'', ⟨rfl, rfl, rfl⟩, rfl, rfl⟩
      exact ⟨rfl, rfl, rfl⟩
  | invalidEscape _ _ _ => simp [cons]
  | unterminated => simp [cons]

private theorem stringBody_eq_closed (found : stringBody text = .closed raw value rest) :
    text = raw ++ rest := by
  fun_induction stringBody text generalizing raw value with
  | case1 => cases found
  | case2 after =>
    cases found
    rfl
  | case3 => cases found
  | case4 c after decoded known ih =>
    obtain ⟨inner, values, closes, rfl, -⟩ := StringBody.cons_eq_closed.mp found
    simp [ih closes]
  | case5 c after unknown => cases found
  | case6 c after _ _ _ ih =>
    obtain ⟨inner, values, closes, rfl, -⟩ := StringBody.cons_eq_closed.mp found
    simp [ih closes]

theorem commentBody?_eq_some {body : List Char} (found : commentBody? text = some (body, rest)) :
    text = body ++ rest := by
  fun_induction commentBody? text generalizing body with
  | case1 => simp at found
  | case2 after =>
    obtain ⟨rfl, rfl⟩ := found
    rfl
  | case3 c after _ ih =>
    obtain ⟨⟨inner, rest'⟩, closes, same⟩ := Option.map_eq_some_iff.mp found
    obtain ⟨rfl, rfl⟩ := Prod.mk.inj same
    rw [List.cons_append, ← ih closes]

theorem fractionDigits_begins (some : fractionDigits text ≠ []) :
    '.' :: fractionDigits text <+: text := by
  fun_cases fractionDigits text with
  | case1 c rest digit =>
    exact List.cons_prefix_cons.mpr ⟨rfl, List.cons_prefix_cons.mpr
      ⟨rfl, List.takeWhile_prefix _⟩⟩
  | case2 c rest other => simp [fractionDigits, other] at some
  | case3 text absent => simp [fractionDigits] at some

theorem numberFront_of_whole (none : fractionDigits (rest.dropWhile isDigit) = []) :
    numberFront first rest =
      .token (.number (Number.ofDigits (first :: rest.takeWhile isDigit) []))
        (first :: rest.takeWhile isDigit) := by
  simp [numberFront, none]

theorem numberFront_of_fraction (some : fractionDigits (rest.dropWhile isDigit) ≠ []) :
    numberFront first rest =
      .token (.number (Number.ofDigits (first :: rest.takeWhile isDigit)
          (fractionDigits (rest.dropWhile isDigit))))
        (first :: rest.takeWhile isDigit ++ '.' :: fractionDigits (rest.dropWhile isDigit)) := by
  simp [numberFront, some]

/-- What stands at the front of a text, by the first characters of the text. -/
inductive Fronted : Char → List Char → Front → Prop where
  | space {first : Char} {rest : List Char} (space : isSpace first = true) :
    Fronted first rest (.blank [first])
  | whole {first : Char} {rest : List Char} (digit : isDigit first = true) :
    Fronted first rest
      (.token (.number (Number.ofDigits (first :: rest.takeWhile isDigit) []))
        (first :: rest.takeWhile isDigit))
  | fraction {first : Char} {rest : List Char} (digit : isDigit first = true)
    (some : fractionDigits (rest.dropWhile isDigit) ≠ []) :
    Fronted first rest
      (.token (.number (Number.ofDigits (first :: rest.takeWhile isDigit)
          (fractionDigits (rest.dropWhile isDigit))))
        (first :: rest.takeWhile isDigit ++ '.' :: fractionDigits (rest.dropWhile isDigit)))
  | word {first : Char} {rest : List Char} (starts : isWordStart first = true) :
    Fronted first rest
      (.token (wordKind (String.ofList (first :: rest.takeWhile isWordPart)))
        (first :: rest.takeWhile isWordPart))
  | string {rest raw value after : List Char} (closes : stringBody rest = .closed raw value after) :
    Fronted '"' rest (.token (.string (String.ofList value)) ('"' :: raw))
  | escape {rest raw after : List Char} {escaped : Char}
    (stops : stringBody rest = .invalidEscape raw escaped after) :
    Fronted '"' rest (.escapeFault ('"' :: raw) escaped)
  | openString {rest : List Char} : Fronted '"' rest (.fault .unterminatedString ('"' :: rest))
  | line {comment : List Char} :
    Fronted '/' ('/' :: comment) (.blank ('/' :: '/' :: comment.takeWhile (· ≠ '\n')))
  | block {comment body after : List Char} (closes : commentBody? comment = some (body, after)) :
    Fronted '/' ('*' :: comment) (.blank ('/' :: '*' :: body))
  | openComment {comment : List Char} :
    Fronted '/' ('*' :: comment) (.fault .unterminatedComment ['/', '*'])
  | double {first second : Char} {rest : List Char} {which : Terminal}
    (found : doubleMark? first second = some which) :
    Fronted first (second :: rest) (.token (.terminal which) [first, second])
  | single {first : Char} {rest : List Char} {which : Terminal}
    (found : singleMark? first = some which) : Fronted first rest (.token (.terminal which) [first])
  | unexpected {first : Char} {rest : List Char} :
    Fronted first rest (.fault (.unexpected first) [first])

private theorem fronted_mark (first : Char) (rest : List Char) :
    Fronted first rest (markFront first rest) := by
  unfold markFront
  split
  · rename_i which second double head
    obtain ⟨tail, rfl⟩ := List.head?_eq_some_iff.mp head
    exact .double double
  · split
    · rename_i which single
      exact .single single
    · exact .unexpected

private theorem fronted (first : Char) (rest : List Char) :
    Fronted first rest (front first rest) := by
  unfold front
  split
  · rename_i space
    exact .space space
  split
  · rename_i digit
    by_cases none : fractionDigits (rest.dropWhile isDigit) = []
    · rw [numberFront_of_whole none]
      exact .whole digit
    · rw [numberFront_of_fraction none]
      exact .fraction digit none
  split
  · rename_i starts
    exact .word starts
  split
  · rename_i quote
    subst quote
    unfold stringFront
    split
    · rename_i closes
      exact .string closes
    · rename_i stops
      exact .escape stops
    · exact .openString
  split
  · exact .line
  · split
    · rename_i closes
      exact .block closes
    · exact .openComment
  · exact fronted_mark first _

theorem fronted_of_front (isFront : front first rest = found) : Fronted first rest found :=
  isFront ▸ fronted first rest

theorem Fronted.raw_begins (fronted : Fronted first rest found) : found.raw <+: first :: rest := by
  cases fronted with
  | space _ => exact ⟨rest, rfl⟩
  | whole _ | word _ => exact List.cons_prefix_cons.mpr ⟨rfl, List.takeWhile_prefix _⟩
  | fraction _ some =>
    have point := (List.prefix_append_right_inj (rest.takeWhile isDigit)).mpr
      (fractionDigits_begins some)
    rw [List.takeWhile_append_dropWhile] at point
    exact List.cons_prefix_cons.mpr ⟨rfl, point⟩
  | @string _ _ _ after closes =>
    rw [stringBody_eq_closed closes]
    exact ⟨after, rfl⟩
  | escape stops =>
    rw [stringBody_eq_invalidEscape stops]
    exact ⟨_, rfl⟩
  | openString => exact List.prefix_refl _
  | line =>
    exact List.cons_prefix_cons.mpr ⟨rfl, List.cons_prefix_cons.mpr
      ⟨rfl, List.takeWhile_prefix _⟩⟩
  | @block _ _ after closes =>
    rw [commentBody?_eq_some closes]
    exact ⟨after, rfl⟩
  | @openComment comment => exact ⟨comment, rfl⟩
  | @double _ _ tail _ _ => exact ⟨tail, rfl⟩
  | single _ => exact ⟨rest, rfl⟩
  | unexpected => exact ⟨rest, rfl⟩

theorem front_raw_prefix (first : Char) (rest : List Char) :
    (front first rest).raw <+: first :: rest :=
  (fronted first rest).raw_begins

/-- The fault begins the given text. -/
def FaultBegins : LexicalFault → List Char → Prop
  | .unexpected c, raw => raw = [c]
  | .unterminatedComment, raw => raw = ['/', '*']
  | .unterminatedString, raw => ∃ body, raw = '"' :: body
  | .brokenCharacter, _ | .invalidEscape _, _ => False

theorem faultBegins_of_front {cause : LexicalFault} (found : front first rest = .fault cause raw) :
    FaultBegins cause raw := by
  cases fronted_of_front found with
  | openString => exact ⟨rest, rfl⟩
  | openComment => rfl
  | unexpected => rfl

private theorem wordKind_ne_finish (word : String) : wordKind word ≠ .finish := by
  unfold wordKind
  split <;> simp

theorem kind_ne_finish_of_front {kind : Token.Kind} (found : front first rest = .token kind raw) :
    kind ≠ .finish := by
  cases fronted_of_front found with
  | word _ => exact wordKind_ne_finish _
  | _ => simp

/-- What stands at the front of a text. -/
def Leads (text : List Char) (found : Front) : Prop :=
  ∃ first rest, text = first :: rest ∧ front first rest = found

theorem Leads.raw_ne_nil (leads : Leads text found) : found.raw ≠ [] := by
  obtain ⟨first, rest, -, rfl⟩ := leads
  exact front_raw_ne_nil first rest

end Lexeme

namespace Token.Cursor

open Lexeme

/-- What one step of scanning does: the text is cut after the piece that is found, or after the
first byte of a character that a backslash does not go with. -/
inductive Stepped : Cursor → Step → Prop where
  | blank {raw rest : List Char} {position : Position} (leads : Leads (raw ++ rest) (.blank raw)) :
    Stepped ⟨raw ++ rest, 0, position⟩ (.blank ⟨rest, 0, position.past raw⟩)
  | token {kind : Kind} {raw rest : List Char} {position : Position}
    (leads : Leads (raw ++ rest) (.token kind raw)) :
    Stepped ⟨raw ++ rest, 0, position⟩
      (.item (.ok { kind, lexeme := String.ofList raw, position }) ⟨rest, 0, position.past raw⟩)
  | fault {cause : LexicalFault} {raw rest : List Char} {position : Position}
    (leads : Leads (raw ++ rest) (.fault cause raw)) :
    Stepped ⟨raw ++ rest, 0, position⟩
      (.item (.error ⟨cause, position⟩) ⟨rest, 0, position.past raw⟩)
  | escape {raw rest : List Char} {escaped : Char} {position : Position}
    (leads : Leads (raw ++ '\\' :: escaped :: rest) (.escapeFault raw escaped)) :
    Stepped ⟨raw ++ '\\' :: escaped :: rest, 0, position⟩
      (.item (.error ⟨.invalidEscape (leadingByte escaped), position.past raw⟩)
        ⟨rest, escaped.utf8Size - 1, (position.past raw).right 2⟩)
  | torn {rest : List Char} {torn : Nat} {position : Position} (broken : torn ≠ 0) :
    Stepped ⟨rest, torn, position⟩
      (.item (.error ⟨.brokenCharacter, position⟩) ⟨rest, 0, position.right torn⟩)
  | finish {position : Position} :
    Stepped ⟨[], 0, position⟩ (.finish { kind := .finish, lexeme := "", position })

theorem skip_append (raw rest : List Char) (position : Position) :
    skip ⟨raw ++ rest, 0, position⟩ raw = ⟨rest, 0, position.past raw⟩ := by
  simp [skip]

section Step

variable {raw rest : List Char} (position : Position)

theorem step_of_blank (leads : Leads (raw ++ rest) (.blank raw)) :
    step ⟨raw ++ rest, 0, position⟩ = .blank ⟨rest, 0, position.past raw⟩ := by
  rw [← skip_append]
  obtain ⟨first, tail, spelling, found⟩ := leads
  simp [step, spelling, found]

theorem step_of_token {kind : Kind} (leads : Leads (raw ++ rest) (.token kind raw)) :
    step ⟨raw ++ rest, 0, position⟩ =
      .item (.ok { kind, lexeme := String.ofList raw, position }) ⟨rest, 0, position.past raw⟩ := by
  rw [← skip_append]
  obtain ⟨first, tail, spelling, found⟩ := leads
  simp [step, spelling, found]

theorem step_of_fault {cause : LexicalFault} (leads : Leads (raw ++ rest) (.fault cause raw)) :
    step ⟨raw ++ rest, 0, position⟩ =
      .item (.error ⟨cause, position⟩) ⟨rest, 0, position.past raw⟩ := by
  rw [← skip_append]
  obtain ⟨first, tail, spelling, found⟩ := leads
  simp [step, spelling, found]

theorem step_of_escapeFault {escaped : Char}
    (leads : Leads (raw ++ '\\' :: escaped :: rest) (.escapeFault raw escaped)) :
    step ⟨raw ++ '\\' :: escaped :: rest, 0, position⟩ =
      .item (.error ⟨.invalidEscape (leadingByte escaped), position.past raw⟩)
        ⟨rest, escaped.utf8Size - 1, (position.past raw).right 2⟩ := by
  have after : (raw ++ '\\' :: escaped :: rest).drop (raw.length + 2) = rest := by
    simp [List.drop_append]
  obtain ⟨first, tail, spelling, found⟩ := leads
  rw [spelling] at after ⊢
  simp [step, found, after]

end Step

theorem stepped (cursor : Cursor) : Stepped cursor cursor.step := by
  obtain ⟨text, torn, position⟩ := cursor
  by_cases broken : torn ≠ 0
  · simp only [step, if_pos broken]
    exact .torn broken
  · obtain rfl : torn = 0 := by omega
    cases text with
    | nil => exact .finish
    | cons first tail =>
      have leads : Leads (first :: tail) (front first tail) := ⟨first, tail, rfl, rfl⟩
      obtain ⟨rest, spelling⟩ := front_raw_prefix first tail
      cases found : front first tail with
      | blank raw =>
        rw [found] at leads spelling
        rw [← spelling] at leads ⊢
        rw [step_of_blank position leads]
        exact .blank leads
      | token kind raw =>
        rw [found] at leads spelling
        rw [← spelling] at leads ⊢
        rw [step_of_token position leads]
        exact .token leads
      | fault cause raw =>
        rw [found] at leads spelling
        rw [← spelling] at leads ⊢
        rw [step_of_fault position leads]
        exact .fault leads
      | escapeFault raw escaped =>
        rw [found] at leads
        obtain ⟨rest, spelling⟩ := front_eq_escapeFault found
        rw [spelling] at leads ⊢
        rw [step_of_escapeFault position leads]
        exact .escape leads

end Token.Cursor

end ClassScript
