import ClassScript.Proofs.Munch
import ClassScript.Proofs.TokenPlaces

/-!
String literals and the characters that they stand for.
-/

set_option autoImplicit false

namespace ClassScript

namespace Lexeme

def spellingsOf : Char → List (List Char)
  | '"' => [['\\', '"']]
  | '\\' => [['\\', '\\']]
  | '\n' => [['\n'], ['\\', 'n']]
  | '\t' => [['\t'], ['\\', 't']]
  | '\r' => [['\r'], ['\\', 'r']]
  | '\x00' => [['\x00'], ['\\', '0']]
  | c => [[c]]

def Spelled (value raw : List Char) : Prop :=
  ∃ pieces, List.Forall₂ (fun c piece => piece ∈ spellingsOf c) value pieces ∧ raw = pieces.flatten

/-- What a text between quotes stands for: a backslash and the character after it are one. -/
def unescaped : List Char → List Char
  | [] => []
  | '\\' :: c :: rest => (escapes.lookup c).getD c :: unescaped rest
  | c :: rest => c :: unescaped rest

def literal (raw : List Char) : String :=
  String.ofList ('"' :: raw ++ ['"'])

private theorem spellingsOf_cases {c : Char} {piece : List Char}
    (spelling : piece ∈ spellingsOf c) :
    (piece = [c] ∧ c ≠ '"' ∧ c ≠ '\\') ∨ ∃ d, piece = ['\\', d] ∧ (d, c) ∈ escapes := by
  unfold spellingsOf at spelling
  split at spelling
  case h_7 quote backslash _ _ _ _ =>
    exact .inl ⟨List.mem_singleton.mp spelling, quote, backslash⟩
  all_goals
    simp only [List.mem_cons, List.not_mem_nil, or_false] at spelling
    rcases spelling with rfl | rfl <;> first
      | exact .inl ⟨rfl, by decide, by decide⟩
      | exact .inr ⟨_, rfl, by decide⟩

private theorem Spelled.quoted {value raw : List Char} (spelled : Spelled value raw) :
    Quoted raw value := by
  obtain ⟨pieces, chosen, rfl⟩ := spelled
  induction chosen with
  | nil => exact .nil
  | cons spelling _ ih =>
    obtain ⟨rfl, unquoted, unescaped⟩ | ⟨d, rfl, known⟩ := spellingsOf_cases spelling
    · exact .plain unquoted unescaped ih
    · exact .escape known ih

private theorem lookup_escapes {c decoded : Char} (known : (c, decoded) ∈ escapes) :
    escapes.lookup c = some decoded := by
  simp only [escapes, List.mem_cons, Prod.mk.injEq, List.not_mem_nil, or_false] at known
  rcases known with ⟨rfl, rfl⟩ | ⟨rfl, rfl⟩ | ⟨rfl, rfl⟩ | ⟨rfl, rfl⟩ | ⟨rfl, rfl⟩ | ⟨rfl, rfl⟩ <;>
    rfl

theorem Quoted.unescaped_eq {raw value : List Char} (quoted : Quoted raw value) :
    unescaped raw = value := by
  induction quoted with
  | nil => rfl
  | @plain c raw _ _ plain _ ih =>
    rw [unescaped.eq_3 _ _ fun _ _ same => absurd same plain, ih]
  | escape known _ ih =>
    rw [unescaped, lookup_escapes known, ih]
    rfl

end Lexeme

private theorem Position.line_past (position : Position) (cs : List Char) :
    (position.past cs).line = position.line + cs.count '\n' := by
  induction cs generalizing position with
  | nil => rfl
  | cons c cs ih =>
    have steps : position.past (c :: cs) = (position.after c).past cs := rfl
    rw [steps, ih, List.count_cons, Position.after]
    by_cases newline : c = '\n'
    · simp [newline]
      omega
    · simp [newline]

namespace Token

open Lexeme

theorem Cursor.head?_items (cursor : Cursor) : cursor.items.head? = some cursor.next.1 := by
  rw [items.eq_def]
  split <;> simp_all

theorem Cursor.spells_next {cursor : Cursor} {token : Token} (found : cursor.next.1 = .ok token) :
    token.kind = .finish ∨ Spells token.kind token.lexeme.toList := by
  fun_induction next cursor with
  | case1 cursor after _ ih => exact ih found
  | case2 cursor item after step =>
    have stepped := cursor.stepped
    rw [step] at stepped
    cases stepped with
    | token leads =>
      cases found
      obtain ⟨first, rest, -, isFront⟩ := leads
      exact .inr (by simpa using spells_of_front isFront)
    | _ => cases found
  | case3 cursor mark step =>
    have stepped := cursor.stepped
    rw [step] at stepped
    cases stepped with
    | finish =>
      cases found
      exact .inl rfl

private theorem scanAll_literal {raw value : List Char} (quoted : Quoted raw value) :
    scanAll (literal raw) =
      [.ok { kind := .string (String.ofList value), lexeme := literal raw, position := .start },
        .ok {
          kind := .finish
          lexeme := ""
          position := Position.start.past ('"' :: raw ++ ['"']) }] := by
  have leads : Leads ('"' :: raw ++ ['"'] ++ []) (.token (.string (String.ofList value))
      ('"' :: raw ++ ['"'])) := by
    refine ⟨'"', raw ++ ['"'], by simp, ?_⟩
    rw [front_quote, stringFront, quoted.stringBody_eq []]
    rfl
  have first := Cursor.items_of_item (Cursor.step_of_token .start leads)
  rw [List.append_nil] at first
  have ends (position : Position) : Cursor.step ⟨[], 0, position⟩ =
      .finish { kind := .finish, lexeme := "", position } := rfl
  rw [scanAll, literal, String.toList_ofList, Cursor.start, first,
    Cursor.items_of_finish (ends _)]

/-- A literal in which every character is written in one of its ways is read as one string token
that stands for the characters, and the end mark follows as many lines below as the literal has
newlines; and every string token that a scanner ever yields stands for its text without the quotes
and without the escapes. -/
theorem literals_decode :
    (∀ (value : String) (raw : List Char), Spelled value.toList raw → ∃ last : Position,
      scanAll (literal raw) =
        [.ok { kind := .string value, lexeme := literal raw, position := .start },
          .ok { kind := .finish, lexeme := "", position := last }] ∧
      last.line = Position.start.line + raw.count '\n') ∧
    ∀ (scanner : Scanner) (token : Token) (value : String),
      scanner.next.1 = some (.ok token) → token.kind = .string value →
      ∃ raw, token.lexeme = literal raw ∧ value.toList = unescaped raw := by
  constructor
  · intro value raw spelled
    have scans := scanAll_literal spelled.quoted
    rw [String.ofList_toList] at scans
    refine ⟨_, scans, ?_⟩
    rw [Position.line_past]
    simp
  · intro scanner token value found kind
    obtain ⟨text, _ | cursor⟩ := scanner
    · cases found
    rcases Cursor.spells_next (Option.some.inj found) with ends | spells
    · rw [ends] at kind
      cases kind
    · rw [kind] at spells
      generalize spelling : token.lexeme.toList = lexeme at spells
      cases spells with
      | @string raw _ quoted =>
        refine ⟨raw, ?_, ?_⟩
        · rw [literal, ← spelling, String.ofList_toList]
        · rw [quoted.unescaped_eq, String.toList_ofList]

def mixedSpelling : List Char :=
  ['é', '\n', '\\', 'n', '\\', '"']

/-- The literal stands for four characters, and one of its two newlines ends a line. -/
theorem mixed_spelling_decodes :
    (∃ last : Position,
      scanAll (literal mixedSpelling) =
        [.ok { kind := .string "é\n\n\"", lexeme := literal mixedSpelling, position := .start },
          .ok { kind := .finish, lexeme := "", position := last }] ∧ last.line = 2) ∧
    ∃ raw, literal mixedSpelling = literal raw ∧ "é\n\n\"".toList = unescaped raw := by
  have spelled : Spelled "é\n\n\"".toList mixedSpelling := by
    refine ⟨[['é'], ['\n'], ['\\', 'n'], ['\\', '"']], ?_, rfl⟩
    exact .cons (by decide) (.cons (by decide) (.cons (by decide) (.cons (by decide) .nil)))
  obtain ⟨last, scans, line⟩ := literals_decode.1 _ _ spelled
  refine ⟨⟨last, scans, line⟩, ?_⟩
  have first := Cursor.head?_items (.start (literal mixedSpelling).toList)
  rw [← scanAll, scans, List.head?_cons] at first
  exact literals_decode.2 (.ofText (literal mixedSpelling)) _ _ first.symm rfl

end Token

end ClassScript
