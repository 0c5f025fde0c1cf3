import ClassScript.Proofs.Spellings
import Mathlib.Data.List.TakeWhile

/-!
What stands at the front of a text: the longest lexeme that begins it, or a blank character or a
comment.
-/

set_option autoImplicit false

namespace ClassScript.Lexeme

private theorem unescape?_eq_some {c decoded : Char} :
    unescape? c = some decoded ↔ (c, decoded) ∈ escapes := by
  constructor
  · intro known
    unfold unescape? at known
    split at known <;> cases known <;> decide
  · intro listed
    simp only [escapes, List.mem_cons, Prod.mk.injEq, List.not_mem_nil, or_false] at listed
    rcases listed with ⟨rfl, rfl⟩ | ⟨rfl, rfl⟩ | ⟨rfl, rfl⟩ | ⟨rfl, rfl⟩ | ⟨rfl, rfl⟩ |
      ⟨rfl, rfl⟩ <;> rfl

theorem Quoted.stringBody_eq {raw value : List Char} (quoted : Quoted raw value)
    (rest : List Char) : stringBody (raw ++ '"' :: rest) = .closed (raw ++ ['"']) value rest := by
  induction quoted with
  | nil => simp [stringBody]
  | plain unquoted unescaped _ ih => simp [stringBody, unescaped, ih, StringBody.cons]
  | escape known _ ih =>
    simp [stringBody, unescape?_eq_some.mpr known, ih, StringBody.cons]

private theorem quoted_of_stringBody {text raw value rest : List Char}
    (found : stringBody text = .closed raw value rest) :
    ∃ inner, raw = inner ++ ['"'] ∧ Quoted inner value := by
  fun_induction stringBody text generalizing raw value with
  | case1 => cases found
  | case2 after =>
    cases found
    exact ⟨[], rfl, .nil⟩
  | case3 => cases found
  | case4 c after decoded known ih =>
    obtain ⟨raw', value', closes, rfl, rfl⟩ := StringBody.cons_eq_closed.mp found
    obtain ⟨inner, rfl, quoted⟩ := ih closes
    exact ⟨'\\' :: c :: inner, rfl, .escape (unescape?_eq_some.mp known) quoted⟩
  | case5 c after unknown => cases found
  | case6 c after unquoted lone unescaped ih =>
    obtain ⟨raw', value', closes, rfl, rfl⟩ := StringBody.cons_eq_closed.mp found
    obtain ⟨inner, rfl, quoted⟩ := ih closes
    have plain : c ≠ '\\' := by
      rintro rfl
      cases after with
      | nil => exact lone rfl rfl
      | cons d after => exact unescaped d after rfl rfl
    exact ⟨c :: inner, rfl, .plain unquoted plain quoted⟩

/-- What may stand between lexemes: a blank character, a comment up to the end of its line, and a
comment up to the first mark that closes it. -/
inductive Blank : List Char → List Char → Prop where
  | space {c : Char} {rest : List Char} (listed : c ∈ [' ', '\t', '\r', '\n']) : Blank [c] rest
  | line {body rest : List Char} (unbroken : '\n' ∉ body)
    (ends : rest = [] ∨ ∃ more, rest = '\n' :: more) : Blank ('/' :: '/' :: body) rest
  | block {body rest : List Char} (unclosed : ¬ ['*', '/'] <:+: body ++ ['*']) :
    Blank ('/' :: '*' :: (body ++ ['*', '/'])) rest

/-- A comment begins here, closed or not. -/
def OpensComment (text : List Char) : Prop :=
  ['/', '/'] <+: text ∨ ['/', '*'] <+: text

private theorem isSpace_iff {c : Char} : isSpace c = true ↔ c ∈ [' ', '\t', '\r', '\n'] := by
  simp [isSpace, or_assoc]

theorem opensComment_cons {first : Char} {rest : List Char} : OpensComment (first :: rest) ↔
    first = '/' ∧ ∃ second more, rest = second :: more ∧ (second = '/' ∨ second = '*') := by
  cases rest with
  | nil => simp [OpensComment]
  | cons second more =>
    simp only [OpensComment, List.cons_prefix_cons, List.nil_prefix, and_true]
    constructor
    · rintro (⟨rfl, rfl⟩ | ⟨rfl, rfl⟩)
      · exact ⟨rfl, _, more, rfl, .inl rfl⟩
      · exact ⟨rfl, _, more, rfl, .inr rfl⟩
    · rintro ⟨rfl, _, _, ⟨rfl, rfl⟩, rfl | rfl⟩
      · exact .inl ⟨rfl, rfl⟩
      · exact .inr ⟨rfl, rfl⟩

private theorem commentBody?_of_unclosed {body : List Char}
    (unclosed : ¬ ['*', '/'] <:+: body ++ ['*']) (rest : List Char) :
    commentBody? (body ++ '*' :: '/' :: rest) = some (body ++ ['*', '/'], rest) := by
  induction body with
  | nil => rfl
  | cons c body ih =>
    rw [List.cons_append, List.infix_cons_iff, not_or] at unclosed
    obtain ⟨here, later⟩ := unclosed
    have goes_on (more : List Char) (star : c = '*')
        (slash : body ++ '*' :: '/' :: rest = '/' :: more) : False := by
      subst star
      cases body with
      | nil => simp at slash
      | cons d body =>
        obtain ⟨rfl, -⟩ := List.cons.inj slash
        exact here ⟨body ++ ['*'], rfl⟩
    rw [List.cons_append, commentBody?, ih later]
    · rfl
    · exact goes_on

private theorem unclosed_of_commentBody? {text closing rest : List Char}
    (found : commentBody? text = some (closing, rest)) :
    ∃ body, closing = body ++ ['*', '/'] ∧ ¬ ['*', '/'] <:+: body ++ ['*'] := by
  fun_induction commentBody? text generalizing closing with
  | case1 => cases found
  | case2 after =>
    obtain ⟨rfl, rfl⟩ := Prod.mk.inj (Option.some.inj found)
    exact ⟨[], rfl, by decide⟩
  | case3 c after other ih =>
    obtain ⟨⟨closing', rest'⟩, closes, same⟩ := Option.map_eq_some_iff.mp found
    obtain ⟨rfl, rfl⟩ := Prod.mk.inj same
    obtain ⟨body, rfl, unclosed⟩ := ih closes
    refine ⟨c :: body, rfl, ?_⟩
    rw [List.cons_append, List.infix_cons_iff, not_or]
    refine ⟨?_, unclosed⟩
    rw [List.cons_prefix_cons]
    rintro ⟨rfl, begins⟩
    have spelling := commentBody?_eq_some closes
    cases body with
    | nil => simp at begins
    | cons d body =>
      obtain ⟨rfl, -⟩ := List.cons_prefix_cons.mp begins
      exact other _ rfl spelling

section Front

variable {kind : Token.Kind} {first : Char} {rest raw : List Char}

theorem front_of_isDigit (digit : isDigit first = true) :
    front first rest = numberFront first rest := by
  have := toNat_of_isDigit digit
  have solid : isSpace first = false := isSpace_eq_false_of_toNat (by omega)
  simp [front, solid, digit]

theorem front_of_isWordStart (starts : isWordStart first = true) :
    front first rest = wordFront first rest := by
  have letter := toNat_of_isWordStart starts
  have solid : isSpace first = false := isSpace_eq_false_of_toNat (by omega)
  have other : isDigit first = false := by
    rw [Bool.eq_false_iff]
    intro digit
    have := toNat_of_isDigit digit
    omega
  simp [front, solid, other, starts]

theorem front_quote : front '"' rest = stringFront rest := rfl

theorem front_of_isMark (mark : IsMark first) (bare : ¬ OpensComment (first :: rest)) :
    front first rest = markFront first rest := by
  obtain ⟨solid, other, nonword, unquoted⟩ := mark
  rw [opensComment_cons] at bare
  unfold front
  simp only [solid, other, nonword, unquoted, Bool.false_eq_true, if_false]
  split
  · exact absurd ⟨rfl, _, _, rfl, .inl rfl⟩ bare
  · exact absurd ⟨rfl, _, _, rfl, .inr rfl⟩ bare
  · rfl

theorem isDigit_of_mem_fractionDigits {text : List Char} {c : Char}
    (member : c ∈ fractionDigits text) : isDigit c = true := by
  fun_cases fractionDigits text with
  | case1 d more digit =>
    rw [fractionDigits, if_pos digit] at member
    rcases List.mem_cons.mp member with rfl | later
    · exact digit
    · exact List.mem_takeWhile_imp later
  | case2 d more other => simp [fractionDigits, other] at member
  | case3 text absent => simp [fractionDigits] at member

theorem isDigit_of_mem_cons_takeWhile (digit : isDigit first = true) :
    ∀ c ∈ first :: rest.takeWhile isDigit, isDigit c = true :=
  List.forall_mem_cons.mpr ⟨digit, fun _ member => List.mem_takeWhile_imp member⟩

theorem spells_of_front (found : front first rest = .token kind raw) : Spells kind raw := by
  cases fronted_of_front found with
  | whole digit => exact .whole (List.cons_ne_nil _ _) (isDigit_of_mem_cons_takeWhile digit)
  | fraction digit some =>
    exact .fraction (List.cons_ne_nil _ _) (isDigit_of_mem_cons_takeWhile digit) some
      fun _ member => isDigit_of_mem_fractionDigits member
  | word starts => exact spells_wordKind starts fun _ member => List.mem_takeWhile_imp member
  | string closes =>
    obtain ⟨inner, rfl, quoted⟩ := quoted_of_stringBody closes
    exact .string quoted
  | double mark => exact spells_doubleMark mark
  | single mark => exact spells_singleMark mark

theorem front_block {closed : List Char × List Char} (closes : commentBody? rest = some closed) :
    front '/' ('*' :: rest) = .blank ('/' :: '*' :: closed.1) := by
  simp [front, isSpace, isDigit, isWordStart, closes]

theorem front_block_open (unclosed : commentBody? rest = none) :
    front '/' ('*' :: rest) = .fault .unterminatedComment ['/', '*'] := by
  simp [front, isSpace, isDigit, isWordStart, unclosed]

private theorem bare_of_front (found : front first rest = .token kind raw) :
    ¬ OpensComment (first :: rest) := by
  rw [opensComment_cons]
  rintro ⟨rfl, second, more, rfl, rfl | rfl⟩
  · cases found
  · cases closes : commentBody? more with
    | none =>
      rw [front_block_open closes] at found
      cases found
    | some closed =>
      rw [front_block closes] at found
      cases found

private theorem blank_line (comment : List Char) :
    Blank ('/' :: '/' :: comment.takeWhile (· ≠ '\n')) (comment.dropWhile (· ≠ '\n')) := by
  refine .line (fun member => by simpa using List.mem_takeWhile_imp member) ?_
  cases after : comment.dropWhile (· ≠ '\n') with
  | nil => exact .inl rfl
  | cons c more =>
    have ends := List.head?_dropWhile_not (· ≠ '\n') comment
    rw [after] at ends
    exact .inr ⟨more, by simpa using ends⟩

private theorem blank_of_front (found : front first rest = .blank raw) :
    ∃ after, first :: rest = raw ++ after ∧ Blank raw after := by
  cases fronted_of_front found with
  | space space => exact ⟨rest, rfl, .space (isSpace_iff.mp space)⟩
  | @line comment =>
    refine ⟨comment.dropWhile (· ≠ '\n'), ?_, blank_line comment⟩
    rw [List.cons_append, List.cons_append, List.takeWhile_append_dropWhile]
  | @block comment _ after closes =>
    obtain ⟨body, rfl, unclosed⟩ := unclosed_of_commentBody? closes
    refine ⟨after, ?_, .block unclosed⟩
    rw [commentBody?_eq_some closes]
    rfl

end Front

theorem Blank.leads {raw rest : List Char} (blank : Blank raw rest) :
    Leads (raw ++ rest) (.blank raw) := by
  cases blank with
  | @space c rest listed =>
    refine ⟨c, rest, rfl, ?_⟩
    exact if_pos (isSpace_iff.mpr listed)
  | @line body rest unbroken ends =>
    refine ⟨'/', '/' :: (body ++ rest), rfl, ?_⟩
    have inside : ∀ c ∈ body, decide (c ≠ '\n') = true := by
      intro c member
      rw [decide_eq_true_eq]
      rintro rfl
      exact unbroken member
    have stops : rest.takeWhile (· ≠ '\n') = [] := by
      rcases ends with rfl | ⟨more, rfl⟩ <;> simp
    change Front.blank ('/' :: '/' :: (body ++ rest).takeWhile (· ≠ '\n')) = _
    rw [List.takeWhile_append_of_pos inside, stops, List.append_nil]
  | @block body rest unclosed =>
    refine ⟨'/', '*' :: (body ++ ['*', '/'] ++ rest), rfl, ?_⟩
    rw [List.append_assoc, List.cons_append, List.cons_append, List.nil_append,
      front_block (commentBody?_of_unclosed unclosed rest)]

/-- The lexeme is the longest with which the text begins, and it spells the token and no other. -/
structure Longest (kind : Token.Kind) (raw text : List Char) : Prop where
  spells : Spells kind raw
  leads : raw <+: text
  longest : ∀ kind' raw', Spells kind' raw' → raw' <+: text →
    raw'.length < raw.length ∨ raw' = raw ∧ kind' = kind

private theorem prefix_takeWhile {p : Char → Bool} {tail rest : List Char} (leads : tail <+: rest)
    (all : ∀ c ∈ tail, p c = true) : tail <+: rest.takeWhile p := by
  obtain ⟨more, rfl⟩ := leads
  rw [List.takeWhile_append_of_pos all]
  exact List.prefix_append _ _

private theorem fractionDigits_point {digits : List Char} (some : digits ≠ [])
    (digital : ∀ c ∈ digits, isDigit c = true) (rest : List Char) :
    fractionDigits ('.' :: (digits ++ rest)) = digits ++ rest.takeWhile isDigit := by
  obtain ⟨first, more, rfl⟩ := List.exists_cons_of_ne_nil some
  obtain ⟨digit, digital⟩ := List.forall_mem_cons.mp digital
  rw [List.cons_append, fractionDigits, if_pos digit, List.takeWhile_append_of_pos digital,
    List.cons_append]

namespace Spells

variable {kind : Token.Kind} {first : Char} {rest tail : List Char}

theorem Shape.munched (shape : Shape kind first tail) (leads : tail <+: rest)
    (bare : ¬ OpensComment (first :: rest)) :
    ∃ kind' raw, front first rest = .token kind' raw ∧
      ((first :: tail).length < raw.length ∨ first :: tail = raw ∧ kind = kind') := by
  cases shape with
  | word starts continues =>
    have inside := prefix_takeWhile leads continues
    refine ⟨_, _, front_of_isWordStart starts, ?_⟩
    rcases Nat.lt_or_eq_of_le inside.length_le with less | same
    · exact .inl (by simpa using less)
    · rw [inside.eq_of_length same]
      exact .inr ⟨rfl, rfl⟩
  | whole digit digital =>
    have inside := prefix_takeWhile leads digital
    have shorter := inside.length_le
    rw [front_of_isDigit digit]
    by_cases none : fractionDigits (rest.dropWhile isDigit) = []
    · refine ⟨_, _, numberFront_of_whole none, ?_⟩
      rcases Nat.lt_or_eq_of_le shorter with less | same
      · exact .inl (by simpa using less)
      · rw [inside.eq_of_length same]
        exact .inr ⟨rfl, rfl⟩
    · refine ⟨_, _, numberFront_of_fraction none, .inl ?_⟩
      simp only [List.length_cons, List.length_append]
      omega
  | @fraction _ digits more digit digital some digital' =>
    obtain ⟨after, rfl⟩ := leads
    have whole : (digits ++ '.' :: more ++ after).takeWhile isDigit = digits := by
      rw [List.append_assoc, List.takeWhile_append_of_pos digital]
      exact List.append_nil digits
    have point : (digits ++ '.' :: more ++ after).dropWhile isDigit = '.' :: (more ++ after) := by
      rw [List.append_assoc, List.dropWhile_append_of_pos digital]
      rfl
    have taken := fractionDigits_point some digital' after
    have nonempty : fractionDigits ((digits ++ '.' :: more ++ after).dropWhile isDigit) ≠ [] := by
      rw [point, taken]
      simp [some]
    refine ⟨_, _, (front_of_isDigit digit).trans (numberFront_of_fraction nonempty), ?_⟩
    rw [whole, point, taken]
    cases later : after.takeWhile isDigit with
    | nil => exact .inr ⟨by simp, by simp⟩
    | cons c others =>
      left
      simp only [List.length_cons, List.length_append]
      omega
  | @string raw value quoted =>
    obtain ⟨after, rfl⟩ := leads
    refine ⟨_, _, ?_, .inr ⟨rfl, rfl⟩⟩
    rw [front_quote, stringFront, List.append_assoc, List.cons_append, List.nil_append,
      quoted.stringBody_eq]
  | single found =>
    rw [front_of_isMark (isMark_of_singleMark? found) bare, markFront, found]
    cases rest with
    | nil => exact ⟨_, _, rfl, .inr ⟨rfl, rfl⟩⟩
    | cons second after =>
      simp only [List.head?_cons, Option.bind_some]
      cases doubleMark? first second with
      | none => exact ⟨_, _, rfl, .inr ⟨rfl, rfl⟩⟩
      | some which => exact ⟨_, _, rfl, .inl (by simp)⟩
  | @double _ second which found =>
    obtain ⟨after, rfl⟩ := leads
    refine ⟨_, _, ?_, .inr ⟨rfl, rfl⟩⟩
    rw [front_of_isMark (isMark_of_doubleMark? found) bare]
    simp [markFront, found]

theorem exists_tail {raw : List Char} (spells : Spells kind raw) (leads : raw <+: first :: rest) :
    ∃ tail, raw = first :: tail ∧ tail <+: rest :=
  (List.prefix_cons_iff.mp leads).resolve_left spells.ne_nil

end Spells

variable {kind : Token.Kind} {first : Char} {rest raw text : List Char}

private theorem longest_of_front (found : front first rest = .token kind raw) :
    Longest kind raw (first :: rest) := by
  refine ⟨spells_of_front found, ?_, fun kind' raw' spells leads => ?_⟩
  · have taken := front_raw_prefix first rest
    rwa [found] at taken
  · obtain ⟨tail, rfl, begins⟩ := spells.exists_tail leads
    obtain ⟨kind₂, raw₂, found₂, longer⟩ := spells.shape.munched begins (bare_of_front found)
    cases found.symm.trans found₂
    exact longer

theorem Leads.longest (leads : Leads text (.token kind raw)) :
    Longest kind raw text ∧ ¬ OpensComment text := by
  obtain ⟨first, rest, rfl, found⟩ := leads
  exact ⟨longest_of_front found, bare_of_front found⟩

theorem Leads.isBlank (leads : Leads (raw ++ rest) (.blank raw)) : Blank raw rest := by
  obtain ⟨first, tail, spelling, found⟩ := leads
  obtain ⟨after, spelling', blank⟩ := blank_of_front found
  have same : rest = after := List.append_cancel_left (spelling.trans spelling')
  rwa [same]

/-- The longest lexeme is the token that stands at the front. -/
theorem Longest.leads_token (longest : Longest kind raw text) (bare : ¬ OpensComment text) :
    Leads text (.token kind raw) := by
  cases text with
  | nil => exact absurd (List.prefix_nil.mp longest.leads) longest.spells.ne_nil
  | cons first rest =>
    obtain ⟨tail, rfl, begins⟩ := longest.spells.exists_tail longest.leads
    obtain ⟨kind', raw', found, longer⟩ := longest.spells.shape.munched begins bare
    refine ⟨first, rest, rfl, ?_⟩
    rcases longer with less | ⟨rfl, rfl⟩
    -- A longer token at the front would be a longer lexeme.
    · have other := longest_of_front found
      rcases longest.longest kind' raw' other.spells other.leads with less' | ⟨rfl, -⟩
      · omega
      · omega
    · exact found

end ClassScript.Lexeme
