import ClassScript.Proofs.Leading
import ClassScript.Proofs.Unplaced
import Mathlib.Tactic.Choose

/-!
Phrases at other places and in front of other ends: the same tokens make the same tree, but an
expression after an arrow takes the semicolon that follows it.
-/

set_option autoImplicit false

namespace ClassScript.Phrase

open Grammar Parse

structure Ending where
  marks : List Token
  finish : Token
  areMarks : ∀ mark ∈ marks, mark.isTerminal .semicolon
  isFinish : finish.isFinish

namespace Ending

def tokens (ending : Ending) : List Token :=
  ending.marks ++ [ending.finish]

def drop (taken : Nat) (ending : Ending) : Ending where
  marks := ending.marks.drop taken
  finish := ending.finish
  areMarks := fun mark member => ending.areMarks mark (List.mem_of_mem_drop member)
  isFinish := ending.isFinish

theorem cases_tokens (ending : Ending) :
    (∃ mark, mark.isTerminal .semicolon = true ∧ ending.tokens = mark :: (ending.drop 1).tokens) ∨
      ending.tokens = [ending.finish] ∧ (ending.drop 1).tokens = [ending.finish] := by
  obtain ⟨marks, finish, areMarks, isFinish⟩ := ending
  cases marks with
  | nil => exact .inr ⟨rfl, rfl⟩
  | cons mark rest => exact .inl ⟨mark, areMarks mark List.mem_cons_self, rfl⟩

theorem drop_drop (first second : Nat) (ending : Ending) :
    (ending.drop first).drop second = ending.drop (first + second) := by
  simp only [drop, List.drop_drop]

theorem starts_tokens (ending : Ending) {which : Terminal} (apart : which ≠ .semicolon) :
    starts which ending.tokens = false := by
  obtain ⟨mark, isMark, tokens⟩ | ⟨tokens, _⟩ := ending.cases_tokens
  · rw [tokens]
    exact starts_of_isTerminal isMark apart.symm
  · rw [tokens]
    have isFinish := ending.isFinish
    unfold Token.isFinish at isFinish
    split at isFinish <;> simp_all [starts, Token.isTerminal]

theorem head_isIdentifier (ending : Ending) {token : Token} {rest : List Token}
    (tokens : ending.tokens = token :: rest) : token.isIdentifier = false := by
  obtain ⟨mark, isMark, found⟩ | ⟨found, _⟩ := ending.cases_tokens
  · obtain ⟨rfl, _⟩ := List.cons.inj (found.symm.trans tokens)
    simp [Token.isIdentifier, isTerminal_iff.mp isMark]
  · obtain ⟨rfl, _⟩ := List.cons.inj (found.symm.trans tokens)
    have isFinish := ending.isFinish
    unfold Token.isFinish at isFinish
    split at isFinish <;> simp_all [Token.isIdentifier]

end Ending

/-- Other places for tokens, and another ending in place of the end mark. -/
structure Shift where
  /-- Where the first of some tokens comes to stand. -/
  place : List Token → Position
  ending : Ending

namespace Shift

/-- Tokens at their new places, up to the ending without its first semicolons. -/
def tokens (shift : Shift) (taken : Nat) : List Token → List Token
  | [] => (shift.ending.drop taken).tokens
  | token :: rest =>
    if token.isFinish then (shift.ending.drop taken).tokens
    else { token with position := shift.place (token :: rest) } :: shift.tokens taken rest

def feed (shift : Shift) (taken : Nat) (feed : Feed) : Feed :=
  ⟨shift.tokens taken feed.tokens, feed.nextId⟩

variable (shift : Shift) {token : Token} {rest before : List Token} {which : Terminal}
  {taken : Nat}

theorem cons (plain : token.isFinish = false) : shift.tokens taken (token :: rest) =
    { token with position := shift.place (token :: rest) } :: shift.tokens taken rest := by
  simp [tokens, plain]

theorem terminal (isWhich : token.isTerminal which) : shift.tokens taken (token :: rest) =
    { token with position := shift.place (token :: rest) } :: shift.tokens taken rest :=
  shift.cons (isFinish_of_isTerminal isWhich)

theorem identifier (isName : token.isIdentifier) : shift.tokens taken (token :: rest) =
    { token with position := shift.place (token :: rest) } :: shift.tokens taken rest :=
  shift.cons (isFinish_of_isIdentifier isName)

theorem mapped {α : Type} {recognise : Terminal → Option α} {value : α}
    (isMark : Phrase.mapped recognise token = some value) : shift.tokens taken (token :: rest) =
    { token with position := shift.place (token :: rest) } :: shift.tokens taken rest := by
  obtain ⟨which, isWhich, _⟩ := mapped_eq_some_iff.mp isMark
  exact shift.terminal isWhich

theorem atEnd (ends : ended before = true) :
    shift.tokens taken before = (shift.ending.drop taken).tokens := by
  cases before with
  | nil => rfl
  | cons token rest => exact if_pos ends

theorem head (inner : ended before = false) {refused : Terminal → Prop}
    (avoids : Avoids refused before) : Avoids refused (shift.tokens taken before) := by
  cases before with
  | nil => cases inner
  | cons token rest =>
    rw [shift.cons inner]
    exact avoids

theorem starts_eq (apart : which ≠ .semicolon) :
    starts which (shift.tokens taken before) = starts which before := by
  cases ends : ended before with
  | true =>
    rw [shift.atEnd ends, Ending.starts_tokens _ apart]
    cases before with
    | nil => rfl
    | cons token rest =>
      cases isWhich : token.isTerminal which with
      | true => cases (isFinish_of_isTerminal isWhich).symm.trans ends
      | false => simp [starts, isWhich]
  | false =>
    cases before with
    | nil => cases ends
    | cons token rest =>
      rw [shift.cons ends]
      rfl

variable {moved : Token} {rest' : List Token}

theorem before_token (found : shift.tokens 0 before = moved :: rest')
    (apart : shift.ending.tokens ≠ moved :: rest') :
    ∃ token rest, before = token :: rest ∧ moved.kind = token.kind ∧
      moved.lexeme = token.lexeme ∧ rest' = shift.tokens 0 rest := by
  cases before with
  | nil => exact absurd found apart
  | cons token rest =>
    cases plain : token.isFinish with
    | true =>
      rw [tokens, if_pos plain] at found
      exact absurd found apart
    | false =>
      rw [shift.cons plain] at found
      obtain ⟨rfl, rfl⟩ := List.cons.inj found
      exact ⟨token, rest, rfl, rfl, rfl, rfl⟩

theorem before_terminal (found : shift.tokens 0 before = moved :: rest')
    (isWhich : moved.isTerminal which) (apart : which ≠ .semicolon) :
    ∃ token rest, before = token :: rest ∧ token.isTerminal which = true ∧
      rest' = shift.tokens 0 rest := by
  obtain ⟨token, rest, rfl, kind, -, same⟩ := shift.before_token found fun same => by
    have absent := shift.ending.starts_tokens apart
    simp [same, starts, isWhich] at absent
  exact ⟨token, rest, rfl, by rwa [Token.isTerminal, ← kind], same⟩

theorem before_identifier (found : shift.tokens 0 before = moved :: rest')
    (isName : moved.isIdentifier) :
    ∃ token rest, before = token :: rest ∧ token.isIdentifier = true ∧
      moved.lexeme = token.lexeme ∧ rest' = shift.tokens 0 rest := by
  obtain ⟨token, rest, rfl, kind, lexeme, same⟩ := shift.before_token found fun same => by
    simp [shift.ending.head_isIdentifier same] at isName
  exact ⟨token, rest, rfl, by rwa [Token.isIdentifier, ← kind], lexeme, same⟩

end Shift

section Types

variable (shift : Shift)

mutual

private theorem moves_type {before after : List Token} {found : TypeName} :
    TypePhrase before after found →
      TypePhrase (shift.tokens 0 before) (shift.tokens 0 after) found
  | .plain isName => by
    rw [shift.identifier isName]
    exact .plain isName
  | .generic isName opens areTypes closes => by
    have areTypes := moves_types areTypes
    rw [shift.terminal closes] at areTypes
    rw [shift.identifier isName, shift.terminal opens]
    exact .generic isName opens areTypes closes

private theorem moves_types {before after : List Token} {found : List TypeName} :
    TypePhrases before after found →
      TypePhrases (shift.tokens 0 before) (shift.tokens 0 after) found
  | .last only => .last (moves_type only)
  | .more first isComma next => by
    have first := moves_type first
    rw [shift.terminal isComma] at first
    exact .more first isComma (moves_types next)

end

mutual

private theorem moved_type {before tokens rest : List Token} {found : TypeName} :
    TypePhrase tokens rest found → shift.tokens 0 before = tokens →
      ∃ after, TypePhrase before after found ∧ shift.tokens 0 after = rest
  | .plain isName, moved => by
    obtain ⟨name, after, rfl, isName, same, rfl⟩ := shift.before_identifier moved isName
    exact ⟨after, same ▸ .plain isName, rfl⟩
  | .generic isName opens areTypes closes, moved => by
    obtain ⟨name, _, rfl, isName, same, moved⟩ := shift.before_identifier moved isName
    obtain ⟨opening, _, rfl, opens, moved⟩ := shift.before_terminal moved.symm opens (by decide)
    obtain ⟨_, isTypes, moved⟩ := moved_types areTypes moved.symm
    obtain ⟨closing, after, rfl, closes, rfl⟩ := shift.before_terminal moved closes (by decide)
    exact ⟨after, same ▸ .generic isName opens isTypes closes, rfl⟩

private theorem moved_types {before tokens rest : List Token} {found : List TypeName} :
    TypePhrases tokens rest found → shift.tokens 0 before = tokens →
      ∃ after, TypePhrases before after found ∧ shift.tokens 0 after = rest
  | .last only, moved => by
    obtain ⟨after, only, moved⟩ := moved_type only moved
    exact ⟨after, .last only, moved⟩
  | .more first isComma next, moved => by
    obtain ⟨_, first, moved⟩ := moved_type first moved
    obtain ⟨comma, _, rfl, isComma, moved⟩ := shift.before_terminal moved isComma (by decide)
    obtain ⟨after, next, moved⟩ := moved_types next moved.symm
    exact ⟨after, .more first isComma next, moved⟩

end

variable {before after : List Token}

theorem not_annotated (plain : ¬Annotated before) : ¬Annotated (shift.tokens 0 before) := by
  rintro ⟨brace, rest, found, isType, isBrace⟩
  obtain ⟨_, isType, moved⟩ := moved_type shift isType rfl
  obtain ⟨brace, rest, rfl, isBrace, -⟩ := shift.before_terminal moved isBrace (by decide)
  exact plain ⟨brace, rest, found, isType, isBrace⟩

private theorem moves_hint {hint : Option TypeName} (typed : Hint before after hint) :
    Hint (shift.tokens 0 before) (shift.tokens 0 after) hint := by
  cases typed with
  | none => exact .none
  | some isColon isType =>
    rw [shift.terminal isColon]
    exact .some isColon (moves_type shift isType)

private theorem moves_parameters {found : List Parameter}
    (parameters : Parameters before after found) :
    ∃ found', Parameters (shift.tokens 0 before) (shift.tokens 0 after) found' ∧
      found'.map Parameter.unplaced = found.map Parameter.unplaced := by
  induction parameters with
  | last isName typed =>
    rw [shift.identifier isName]
    exact ⟨_, .last isName (moves_hint shift typed), rfl⟩
  | more isName typed isComma next ih =>
    obtain ⟨others, next, same⟩ := ih
    have typed := moves_hint shift typed
    rw [shift.terminal isComma] at typed
    rw [shift.identifier isName]
    refine ⟨_, .more isName typed isComma next, ?_⟩
    rw [List.map_cons, List.map_cons, same]
    rfl

private theorem moves_parameterList {found : List Parameter}
    (declared : ParameterList before after found) :
    ∃ found', ParameterList (shift.tokens 0 before) (shift.tokens 0 after) found' ∧
      found'.map Parameter.unplaced = found.map Parameter.unplaced := by
  cases declared with
  | none => exact ⟨[], .none, rfl⟩
  | some parameters few =>
    obtain ⟨found', parameters, same⟩ := moves_parameters shift parameters
    have length := congrArg List.length same
    rw [List.length_map, List.length_map] at length
    exact ⟨found', .some parameters (length ▸ few), same⟩

private theorem moves_modifiers {access : Option Visibility} {dispatch : Option Dispatch}
    {found : Visibility × Dispatch} (modifiers : Modifiers access dispatch before after found) :
    Modifiers access dispatch (shift.tokens 0 before) (shift.tokens 0 after) found := by
  induction modifiers with
  | none => exact .none
  | access isWord next ih =>
    rw [shift.mapped isWord]
    exact .access isWord ih
  | dispatch isWord next ih =>
    rw [shift.mapped isWord]
    exact .dispatch isWord ih

end Types

/-- A phrase of a rule is one as well at other places and in front of another ending, with the same
tree up to positions, and takes some semicolons off the ending. -/
def Moves {α β : Type} (rule : Feed → Feed → α → Prop) (view : α → β) (before after : Feed)
    (value : α) (taken : Nat) : Prop :=
  ∀ shift : Shift, ∃ value', rule (shift.feed 0 before) (shift.feed taken after) value' ∧
    view value' = view value

variable {after before : Feed}

theorem Moves.imp {α β : Type} {rule rule' : Feed → Feed → α → Prop} {view : α → β} {value : α}
    {taken : Nat} (moves : Moves rule view before after value taken)
    (weaker : ∀ {before after value}, rule before after value → rule' before after value) :
    Moves rule' view before after value taken := by
  intro shift
  obtain ⟨value, derived, same⟩ := moves shift
  exact ⟨value, weaker derived, same⟩

private theorem moves_superclass {superclass : Option SuperclassRef}
    (clause : Superclass before after superclass) :
    Moves Superclass (Option.map SuperclassRef.unplaced) before after superclass 0 := by
  intro shift
  cases clause with
  | none => exact ⟨none, .none, rfl⟩
  | some isWord isName =>
    simp only [Shift.feed, shift.terminal isWord, shift.identifier isName]
    exact ⟨_, .some isWord isName, rfl⟩

def Trailing (before after : List Token) : Prop :=
  ∃ arrow rest id id' value, arrow.isTerminal .arrow = true ∧ arrow :: rest <:+ before ∧
    ¬Annotated rest ∧ Expression ⟨rest, id⟩ ⟨after, id'⟩ value

def Reaches (before after : List Token) (holds : Nat → Prop) : Prop :=
  ∃ taken, (taken = 0 ∨ ended after = true ∧ Trailing before after) ∧ holds taken

namespace Reaches

variable {before before' after : List Token} {holds holds' : Nat → Prop}

theorem closed (none : holds 0) : Reaches before after holds :=
  ⟨0, .inl rfl, none⟩

theorem within (reaches : Reaches before after holds) (inner : ended after = false) : holds 0 := by
  obtain ⟨taken, rfl | ⟨ends, _⟩, some⟩ := reaches
  · exact some
  · simp [inner] at ends

theorem inside {closing : Token} {rest : List Token} {which : Terminal}
    (reaches : Reaches before (closing :: rest) holds) (closes : closing.isTerminal which) :
    holds 0 :=
  reaches.within (isFinish_of_isTerminal closes)

/-- A phrase reaches as far as the phrase that it ends with. -/
theorem wrap (reaches : Reaches before after holds) (left : before <:+ before')
    (wraps : ∀ taken, holds taken → holds' taken) : Reaches before' after holds' := by
  obtain ⟨taken, final, some⟩ := reaches
  refine ⟨taken, final.imp id fun ⟨ends, trailing⟩ => ⟨ends, ?_⟩, wraps taken some⟩
  obtain ⟨arrow, rest, id, id', inner, isArrow, within, derived⟩ := trailing
  exact ⟨arrow, rest, id, id', inner, isArrow, within.trans left, derived⟩

end Reaches

private theorem begins_block {body : List Stmt} (isBlock : Block before after body) :
    ended before.tokens = false := by
  cases isBlock with
  | none closes => exact isFinish_of_isTerminal closes
  | more first => exact (begins_declaration first).2

private theorem begins_memberList {members : Members}
    (areMembers : MemberList before after members) : ended before.tokens = false := by
  cases areMembers with
  | none closes => exact isFinish_of_isTerminal closes
  | field modifiers isWord | method modifiers isWord =>
    exact (begins_modifiers modifiers
      ⟨starts_of_isTerminal isWord (by decide), isFinish_of_isTerminal isWord⟩).2

def unplacedBody (body : Option TypeName × List Stmt) : Option TypeName × List Stmt :=
  (body.1, unplacedStmts body.2)

private theorem reaches_open_body {arrow : Token} {rest : List Token} {id : RefId} {value : Expr}
    (isArrow : arrow.isTerminal .arrow) (plain : ¬Annotated rest)
    (isValue : Expression ⟨rest, id⟩ after value) (ends : ended after.tokens = true)
    (reaches : Reaches rest after.tokens (Moves Expression Expr.unplaced ⟨rest, id⟩ after value)) :
    Reaches (arrow :: rest) after.tokens
      (Moves FunctionBody unplacedBody ⟨arrow :: rest, id⟩ after
        (none, [.returnValue arrow.position (some value)])) := by
  obtain ⟨taken, _, moves⟩ := reaches
  have trailing : Trailing (arrow :: rest) after.tokens :=
    ⟨arrow, rest, id, after.nextId, value, isArrow, List.suffix_refl _, plain, isValue⟩
  refine ⟨taken + 1, .inr ⟨ends, trailing⟩, fun shift => ?_⟩
  have plain := not_annotated shift plain
  obtain ⟨value', isValue, same⟩ := moves shift
  simp only [Shift.feed, shift.atEnd ends, shift.terminal isArrow] at isValue ⊢
  rw [← shift.ending.drop_drop taken 1]
  -- A semicolon that is left belongs to the body; if none is, the body ends as it did.
  obtain ⟨mark, isMark, split⟩ | ⟨alone, dropped⟩ := (shift.ending.drop taken).cases_tokens
  · rw [split] at isValue
    refine ⟨_, .terminated isArrow plain isValue isMark, ?_⟩
    simp only [unplacedBody, unplacedStmts, Stmt.unplaced, unplacedOptional, same]
  · rw [alone] at isValue
    rw [dropped]
    have whole : Avoids (fun which => Continues which ∨ which = .semicolon)
        [(shift.ending.drop taken).finish] := by
      intro which isWhich
      have isFinish := (shift.ending.drop taken).isFinish
      simp [Token.isFinish, isWhich] at isFinish
    refine ⟨_, .expression isArrow plain isValue whole, ?_⟩
    simp only [unplacedBody, unplacedStmts, Stmt.unplaced, unplacedOptional, same]

section Statements

variable {α β : Type} (rule : Feed → Feed → α → Prop) (view : α → β) (before after : Feed)
  (value : α)

abbrev Reached : Prop :=
  rule before after value →
    Reaches before.tokens after.tokens (Moves rule view before after value)

abbrev Inner : Prop :=
  rule before after value → ended after.tokens = false → Moves rule view before after value 0

end Statements

-- All phrases of a rule but the last stand in front of another token of the rule, so that they are
-- moved as they are; how many semicolons the rule takes is decided by its last phrase.
mutual

theorem reaches_expression {before after value} :
    Reached Expression Expr.unplaced before after value
  | .operation isValue =>
    (reaches_operation isValue).wrap (List.suffix_refl _) fun _ moves => moves.imp .operation
  | .assign isName isMark isValue =>
    (reaches_expression isValue).wrap ((List.suffix_cons _ _).trans (List.suffix_cons _ _))
      fun taken moves shift => by
        obtain ⟨right, isValue, same⟩ := moves shift
        simp only [Shift.feed, shift.identifier isName, shift.mapped isMark]
        refine ⟨_, .assign isName isMark isValue, ?_⟩
        simp only [Expr.unplaced, unplaced_assigned, same]
        rfl
  | .setProperty target isDot isName isMark isValue =>
    (reaches_expression isValue).wrap ((List.suffix_append [_, _] _).trans target.left.tail)
      fun taken moves shift => by
      obtain ⟨object, target, sameObject⟩ := (reaches_call target).inside isDot shift
      obtain ⟨right, isValue, same⟩ := moves shift
      simp only [Shift.feed, shift.terminal isDot, shift.identifier isName, shift.mapped isMark]
        at target
      refine ⟨_, .setProperty target isDot isName isMark isValue, ?_⟩
      simp only [Expr.unplaced, unplaced_assigned, sameObject, same]
      rfl
  | .setIndex target opens isKey closes isMark isValue =>
    (reaches_expression isValue).wrap
      ((List.suffix_cons _ _).trans (isKey.left.tail.trans target.left.tail))
      fun taken moves shift => by
        obtain ⟨object, target, sameObject⟩ := (reaches_call target).inside opens shift
        obtain ⟨key, isKey, sameKey⟩ := (reaches_expression isKey).inside closes shift
        obtain ⟨right, isValue, same⟩ := moves shift
        simp only [Shift.feed, shift.terminal opens, shift.terminal closes, shift.mapped isMark]
          at target isKey
        refine ⟨_, .setIndex target opens isKey closes isMark isValue, ?_⟩
        simp only [Expr.unplaced, unplaced_assigned, sameObject, sameKey, same]
        rfl

private theorem reaches_operation {level before after value} :
    Reached (Operation level) Expr.unplaced before after value
  | .operand isValue =>
    (reaches_operand isValue).wrap (List.suffix_refl _) fun _ moves => moves.imp .operand
  | .tighter loose isValue =>
    (reaches_operation isValue).wrap (List.suffix_refl _) fun _ moves => moves.imp (.tighter loose)
  | .join loose first isOperator second =>
    (reaches_operation second).wrap first.left.tail fun taken moves shift => by
      obtain ⟨which, isWhich, _⟩ := mapped_eq_some_iff.mp isOperator
      obtain ⟨left, first, sameLeft⟩ := (reaches_operation first).inside isWhich shift
      obtain ⟨right, second, same⟩ := moves shift
      simp only [Shift.feed, shift.terminal isWhich] at first
      exact ⟨_, .join loose first isOperator second, by simp only [unplaced_joined, sameLeft, same]⟩

private theorem reaches_operand {before after value} :
    Reached Operand Expr.unplaced before after value
  | .unary isOperator isOperand =>
    (reaches_operand isOperand).wrap (List.suffix_cons _ _) fun taken moves shift => by
      obtain ⟨inner, isOperand, same⟩ := moves shift
      simp only [Shift.feed, shift.mapped isOperator]
      exact ⟨_, .unary isOperator isOperand, by simp only [Expr.unplaced, same]⟩
  | .call isValue =>
    (reaches_call isValue).wrap (List.suffix_refl _) fun _ moves => moves.imp .call

private theorem reaches_call {before after value} : Reached Call Expr.unplaced before after value
  | .primary isValue =>
    (reaches_primary isValue).wrap (List.suffix_refl _) fun _ moves => moves.imp .primary
  | .call target opens closes => .closed fun shift => by
    obtain ⟨callee, target, same⟩ := (reaches_call target).inside opens shift
    simp only [Shift.feed, shift.terminal opens, shift.terminal closes] at target
    exact ⟨_, .call target opens closes, by simp only [Expr.unplaced, same]⟩
  | .callWith target opens areValues few closes => .closed fun shift => by
    obtain ⟨callee, target, same⟩ := (reaches_call target).inside opens shift
    obtain ⟨arguments, areValues, sameArguments⟩ :=
      moves_commas areValues (isFinish_of_isTerminal closes) shift
    simp only [Shift.feed, shift.terminal opens, shift.terminal closes] at target areValues
    have length := congrArg List.length sameArguments
    rw [length_unplacedExprs, length_unplacedExprs] at length
    refine ⟨_, .callWith target opens areValues (length ▸ few) closes, ?_⟩
    simp only [Expr.unplaced, same, sameArguments]
  | .property target isDot isName => .closed fun shift => by
    obtain ⟨object, target, same⟩ := (reaches_call target).inside isDot shift
    simp only [Shift.feed, shift.terminal isDot, shift.identifier isName] at target
    refine ⟨_, .property target isDot isName, ?_⟩
    simp only [Expr.unplaced, same]
    rfl
  | .index target opens isKey closes => .closed fun shift => by
    obtain ⟨object, target, same⟩ := (reaches_call target).inside opens shift
    obtain ⟨key, isKey, sameKey⟩ := (reaches_expression isKey).inside closes shift
    simp only [Shift.feed, shift.terminal opens, shift.terminal closes] at target isKey
    exact ⟨_, .index target opens isKey closes, by simp only [Expr.unplaced, same, sameKey]⟩

private theorem moves_commas {before after value} : Inner Commas unplacedExprs before after value
  | .last only, inner => fun shift => by
    obtain ⟨value, only, same⟩ := (reaches_expression only).within inner shift
    exact ⟨_, .last only, by simp only [unplacedExprs, same]⟩
  | .more first isComma next, inner => fun shift => by
    obtain ⟨value, first, same⟩ := (reaches_expression first).inside isComma shift
    obtain ⟨others, next, sameOthers⟩ := moves_commas next inner shift
    simp only [Shift.feed, shift.terminal isComma] at first
    exact ⟨_, .more first isComma next, by simp only [unplacedExprs, same, sameOthers]⟩

private theorem reaches_primary {before after value} :
    Reached Primary Expr.unplaced before after value
  | .literal isLiteral => .closed fun shift => by
    simp only [Shift.feed, shift.cons (isFinish_of_literal isLiteral)]
    exact ⟨_, .literal isLiteral, by simp only [Expr.unplaced]⟩
  | .reference isName => .closed fun shift => by
    simp only [Shift.feed, shift.identifier isName]
    refine ⟨_, .reference isName, ?_⟩
    rfl
  | .this isWord => .closed fun shift => by
    simp only [Shift.feed, shift.terminal isWord]
    exact ⟨_, .this isWord, by simp only [Expr.unplaced]⟩
  | .super isWord isDot isName => .closed fun shift => by
    simp only [Shift.feed, shift.terminal isWord, shift.terminal isDot, shift.identifier isName]
    refine ⟨_, .super isWord isDot isName, ?_⟩
    rfl
  | .group opens isValue closes => .closed fun shift => by
    obtain ⟨value, isValue, same⟩ := (reaches_expression isValue).inside closes shift
    simp only [Shift.feed, shift.terminal opens, shift.terminal closes] at isValue ⊢
    exact ⟨_, .group opens isValue closes, by simp only [Expr.unplaced, same]⟩
  | .array opens areValues closes => .closed fun shift => by
    obtain ⟨values, areValues, same⟩ :=
      moves_elements areValues (isFinish_of_isTerminal closes) shift
    simp only [Shift.feed, shift.terminal opens, shift.terminal closes] at areValues ⊢
    exact ⟨_, .array opens areValues closes, by simp only [Expr.unplaced, same]⟩
  | .map opens arePairs closes => .closed fun shift => by
    obtain ⟨pairs, arePairs, same⟩ := moves_entries arePairs (isFinish_of_isTerminal closes) shift
    simp only [Shift.feed, shift.terminal opens, shift.terminal closes] at arePairs ⊢
    exact ⟨_, .map opens arePairs closes, by simp only [Expr.unplaced, same]⟩
  | .lambda isWord opens isRest =>
    (reaches_functionRest isRest).wrap ((List.suffix_cons _ _).trans (List.suffix_cons _ _))
      fun taken moves shift => by
        choose decl isRest same using fun place => moves place shift
        simp only [Shift.feed, shift.terminal isWord, shift.terminal opens]
        exact ⟨_, .lambda isWord opens (isRest _), by simp only [Expr.unplaced, same]⟩

private theorem moves_elements {before after value} :
    Inner Elements unplacedExprs before after value
  | .none, _ => fun _ => ⟨[], .none, rfl⟩
  | .last only, inner => fun shift => by
    obtain ⟨value, only, same⟩ := (reaches_expression only).within inner shift
    exact ⟨_, .last only, by simp only [unplacedExprs, same]⟩
  | .more first isComma next, inner => fun shift => by
    obtain ⟨value, first, same⟩ := (reaches_expression first).inside isComma shift
    obtain ⟨others, next, sameOthers⟩ := moves_elements next inner shift
    simp only [Shift.feed, shift.terminal isComma] at first
    exact ⟨_, .more first isComma next, by simp only [unplacedExprs, same, sameOthers]⟩

private theorem moves_entries {before after value} :
    Inner Entries unplacedEntries before after value
  | .none, _ => fun _ => ⟨[], .none, rfl⟩
  | .last isKey isColon isValue, inner => fun shift => by
    obtain ⟨key, isKey, sameKey⟩ := (reaches_expression isKey).inside isColon shift
    obtain ⟨value, isValue, same⟩ := (reaches_expression isValue).within inner shift
    simp only [Shift.feed, shift.terminal isColon] at isKey
    exact ⟨_, .last isKey isColon isValue, by simp only [unplacedEntries, sameKey, same]⟩
  | .more isKey isColon isValue isComma next, inner => fun shift => by
    obtain ⟨key, isKey, sameKey⟩ := (reaches_expression isKey).inside isColon shift
    obtain ⟨value, isValue, same⟩ := (reaches_expression isValue).inside isComma shift
    obtain ⟨others, next, sameOthers⟩ := moves_entries next inner shift
    simp only [Shift.feed, shift.terminal isColon, shift.terminal isComma] at isKey isValue
    refine ⟨_, .more isKey isColon isValue isComma next, ?_⟩
    simp only [unplacedEntries, sameKey, same, sameOthers]

private theorem reaches_functionRest {name : Identifier} {before after : Feed}
    {decl : FunctionDecl Stmt} : FunctionRest name before after decl →
      Reaches before.tokens after.tokens fun taken => ∀ place,
        Moves (FunctionRest { name with position := place }) unplacedFunction before after decl
          taken
  | .rest declared closes isBody =>
    (reaches_body isBody).wrap declared.left.tail
      fun taken moves place shift => by
        obtain ⟨parameters, declared, sameParameters⟩ := moves_parameterList shift declared
        obtain ⟨⟨returns, body⟩, isBody, same⟩ := moves shift
        rw [shift.terminal closes] at declared
        simp only [unplacedBody, Prod.mk.injEq] at same
        refine ⟨_, .rest declared closes isBody, ?_⟩
        simp only [unplacedFunction, Identifier.unplaced, sameParameters, same]

private theorem reaches_body {before after value} :
    Reached FunctionBody unplacedBody before after value
  | .block opens isBody => .closed fun shift => by
    obtain ⟨body, isBody, same⟩ := moves_block isBody shift
    simp only [Shift.feed, shift.terminal opens]
    exact ⟨_, .block opens isBody, by simp only [unplacedBody, same]⟩
  | .annotated isArrow isType opens isBody => .closed fun shift => by
    have isType := moves_type shift isType
    obtain ⟨body, isBody, same⟩ := moves_block isBody shift
    simp only [Shift.feed, shift.terminal isArrow, shift.terminal opens] at isType ⊢
    exact ⟨_, .annotated isArrow isType opens isBody, by simp only [unplacedBody, same]⟩
  | .expression isArrow plain isValue whole => by
    have reaches := reaches_expression isValue
    cases ends : ended _ with
    | true => exact reaches_open_body isArrow plain isValue ends reaches
    | false =>
      refine .closed fun shift => ?_
      obtain ⟨value, isValue, same⟩ := reaches.within ends shift
      have plain := not_annotated shift plain
      simp only [Shift.feed, shift.terminal isArrow]
      refine ⟨_, .expression isArrow plain isValue (shift.head ends whole), ?_⟩
      simp only [unplacedBody, unplacedStmts, Stmt.unplaced, unplacedOptional, same]
  | .terminated isArrow plain isValue isMark => .closed fun shift => by
    obtain ⟨value, isValue, same⟩ := (reaches_expression isValue).inside isMark shift
    simp only [Shift.feed, shift.terminal isArrow, shift.terminal isMark] at isValue ⊢
    refine ⟨_, .terminated isArrow (not_annotated shift plain) isValue isMark, ?_⟩
    simp only [unplacedBody, unplacedStmts, Stmt.unplaced, unplacedOptional, same]

private theorem moves_block {before after value} :
    Block before after value → Moves Block unplacedStmts before after value 0
  | .none closes => fun shift => by
    simp only [Shift.feed, shift.terminal closes]
    exact ⟨[], .none closes, rfl⟩
  | .more first next => fun shift => by
    obtain ⟨stmt, first, same⟩ := moves_declaration first (begins_block next) shift
    obtain ⟨others, next, sameOthers⟩ := moves_block next shift
    exact ⟨_, .more first next, by simp only [unplacedStmts, same, sameOthers]⟩

private theorem moves_declaration {before after value} :
    Inner Declaration Stmt.unplaced before after value
  | .classDecl isWord isName clause opens isBody, _ => fun shift => by
    obtain ⟨superclass, clause, sameSuperclass⟩ := moves_superclass clause shift
    obtain ⟨members, isBody, same⟩ := moves_memberList isBody shift
    obtain ⟨sameFields, sameMethods⟩ := Members.mk.inj same
    simp only [Shift.feed, shift.terminal isWord, shift.identifier isName, shift.terminal opens]
      at clause ⊢
    refine ⟨_, .classDecl isWord isName clause opens isBody, ?_⟩
    simp only [Stmt.unplaced, sameSuperclass, sameFields, sameMethods]
    rfl
  | .function isWord isName opens isRest, inner => fun shift => by
    have moves := (reaches_functionRest isRest).within inner
    choose decl isRest same using fun place => moves place shift
    simp only [Shift.feed, shift.terminal isWord, shift.identifier isName, shift.terminal opens]
    exact ⟨_, .function isWord isName opens (isRest _), by simp only [Stmt.unplaced, same]⟩
  | .var isWord declared, _ => fun shift => by
    obtain ⟨name, initial, declared, sameName, same⟩ := moves_variable shift declared
    simp only [Shift.feed, shift.terminal isWord]
    exact ⟨_, .var isWord declared, by simp only [Stmt.unplaced, sameName, same]⟩
  | .statement isStmt, _ => (moves_statement isStmt).imp .statement

private theorem moves_variable (shift : Shift) {before after : Feed} {name : Identifier}
    {hint : Option TypeName} {initial : Option Expr} :
    Variable before after name hint initial → ∃ name' initial',
      Variable (shift.feed 0 before) (shift.feed 0 after) name' hint initial' ∧
        name'.unplaced = name.unplaced ∧ unplacedOptional initial' = unplacedOptional initial
  | .declared isName typed isInitial isMark => by
    have typed := moves_hint shift typed
    obtain ⟨initial, isInitial, same⟩ :=
      moves_initial isInitial (isFinish_of_isTerminal isMark) shift
    simp only [Shift.feed, shift.identifier isName, shift.terminal isMark] at isInitial ⊢
    exact ⟨_, _, .declared isName typed isInitial isMark, rfl, same⟩

private theorem moves_initial {before after value} :
    Inner Initial unplacedOptional before after value
  | .none, _ => fun _ => ⟨none, .none, rfl⟩
  | .some isEquals isValue, inner => fun shift => by
    obtain ⟨value, isValue, same⟩ := (reaches_expression isValue).within inner shift
    simp only [Shift.feed, shift.terminal isEquals]
    exact ⟨_, .some isEquals isValue, by simp only [unplacedOptional, same]⟩

private theorem moves_memberList {before after value} :
    MemberList before after value → Moves MemberList Members.unplaced before after value 0
  | .none closes => fun shift => by
    simp only [Shift.feed, shift.terminal closes]
    exact ⟨_, .none closes, rfl⟩
  | .field modifiers isWord declared next => fun shift => by
    have modifiers := moves_modifiers shift modifiers
    rw [shift.terminal isWord] at modifiers
    obtain ⟨name, initial, declared, sameName, sameInitial⟩ := moves_variable shift declared
    obtain ⟨others, next, same⟩ := moves_memberList next shift
    obtain ⟨sameFields, sameMethods⟩ := Members.mk.inj same
    refine ⟨_, .field modifiers isWord declared next, ?_⟩
    simp only [Members.unplaced, unplacedFields, sameName, sameInitial, sameFields, sameMethods]
  | .method modifiers isWord isName opens isRest next => fun shift => by
    have modifiers := moves_modifiers shift modifiers
    rw [shift.terminal isWord, shift.identifier isName, shift.terminal opens] at modifiers
    have moves := (reaches_functionRest isRest).within (begins_memberList next)
    choose function isRest sameFunction using fun place => moves place shift
    obtain ⟨others, next, same⟩ := moves_memberList next shift
    obtain ⟨sameFields, sameMethods⟩ := Members.mk.inj same
    refine ⟨_, .method modifiers isWord isName opens (isRest _) next, ?_⟩
    simp only [Members.unplaced, unplacedMethods, sameFunction, sameFields, sameMethods]

private theorem moves_statement {before after value} :
    Statement before after value → Moves Statement Stmt.unplaced before after value 0
  | .countedLoop isWord opens isInitial isCondition isMark isIncrement closes isBody =>
    fun shift => by
      obtain ⟨initial, isInitial, sameInitial⟩ := moves_loopInitial isInitial shift
      obtain ⟨condition, isCondition, sameCondition⟩ :=
        moves_optional isCondition (isFinish_of_isTerminal isMark) shift
      obtain ⟨increment, isIncrement, sameIncrement⟩ :=
        moves_optional isIncrement (isFinish_of_isTerminal closes) shift
      obtain ⟨body, isBody, same⟩ := moves_statement isBody shift
      simp only [Shift.feed, shift.terminal isWord, shift.terminal opens, shift.terminal isMark,
        shift.terminal closes] at isCondition isIncrement ⊢
      refine ⟨_, .countedLoop isWord opens isInitial isCondition isMark isIncrement closes isBody,
        ?_⟩
      simp only [Stmt.unplaced, sameInitial, sameCondition, sameIncrement, same]
  | .branch isWord opens isCondition closes whenTrue alone => fun shift => by
    obtain ⟨condition, isCondition, sameCondition⟩ :=
      (reaches_expression isCondition).inside closes shift
    obtain ⟨stmt, whenTrue, same⟩ := moves_statement whenTrue shift
    simp only [Shift.feed, shift.terminal isWord, shift.terminal opens, shift.terminal closes]
      at isCondition ⊢
    refine ⟨_, .branch isWord opens isCondition closes whenTrue
      ((shift.starts_eq (by decide)).trans alone), ?_⟩
    simp only [Stmt.unplaced, unplacedOptionalStmt, sameCondition, same]
  | .branches isWord opens isCondition closes whenTrue isElse whenFalse => fun shift => by
    obtain ⟨condition, isCondition, sameCondition⟩ :=
      (reaches_expression isCondition).inside closes shift
    obtain ⟨stmt, whenTrue, same⟩ := moves_statement whenTrue shift
    obtain ⟨other, whenFalse, sameOther⟩ := moves_statement whenFalse shift
    simp only [Shift.feed, shift.terminal isWord, shift.terminal opens, shift.terminal closes,
      shift.terminal isElse] at isCondition whenTrue ⊢
    refine ⟨_, .branches isWord opens isCondition closes whenTrue isElse whenFalse, ?_⟩
    simp only [Stmt.unplaced, unplacedOptionalStmt, sameCondition, same, sameOther]
  | .loop isWord opens isCondition closes isBody => fun shift => by
    obtain ⟨condition, isCondition, sameCondition⟩ :=
      (reaches_expression isCondition).inside closes shift
    obtain ⟨stmt, isBody, same⟩ := moves_statement isBody shift
    simp only [Shift.feed, shift.terminal isWord, shift.terminal opens, shift.terminal closes]
      at isCondition ⊢
    refine ⟨_, .loop isWord opens isCondition closes isBody, ?_⟩
    simp only [Stmt.unplaced, sameCondition, same]
  | .returnValue isWord isValue isMark => fun shift => by
    obtain ⟨value, isValue, same⟩ := moves_optional isValue (isFinish_of_isTerminal isMark) shift
    simp only [Shift.feed, shift.terminal isWord, shift.terminal isMark] at isValue ⊢
    exact ⟨_, .returnValue isWord isValue isMark, by simp only [Stmt.unplaced, same]⟩
  | .breakLoop isWord isMark => fun shift => by
    simp only [Shift.feed, shift.terminal isWord, shift.terminal isMark]
    exact ⟨_, .breakLoop isWord isMark, by simp only [Stmt.unplaced]⟩
  | .continueLoop isWord isMark => fun shift => by
    simp only [Shift.feed, shift.terminal isWord, shift.terminal isMark]
    exact ⟨_, .continueLoop isWord isMark, by simp only [Stmt.unplaced]⟩
  | .block opens isBody => fun shift => by
    obtain ⟨body, isBody, same⟩ := moves_block isBody shift
    simp only [Shift.feed, shift.terminal opens]
    exact ⟨_, .block opens isBody, by simp only [Stmt.unplaced, same]⟩
  | .print isWord areValues isMark => fun shift => by
    obtain ⟨values, areValues, same⟩ := moves_commas areValues (isFinish_of_isTerminal isMark) shift
    simp only [Shift.feed, shift.terminal isWord, shift.terminal isMark] at areValues ⊢
    exact ⟨_, .print isWord areValues isMark, by simp only [Stmt.unplaced, same]⟩
  | .expression noBlock isValue isMark => fun shift => by
    obtain ⟨value, isValue, same⟩ := (reaches_expression isValue).inside isMark shift
    simp only [Shift.feed, shift.terminal isMark] at isValue
    refine ⟨_, .expression ((shift.starts_eq (by decide)).trans noBlock) isValue isMark, ?_⟩
    simp only [Stmt.unplaced, same]

private theorem moves_optional {before after value} :
    Inner Optional unplacedOptional before after value
  | .none, _ => fun _ => ⟨none, .none, rfl⟩
  | .some isValue, inner => fun shift => by
    obtain ⟨value, isValue, same⟩ := (reaches_expression isValue).within inner shift
    exact ⟨_, .some isValue, by simp only [unplacedOptional, same]⟩

private theorem moves_loopInitial {before after value} :
    LoopInitial before after value → Moves LoopInitial unplacedOptionalStmt before after value 0
  | .none isMark => fun shift => by
    simp only [Shift.feed, shift.terminal isMark]
    exact ⟨none, .none isMark, rfl⟩
  | .var isWord declared => fun shift => by
    obtain ⟨name, initial, declared, sameName, same⟩ := moves_variable shift declared
    simp only [Shift.feed, shift.terminal isWord]
    refine ⟨_, .var isWord declared, ?_⟩
    simp only [unplacedOptionalStmt, Stmt.unplaced, sameName, same]
  | .expression isValue isMark => fun shift => by
    obtain ⟨value, isValue, same⟩ := (reaches_expression isValue).inside isMark shift
    simp only [Shift.feed, shift.terminal isMark] at isValue
    exact ⟨_, .expression isValue isMark, by simp only [unplacedOptionalStmt, Stmt.unplaced, same]⟩

end

end ClassScript.Phrase
