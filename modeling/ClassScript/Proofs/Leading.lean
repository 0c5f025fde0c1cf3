import ClassScript.Proofs.ReaderSoundness

/-!
How phrases begin and what may follow them.
-/

set_option autoImplicit false

namespace ClassScript.Phrase

open Grammar Parse

def leadsPrimary : Terminal → Bool
  | .falseWord | .trueWord | .nilWord | .thisWord | .superWord | .leftParen | .leftBracket
  | .leftBrace | .fnWord => true
  | _ => false

def leadsExpression (which : Terminal) : Bool :=
  leadsPrimary which || (unaryMarks.lookup which).isSome

def leadsStatement : Terminal → Bool
  | .forWord | .ifWord | .whileWord | .returnWord | .breakWord | .continueWord | .printWord => true
  | which => leadsExpression which

structure Led (leads : Terminal → Bool) (tokens : List Token) : Prop where
  first : Avoids (fun which => leads which = false) tokens
  more : ended tokens = false
  unnamed : (starts .fnWord tokens && tokens.tail.head?.any Token.isIdentifier) = false

variable {leads : Terminal → Bool} {tokens rest : List Token} {which : Terminal}
  {after before : Feed} {value : Expr} {stmt : Stmt} {level : Nat} {mark : Token}

theorem Led.mono {leads' : Terminal → Bool} (led : Led leads tokens)
    (wider : ∀ which, leads which = true → leads' which = true) : Led leads' tokens := by
  refine { led with first := led.first.mono fun which refused => ?_ }
  cases leads' : leads which with
  | false => rfl
  | true => simp [wider which leads'] at refused

theorem Led.starts (led : Led leads tokens) (refused : leads which = false) :
    starts which tokens = false := by
  refine avoids_eq_iff.mp (led.first.mono ?_)
  rintro _ rfl
  exact refused

private theorem led_of_isTerminal {token : Token} (isWhich : token.isTerminal which)
    (leading : leads which = true) (plain : which ≠ .fnWord) : Led leads (token :: rest) where
  first := .of_isTerminal isWhich (by simp [leading])
  more := isFinish_of_isTerminal isWhich
  unnamed := by simp [starts_of_isTerminal isWhich plain]

theorem led_primary (isValue : Primary before after value) : Led leadsPrimary before.tokens := by
  cases isValue with
  | @literal token _ _ _ isLiteral =>
    refine ⟨fun which isWhich => ?_, isFinish_of_literal isLiteral, ?_⟩
    · rw [isWhich] at isLiteral
      cases isLiteral <;> decide
    · simp only [starts, Token.isTerminal]
      generalize token.kind = kind at isLiteral
      cases isLiteral <;> rfl
  | reference isName =>
    unfold Token.isIdentifier at isName
    split at isName <;> first | contradiction | skip
    next kind =>
      exact ⟨fun which isWhich => by simp_all, by simp [ended, Token.isFinish, kind],
        by simp [starts, Token.isTerminal, kind]⟩
  | this isWord | super isWord | group isWord | array isWord | map isWord =>
    exact led_of_isTerminal isWord rfl (by decide)
  | lambda isWord opens =>
    refine ⟨.of_isTerminal isWord (by decide), isFinish_of_isTerminal isWord, ?_⟩
    simp [Token.isIdentifier, isTerminal_iff.mp opens]

mutual

private theorem led_call {before after : Feed} {value : Expr} :
    Call before after value → Led leadsPrimary before.tokens
  | .primary isValue => led_primary isValue
  | .call target _ _ => led_call target
  | .callWith target _ _ _ _ => led_call target
  | .property target _ _ => led_call target
  | .index target _ _ _ => led_call target

private theorem led_operand {before after : Feed} {value : Expr} :
    Operand before after value → Led leadsExpression before.tokens
  | .unary isOperator _ => by
    obtain ⟨which, isWhich, known⟩ := mapped_eq_some_iff.mp isOperator
    refine led_of_isTerminal isWhich (by simp [leadsExpression, known]) ?_
    rintro rfl
    contradiction
  | .call isValue => (led_call isValue).mono fun which leads => by simp [leadsExpression, leads]

private theorem led_operation {level : Nat} {before after : Feed} {value : Expr} :
    Operation level before after value → Led leadsExpression before.tokens
  | .operand isValue => led_operand isValue
  | .tighter _ isValue => led_operation isValue
  | .join _ first _ _ => led_operation first

end

theorem led_expression (isValue : Expression before after value) :
    Led leadsExpression before.tokens := by
  cases isValue with
  | operation isValue => exact led_operation isValue
  | assign isName => exact led_operand (.call (.primary (.reference isName)))
  | setProperty target => exact led_operand (.call target)
  | setIndex target => exact led_operand (.call target)

theorem led_commas {values : List Expr} (areValues : Commas before after values) :
    Led leadsExpression before.tokens := by
  cases areValues with
  | last only => exact led_expression only
  | more first => exact led_expression first

theorem led_statement (isStmt : Statement before after stmt) :
    Led leadsStatement before.tokens := by
  cases isStmt with
  | expression _ isValue =>
    exact (led_expression isValue).mono fun which => by cases which <;> decide
  | countedLoop isWord | branch isWord | branches isWord | loop isWord | returnValue isWord
  | block isWord | breakLoop isWord | continueLoop isWord | print isWord =>
    exact led_of_isTerminal isWord rfl (by decide)

theorem begins_declaration (declares : Declaration before after stmt) :
    starts .rightBrace before.tokens = false ∧ ended before.tokens = false := by
  cases declares with
  | classDecl isWord | function isWord | var isWord =>
    exact ⟨starts_of_isTerminal isWord (by decide), isFinish_of_isTerminal isWord⟩
  | statement isStmt => exact ⟨(led_statement isStmt).starts rfl, (led_statement isStmt).more⟩

theorem begins_modifiers {access : Option Visibility} {dispatch : Option Dispatch}
    {before after : List Token} {found : Visibility × Dispatch}
    (modifiers : Modifiers access dispatch before after found)
    (next : starts .rightBrace after = false ∧ ended after = false) :
    starts .rightBrace before = false ∧ ended before = false := by
  cases modifiers with
  | none => exact next
  | access isWord _ | dispatch isWord _ =>
    obtain ⟨which, isWhich, known⟩ := mapped_eq_some_iff.mp isWord
    refine ⟨starts_of_isTerminal isWhich ?_, isFinish_of_isTerminal isWhich⟩
    rintro rfl
    contradiction

theorem avoids_continues (begins : starts which tokens = true) (apart : ¬Continues which) :
    Avoids Continues tokens := by
  cases tokens with
  | nil => trivial
  | cons token rest => exact .of_isTerminal begins apart

theorem starts_apart {other : Terminal} (begins : starts which tokens = true)
    (apart : which ≠ other) : starts other tokens = false := by
  cases tokens with
  | nil => rfl
  | cons token rest => exact starts_of_isTerminal begins apart

theorem ne_nil_of_starts (begins : starts which tokens = true) : tokens ≠ [] := by
  rintro rfl
  contradiction

theorem extends_of_le {level' : Nat} (le : level ≤ level') (further : Extends level' which) :
    Extends level which := by
  obtain isParen | isDot | isBracket | ⟨tighter, loose, tight, known⟩ := further
  · exact .inl isParen
  · exact .inr (.inl isDot)
  · exact .inr (.inr (.inl isBracket))
  · exact .inr (.inr (.inr ⟨tighter, loose, Nat.le_trans le tight, known⟩))

private theorem not_extends_of_operator (loose : level < 6)
    (known : ((operatorMarks level).lookup which).isSome) : ¬Extends (level + 1) which := by
  revert level
  cases which <;> decide

private theorem not_extends_of_assignment (known : (assignmentMarks.lookup which).isSome) :
    ¬Extends 0 which := by
  revert known
  cases which <;> decide

theorem avoids_of_operator (loose : level < 6) {operator : Operator}
    (isOperator : meant (operatorMarks level) mark = some operator) :
    Avoids (Extends (level + 1)) (mark :: rest) := by
  obtain ⟨which, isWhich, known⟩ := mapped_eq_some_iff.mp isOperator
  exact .of_isTerminal isWhich (not_extends_of_operator loose (by simp [known]))

theorem avoids_of_assignment {abbreviated : Option BinaryOp}
    (isMark : meant assignmentMarks mark = some abbreviated) :
    Avoids (Extends 0) (mark :: rest) := by
  obtain ⟨which, isWhich, known⟩ := mapped_eq_some_iff.mp isMark
  exact .of_isTerminal isWhich (not_extends_of_assignment (by simp [known]))

end ClassScript.Phrase
