import ClassScript.Proofs.Leading

/-!
What is derived is read: in front of a phrase, and of tokens that make no longer phrase of it, the
reader of a rule gives the tree of the phrase and leaves those tokens.
-/

set_option autoImplicit false

namespace ClassScript.Grammar

open Parse Phrase

private theorem gives_typeHint {before after : List Token} {hint : Option TypeName}
    (typed : Hint before after hint) (noColon : starts .colon after = false)
    (noBracket : starts .less after = false) (more : after ≠ []) (depth : Nat) (id : RefId) :
    Gives (typeHint depth) ⟨before, id⟩ hint ⟨after, id⟩ := by
  intro last
  cases typed with
  | none => exact .accept_absent noColon (.pure ⟨rfl, rfl⟩)
  | some isColon isType =>
    refine .accept_found isColon isType.left.ne_nil ?_
    exact (gives_typeName isType noBracket more depth id).andPure

private theorem gives_parameters {before after : List Token} {found : List Parameter}
    (declared : Parameters before after found) (closed : starts .rightParen after = true)
    (marked : Marked after) (depth count : Nat) (few : found.length + count ≤ argumentLimit)
    (id : RefId) : Gives (parameters depth count) ⟨before, id⟩ found ⟨after, id⟩ := by
  induction declared generalizing depth count with
  | @last name rest after hint isName typed =>
    intro last
    apply Answers.bounded depth rfl fun depth => ?_
    rw [parameters, if_neg (by simp only [List.length_singleton] at few; omega)]
    refine .identifier_found isName (marked.before typed.left.1).ne_nil ?_
    have hinted := gives_typeHint typed (starts_apart closed (by decide))
      (starts_apart closed (by decide)) marked.ne_nil depth id
    refine hinted.andThen fun last => ?_
    exact .accept_absent (starts_apart closed (by decide)) (.pure ⟨rfl, rfl⟩)
  | @more name comma rest rest' after hint others isName typed isComma next ih =>
    intro last
    apply Answers.bounded depth rfl fun depth => ?_
    simp only [List.length_cons] at few
    rw [parameters, if_neg (by omega)]
    refine .identifier_found isName
      typed.left.ne_nil_of_cons ?_
    have hinted := gives_typeHint typed (starts_of_isTerminal isComma (by decide))
      (starts_of_isTerminal isComma (by decide)) (List.cons_ne_nil _ _) depth id
    refine hinted.andThen fun last => ?_
    refine .accept_found isComma next.left.ne_nil ?_
    exact (ih closed marked depth (count + 1) (by omega)).andPure

variable {rest : List Token} {word last name opening token mark : Token} {level : Nat}
  {gives : Expr → Token → Feed → Prop} {value object : Expr} {id id' : RefId} {which : Terminal}
  {program : List Stmt}

private theorem avoids_access_of_dispatch {kind : Dispatch}
    (isWord : meant dispatchWords word = some kind) :
    Avoids (fun which => (accessWord which).isSome) (word :: rest) := by
  rw [meant_dispatchWords] at isWord
  obtain ⟨which, isWhich, known⟩ := mapped_eq_some_iff.mp isWord
  refine .of_isTerminal isWhich ?_
  revert known
  cases which <;> simp [dispatchWord, accessWord]

private theorem gives_memberModifiers {access : Option Visibility} {dispatch : Option Dispatch}
    {before after : List Token} {found : Visibility × Dispatch}
    (modifiers : Modifiers access dispatch before after found)
    (noAccess : Avoids (fun which => (accessWord which).isSome) after)
    (noDispatch : Avoids (fun which => (dispatchWord which).isSome) after) (marked : Marked after)
    (depth : Nat) (id : RefId) :
    Gives (memberModifiers depth access dispatch) ⟨before, id⟩ found ⟨after, id⟩ := by
  induction modifiers generalizing depth with
  | none =>
    intro last
    apply Answers.bounded depth rfl fun depth => ?_
    refine .acceptMap_absent noAccess ?_
    exact .acceptMap_absent noDispatch (.pure ⟨rfl, rfl⟩)
  | access isWord next ih =>
    intro last
    apply Answers.bounded depth rfl fun depth => ?_
    refine .acceptMap_found (meant_accessWords ▸ isWord) (marked.before next.left.1).ne_nil ?_
    exact ih noAccess noDispatch marked depth _
  | dispatch isWord next ih =>
    intro last
    apply Answers.bounded depth rfl fun depth => ?_
    refine .acceptMap_absent (avoids_access_of_dispatch isWord) ?_
    refine .acceptMap_found (meant_dispatchWords ▸ isWord) (marked.before next.left.1).ne_nil ?_
    exact ih noAccess noDispatch marked depth _

private theorem gives_superclassClause {before after : Feed} {superclass : Option SuperclassRef}
    (clause : Superclass before after superclass) (closed : starts .leftBrace after.tokens = true) :
    Gives superclassClause before superclass after := by
  intro last
  cases clause with
  | none =>
    exact .accept_absent (starts_apart closed (by decide)) (.pure ⟨rfl, rfl⟩)
  | some isWord isName =>
    refine .accept_found isWord (List.cons_ne_nil _ _) ?_
    refine .identifier_found isName (ne_nil_of_starts closed) ?_
    exact .freshId (.pure ⟨rfl, rfl⟩)

def operationTail (depth level : Nat) (left : Expr) : Parse Expr :=
  if operandLevel ≤ level then pure left else operationRest depth level left

private theorem operationTail_loose (loose : level < operandLevel) (depth : Nat) (left : Expr) :
    operationTail depth level left = operationRest depth level left :=
  if_neg (Nat.not_le_of_lt loose)

private theorem operationTail_ends {after : Feed} (settled : Avoids (Extends level) after.tokens)
    (holds : gives value last after) (depth : Nat) :
    Answers TooDeep (operationTail depth level value) last after gives := by
  unfold operationTail
  split
  · exact .pure holds
  next loose =>
    apply Answers.bounded depth rfl fun depth => ?_
    refine .acceptMap_absent (settled.mono ?_) (.pure holds)
    intro which known
    rw [← lookup_operatorMarks] at known
    exact .inr (.inr (.inr ⟨level, Nat.lt_of_not_le loose, Nat.le_refl _, known⟩))

private theorem accesses_end {after : Feed} (settled : Avoids (Extends operandLevel) after.tokens)
    (holds : gives value last after) (depth : Nat) :
    Answers TooDeep (accesses depth value) last after gives := by
  apply Answers.bounded depth rfl fun depth => ?_
  refine .accept_absent (avoids_eq_iff.mp (settled.mono ?_)) ?_
  · exact fun which isParen => .inl isParen
  refine .accept_absent (avoids_eq_iff.mp (settled.mono ?_)) ?_
  · exact fun which isDot => .inr (.inl isDot)
  refine .accept_absent (avoids_eq_iff.mp (settled.mono ?_)) ?_
  · exact fun which isBracket => .inr (.inr (.inl isBracket))
  exact .pure holds

private theorem accesses_property {dot : Token} (isDot : dot.isTerminal .dot)
    (isName : name.isIdentifier) (more : rest ≠ []) (continues : ∀ depth last,
      Answers TooDeep (accesses depth (.property object (named name))) last ⟨rest, id⟩ gives)
    (depth : Nat) (last : Token) :
    Answers TooDeep (accesses depth object) last ⟨dot :: name :: rest, id⟩ gives := by
  apply Answers.bounded depth rfl fun depth => ?_
  refine .skip isDot (by decide) (.accept_found isDot (List.cons_ne_nil _ _) ?_)
  exact .identifier_found isName more (continues depth _)

private theorem accesses_index {closing : Token} {inner : List Token} {key : Expr}
    (opens : opening.isTerminal .leftBracket) (more : inner ≠ [])
    (read : ∀ depth, Gives (expression depth) ⟨inner, id⟩ key ⟨closing :: rest, id'⟩)
    (closes : closing.isTerminal .rightBracket) (more' : rest ≠ []) (continues : ∀ depth last,
      Answers TooDeep (accesses depth (.index object key opening.position)) last ⟨rest, id'⟩ gives)
    (depth : Nat) (last : Token) :
    Answers TooDeep (accesses depth object) last ⟨opening :: inner, id⟩ gives := by
  apply Answers.bounded depth rfl fun depth => ?_
  refine .skip opens (by decide) (.skip opens (by decide) ?_)
  refine .accept_found opens more (.previous ?_)
  refine (read depth).andThen fun last => ?_
  exact .expect_found closes more' (continues depth _)

private theorem gives_operation_of_operand {before : Feed} {after : List Token}
    (given : ∀ depth, Gives (operand depth) before value ⟨after, id⟩)
    (settled : Avoids (Extends 0) after) (depth level : Nat) :
    Gives (operation depth level) before value ⟨after, id⟩ := by
  induction depth generalizing level with
  | zero => exact fun last => .fail rfl
  | succ depth ih =>
    intro last
    rw [operation]
    split
    · exact given depth last
    next loose =>
      refine (ih (level + 1)).andThen fun last => ?_
      rw [← operationTail_loose (Nat.lt_of_not_le loose)]
      refine operationTail_ends (settled.mono ?_) ⟨rfl, rfl⟩ depth
      exact fun which => extends_of_le (Nat.zero_le _)

private theorem literal?_eq_none (isWhich : token.isTerminal which)
    (plain : which ≠ .falseWord ∧ which ≠ .trueWord ∧ which ≠ .nilWord) :
    literal? token = none := by
  unfold literal?
  rw [isTerminal_iff.mp isWhich]
  split <;> simp_all

private theorem isIdentifier_eq_false (isWhich : token.isTerminal which) :
    token.isIdentifier = false := by
  simp [Token.isIdentifier, isTerminal_iff.mp isWhich]

private theorem gives_reference {after : List Token} (isName : name.isIdentifier)
    (more : after ≠ []) (depth : Nat) :
    Gives (primary depth) ⟨name :: after, id⟩ (.reference id (named name)) ⟨after, id + 1⟩ := by
  intro last
  apply Answers.bounded depth rfl fun depth => ?_
  have noLiteral : literal? name = none := by
    unfold Token.isIdentifier at isName
    unfold literal?
    cases kind : name.kind <;> simp [kind] at isName ⊢
  refine .current ?_
  intro token rest same
  cases same
  rw [noLiteral]
  simp only [isName, if_true]
  refine .identifier_found isName more ?_
  exact .freshId (.pure ⟨rfl, rfl⟩)

private theorem gives_target {before : Feed} {abbreviated : Option BinaryOp}
    (isMark : meant assignmentMarks mark = some abbreviated)
    (read : ∀ {gives : Expr → Token → Feed → Prop},
      (∀ depth last, Answers TooDeep (accesses depth value) last ⟨mark :: rest, id⟩ gives) →
      ∀ depth last, Answers TooDeep (operand depth) last before gives) (depth level : Nat) :
    Gives (operation depth level) before value ⟨mark :: rest, id⟩ := by
  have settled : Avoids (Extends 0) (mark :: rest) := avoids_of_assignment isMark
  refine gives_operation_of_operand (fun depth last => ?_) settled depth level
  refine read (fun depth last => ?_) depth last
  exact accesses_end (settled.mono fun which => extends_of_le (Nat.zero_le _)) ⟨rfl, rfl⟩ depth

private theorem answers_operand {before after : Feed} (isPrimary : Primary before after value)
    (read : ∀ depth, Gives (primary depth) before value after)
    (continues : ∀ depth last, Answers TooDeep (accesses depth value) last after gives)
    (depth : Nat) (last : Token) : Answers TooDeep (operand depth) last before gives := by
  apply Answers.bounded depth rfl fun depth => ?_
  refine .acceptMap_absent ((led_primary isPrimary).first.mono ?_) ?_
  · intro which known
    revert known
    cases which <;> decide
  refine (read depth).andThen fun last => ?_
  exact continues depth last

private theorem answers_primary {depth : Nat} (isWord : word.isTerminal which)
    (plain : which ≠ .falseWord ∧ which ≠ .trueWord ∧ which ≠ .nilWord) (holds : Answers TooDeep (do
      if ← accept .thisWord then
        let id ← freshId
        pure (.this id word.position)
      else if ← accept .superWord then
        expect .dot "'.' after 'super'"
        let method ← identifier "superclass method name"
        let id ← freshId
        pure (.super id word.position method)
      else if ← accept .leftParen then
        let inner ← expression depth
        expect .rightParen "')' after expression"
        pure (.group inner)
      else if ← accept .leftBracket then
        let elements ← elements depth
        expect .rightBracket "']' after array elements"
        pure (.array elements word.position)
      else if ← accept .leftBrace then
        let entries ← entries depth
        expect .rightBrace "'\x7d' after map entries"
        pure (.map entries word.position)
      else if ← accept .fnWord then
        expect .leftParen "'(' after 'fn'"
        let decl ← functionRest depth { name := lambdaName, position := word.position }
        pure (.lambda decl)
      else
        fail (.expected "expression")) last ⟨word :: rest, id⟩ gives) :
    Answers TooDeep (primary (depth + 1)) last ⟨word :: rest, id⟩ gives := by
  refine .current ?_
  intro token rest same
  cases same
  rw [literal?_eq_none isWord plain]
  simp only [isIdentifier_eq_false isWord, Bool.false_eq_true, if_false]
  exact holds

private theorem begins_parameters {before after : List Token} {found : List Parameter}
    (declared : Parameters before after found) : starts .rightParen before = false := by
  have apart {name : Token} {rest : List Token} (isName : name.isIdentifier) :
      starts .rightParen (name :: rest) = false := by
    unfold Token.isIdentifier at isName
    unfold starts Token.isTerminal
    cases kind : name.kind <;> simp [kind] at isName ⊢
  cases declared with
  | last isName typed => exact apart isName
  | more isName typed isComma next => exact apart isName

private theorem gives_annotatedBlock {before after : List Token} {brace : Token} {found : TypeName}
    (isType : TypePhrase before (brace :: after) found) (opens : brace.isTerminal .leftBrace)
    (more : after ≠ []) (depth : Nat) (id : RefId) :
    Gives (annotatedBlock depth) ⟨before, id⟩ found ⟨after, id⟩ := by
  intro last
  apply Answers.bounded depth rfl fun depth => ?_
  have read := gives_typeName isType (starts_of_isTerminal opens (by decide))
    (List.cons_ne_nil _ _) depth id
  refine read.andThen fun last => ?_
  exact .expect_found opens more (.pure ⟨rfl, rfl⟩)

private theorem gives_namedFunction {after : Feed} {decl : FunctionDecl Stmt}
    (isName : name.isIdentifier) (opens : opening.isTerminal .leftParen) (more : rest ≠ [])
    (read : ∀ depth, Gives (functionRest depth (named name)) ⟨rest, id⟩ decl after) (depth : Nat)
    (kind : String) :
    Gives (namedFunction depth kind) ⟨name :: opening :: rest, id⟩ decl after := by
  intro last
  apply Answers.bounded depth rfl fun depth => ?_
  refine .identifier_found isName (List.cons_ne_nil _ _) ?_
  exact .expect_found opens more (read depth _)

private theorem gives_expressionStatement {before : Feed} {after : List Token}
    (read : ∀ depth, Gives (expression depth) before value ⟨mark :: after, id⟩)
    (isMark : mark.isTerminal .semicolon) (more : after ≠ []) (depth : Nat) :
    Gives (expressionStatement depth) before (.expression value) ⟨after, id⟩ := by
  intro last
  apply Answers.bounded depth rfl fun depth => ?_
  refine (read depth).andThen fun last => ?_
  exact .expect_found isMark more (.pure ⟨rfl, rfl⟩)

private theorem begins_initial {middle after : List Token} {initial : Option Expr}
    (isInitial : Initial ⟨middle, id⟩ ⟨mark :: after, id'⟩ initial)
    (isMark : mark.isTerminal .semicolon) :
    starts .colon middle = false ∧ starts .less middle = false := by
  cases isInitial with
  | none => exact ⟨starts_of_isTerminal isMark (by decide), starts_of_isTerminal isMark (by decide)⟩
  | some isEquals isValue =>
    exact ⟨starts_of_isTerminal isEquals (by decide), starts_of_isTerminal isEquals (by decide)⟩

private theorem answers_attempt {tokens : List Token}
    {gives : Option TypeName → Token → Feed → Prop} (marked : Marked tokens)
    (plain : ¬Annotated tokens) (depth : Nat)
    (holds : gives none last ⟨tokens, id⟩) :
    Answers TooDeep (attempt (annotatedBlock depth)) last ⟨tokens, id⟩ gives := by
  refine .attempt ((answers_annotatedBlock depth marked).imp ?_ ?_)
  · intro problem _
    exact ⟨fun deep => deep, fun _ => holds⟩
  · rintro found last after ⟨brace, rest, rfl, isType, opens, -⟩
    exact absurd ⟨brace, rest, found, isType, opens⟩ plain

section Statements

variable {α : Type} (rule : Feed → Feed → α → Prop) (reader : Nat → Parse α) (before after : Feed)
  (value : α)

/-- What the rule derives in front of the end mark is read. -/
abbrev Accepts : Prop :=
  rule before after value → Marked after.tokens → ∀ depth, Gives (reader depth) before value after

/-- What the rule derives in front of the terminal is read. -/
abbrev AcceptsUpTo (which : Terminal) : Prop :=
  rule before after value → starts which after.tokens = true → Marked after.tokens →
    ∀ depth, Gives (reader depth) before value after

end Statements

mutual

theorem gives_expression {before after : Feed} {value : Expr} :
    Expression before after value → Avoids Continues after.tokens → Marked after.tokens →
      ∀ depth, Gives (expression depth) before value after
  | _, _, _, 0 => fun _ => .fail rfl
  | .operation isValue, final, marked, depth + 1 => by
    intro last
    have settled : Avoids (Extends 0) after.tokens := final.mono fun which => .inl
    have tighter := settled.mono fun which => extends_of_le (Nat.le_succ 0)
    refine .bind (answers_operation isValue tighter marked (fun depth last => ?_) depth last)
    refine operationTail_ends settled ?_ depth
    refine .acceptMap_absent (final.mono fun which known => ?_) (.pure ⟨rfl, rfl⟩)
    exact .inr (lookup_assignmentMarks which ▸ known)
  | .assign isName isMark isValue, final, marked, depth + 1 => by
    intro last
    refine (gives_target isMark (answers_operand (.reference isName)
      (gives_reference isName (List.cons_ne_nil _ _))) depth 0).andThen fun last => ?_
    refine .acceptMap_found (meant_assignmentMarks ▸ isMark) isValue.left.ne_nil (.previous ?_)
    refine (gives_expression isValue final marked depth).andThen fun last => ?_
    exact .freshId (.pure ⟨rfl, rfl⟩)
  | .setProperty target isDot isName isMark isValue, final, marked, depth + 1 => by
    intro last
    have rest := marked.before isValue.left.1
    have read := gives_target isMark (fun continues => answers_call target rest.cons.cons.cons
      (accesses_property isDot isName (List.cons_ne_nil _ _) continues)) depth 0
    refine read.andThen fun last => ?_
    refine .acceptMap_found (meant_assignmentMarks ▸ isMark) isValue.left.ne_nil (.previous ?_)
    exact (gives_expression isValue final marked depth).andPure
  | .setIndex target opens isKey closes isMark isValue, final, marked, depth + 1 => by
    intro last
    have rest := marked.before isValue.left.1
    have inner := rest.cons.cons.before isKey.left.1
    have key := gives_expression isKey (.of_isTerminal closes (by decide)) rest.cons.cons
    have read := gives_target isMark (fun continues => answers_call target inner.cons
      (accesses_index opens inner.ne_nil key closes (List.cons_ne_nil _ _) continues)) depth 0
    refine read.andThen fun last => ?_
    refine .acceptMap_found (meant_assignmentMarks ▸ isMark) isValue.left.ne_nil (.previous ?_)
    exact (gives_expression isValue final marked depth).andPure

private theorem answers_operation {level : Nat} {before after : Feed} {left : Expr} :
    Operation level before after left → Avoids (Extends (level + 1)) after.tokens →
      Marked after.tokens → ∀ {gives : Expr → Token → Feed → Prop},
      (∀ depth last, Answers TooDeep (operationTail depth level left) last after gives) →
      ∀ depth last, Answers TooDeep (operation depth level) last before gives
  | _, _, _, _, _, 0, _ => .fail rfl
  | .operand isValue, settled, marked, gives, continues, depth + 1, last => by
    have settled' : Avoids (Extends operandLevel) after.tokens := by
      refine settled.mono ?_
      rintro which (isParen | isDot | isBracket | ⟨tighter, loose, tight, -⟩)
      · exact .inl isParen
      · exact .inr (.inl isDot)
      · exact .inr (.inr (.inl isBracket))
      · exact absurd loose (Nat.not_lt_of_le tight)
    refine (gives_operand isValue settled' marked depth last).imp (fun _ => id) ?_
    rintro _ last _ ⟨rfl, rfl⟩
    -- The tightest level has no operators, so to go on with it is to stop.
    exact Answers.of_pure marked.ne_nil (continues 0 last)
  | .tighter loose isValue, settled, marked, gives, continues, depth + 1, last => by
    have loose : level < operandLevel := loose
    rw [operation, if_neg (Nat.not_le_of_lt loose)]
    have tighter := settled.mono fun which => extends_of_le (Nat.le_succ (level + 1))
    refine .bind (answers_operation isValue tighter marked (fun depth' last => ?_) depth last)
    refine operationTail_ends settled ?_ depth'
    rw [← operationTail_loose loose]
    exact continues depth last
  | .join loose first isOperator second, settled, marked, gives, continues, depth, last => by
    -- The phrase is left-recursive and the reader is a loop: its first part leads to the operator.
    refine answers_operation first (avoids_of_operator loose isOperator)
      (marked.before second.left.1).cons (fun depth last => ?_) depth last
    rw [operationTail_loose loose]
    apply Answers.bounded depth rfl fun depth => ?_
    have tighter := settled.mono fun which => extends_of_le (Nat.le_succ (level + 1))
    refine .acceptMap_found (meant_operatorMarks level ▸ isOperator) second.left.ne_nil
      (.previous ?_)
    refine .bind (answers_operation second tighter marked (fun depth' last => ?_) depth _)
    refine operationTail_ends settled ?_ depth'
    rw [← operationTail_loose loose]
    exact continues depth last

private theorem gives_operand {before after : Feed} {value : Expr} :
    Operand before after value → Avoids (Extends operandLevel) after.tokens → Marked after.tokens →
      ∀ depth, Gives (operand depth) before value after
  | _, _, _, 0 => fun _ => .fail rfl
  | .unary isOperator isOperand, settled, marked, depth + 1 => by
    intro last
    refine .acceptMap_found (meant_unaryMarks ▸ isOperator) isOperand.left.ne_nil
      (.previous ?_)
    exact (gives_operand isOperand settled marked depth).andPure
  | .call isValue, settled, marked, depth + 1 => by
    intro last
    refine answers_call isValue marked (fun depth last => ?_) _ last
    exact accesses_end settled ⟨rfl, rfl⟩ depth

private theorem answers_call {before after : Feed} {object : Expr} :
    Call before after object → Marked after.tokens →
      ∀ {gives : Expr → Token → Feed → Prop},
      (∀ depth last, Answers TooDeep (accesses depth object) last after gives) →
      ∀ depth last, Answers TooDeep (operand depth) last before gives
  | .primary isValue, marked, gives, continues, depth, last =>
    answers_operand isValue (gives_primary isValue marked) continues depth last
  | .call target opens closes, marked, gives, continues, depth, last => by
    refine answers_call target marked.cons.cons (fun depth last => ?_) depth last
    apply Answers.bounded depth rfl fun depth => ?_
    refine .accept_found opens (List.cons_ne_nil _ _) (.previous ?_)
    refine .ifChecks (fun _ => ?_) fun absent => ?_
    · refine .bind (.pure (.expect_found closes marked.ne_nil ?_))
      exact continues depth _
    · simp [starts, closes] at absent
  | .callWith target opens areValues few closes, marked, gives, continues, depth, last => by
    have inner := marked.cons.before areValues.left.1
    refine answers_call target inner.cons (fun depth last => ?_) depth last
    apply Answers.bounded depth rfl fun depth => ?_
    refine .accept_found opens areValues.left.ne_nil (.previous ?_)
    refine .ifChecks (fun found => ?_) fun _ => ?_
    · rw [(led_commas areValues).starts rfl] at found
      contradiction
    · refine (gives_arguments areValues closes marked.cons few depth).andThen fun last => ?_
      refine .expect_found closes marked.ne_nil ?_
      exact continues depth _
  | .property target isDot isName, marked, gives, continues, depth, last =>
    answers_call target marked.cons.cons
      (accesses_property isDot isName marked.ne_nil continues) depth last
  | .index target opens isKey closes, marked, gives, continues, depth, last => by
    have inner := marked.cons.before isKey.left.1
    have key := gives_expression isKey (.of_isTerminal closes (by decide)) marked.cons
    exact answers_call target inner.cons
      (accesses_index opens inner.ne_nil key closes marked.ne_nil continues) depth last

private theorem gives_arguments {before after : Feed} {values : List Expr} :
    Commas before after values → starts .rightParen after.tokens = true → Marked after.tokens →
      ∀ {count : Nat}, values.length + count ≤ argumentLimit →
      ∀ depth, Gives (arguments depth count) before values after
  | _, _, _, _, _, 0 => fun _ => .fail rfl
  | .last only, closed, marked, count, few, depth + 1 => by
    intro last
    simp only [List.length_singleton] at few
    have final := avoids_continues closed (by decide)
    rw [arguments, if_neg (by omega)]
    refine (gives_expression only final marked depth).andThen fun last => ?_
    exact .accept_absent (starts_apart closed (by decide)) (.pure ⟨rfl, rfl⟩)
  | .more first isComma next, closed, marked, count, few, depth + 1 => by
    intro last
    simp only [List.length_cons] at few
    rw [arguments, if_neg (by omega)]
    have middle := marked.before next.left.1
    have head := gives_expression first (.of_isTerminal isComma (by decide)) middle.cons depth
    refine head.andThen fun last => ?_
    refine .accept_found isComma next.left.ne_nil ?_
    exact (gives_arguments next closed marked (by omega) depth).andPure

private theorem gives_printed {before after value} :
    AcceptsUpTo Commas printed before after value .semicolon
  | _, _, _, 0 => fun _ => .fail rfl
  | .last only, closed, marked, depth + 1 => by
    intro last
    have final := avoids_continues closed (by decide)
    refine (gives_expression only final marked depth).andThen fun last => ?_
    exact .accept_absent (starts_apart closed (by decide)) (.pure ⟨rfl, rfl⟩)
  | .more first isComma next, closed, marked, depth + 1 => by
    intro last
    have middle := marked.before next.left.1
    have head := gives_expression first (.of_isTerminal isComma (by decide)) middle.cons depth
    refine head.andThen fun last => ?_
    refine .accept_found isComma next.left.ne_nil ?_
    exact (gives_printed next closed marked depth).andPure

private theorem gives_elements {before after value} :
    AcceptsUpTo Elements elements before after value .rightBracket
  | _, _, _, 0 => fun _ => .fail rfl
  | .none, closed, marked, depth + 1 => by
    intro last
    refine .ifChecks (fun _ => .pure ⟨rfl, rfl⟩) fun absent => ?_
    simp [closed] at absent
  | .last only, closed, marked, depth + 1 => by
    intro last
    have final := avoids_continues closed (by decide)
    refine .check ?_
    rw [(led_expression only).starts rfl]
    refine (gives_expression only final marked depth).andThen fun last => ?_
    exact .accept_absent (starts_apart closed (by decide)) (.pure ⟨rfl, rfl⟩)
  | .more first isComma next, closed, marked, depth + 1 => by
    intro last
    refine .check ?_
    rw [(led_expression first).starts rfl]
    have middle := marked.before next.left.1
    have head := gives_expression first (.of_isTerminal isComma (by decide)) middle.cons depth
    refine head.andThen fun last => ?_
    refine .accept_found isComma middle.ne_nil ?_
    exact (gives_elements next closed marked depth).andPure

private theorem gives_entries {before after value} :
    AcceptsUpTo Entries entries before after value .rightBrace
  | _, _, _, 0 => fun _ => .fail rfl
  | .none, closed, marked, depth + 1 => by
    intro last
    refine .ifChecks (fun _ => .pure ⟨rfl, rfl⟩) fun absent => ?_
    simp [closed] at absent
  | .last isKey isColon isValue, closed, marked, depth + 1 => by
    intro last
    have final := avoids_continues closed (by decide)
    refine .check ?_
    rw [(led_expression isKey).starts rfl]
    have valued := marked.before isValue.left.1
    have key := gives_expression isKey (.of_isTerminal isColon (by decide)) valued.cons depth
    refine key.andThen fun last => ?_
    refine .expect_found isColon isValue.left.ne_nil ?_
    refine (gives_expression isValue final marked depth).andThen fun last => ?_
    exact .accept_absent (starts_apart closed (by decide)) (.pure ⟨rfl, rfl⟩)
  | .more isKey isColon isValue isComma next, closed, marked, depth + 1 => by
    intro last
    refine .check ?_
    rw [(led_expression isKey).starts rfl]
    have middle := marked.before next.left.1
    have valued := middle.cons.before isValue.left.1
    have key := gives_expression isKey (.of_isTerminal isColon (by decide)) valued.cons depth
    refine key.andThen fun last => ?_
    refine .expect_found isColon isValue.left.ne_nil ?_
    have value := gives_expression isValue (.of_isTerminal isComma (by decide)) middle.cons depth
    refine value.andThen fun last => ?_
    refine .accept_found isComma middle.ne_nil ?_
    exact (gives_entries next closed marked depth).andPure

private theorem gives_primary {before after value} : Accepts Primary primary before after value
  | _, _, 0 => fun _ => .fail rfl
  | .literal isLiteral, marked, depth + 1 => by
    intro last
    refine .current ?_
    intro token rest same
    cases same
    rw [literal?_eq_some_iff.mpr isLiteral]
    exact .advance (isFinish_of_literal isLiteral) marked.ne_nil (.pure ⟨rfl, rfl⟩)
  | .reference isName, marked, depth + 1 => gives_reference isName marked.ne_nil _
  | .this isWord, marked, depth + 1 => by
    intro last
    refine answers_primary isWord ⟨by decide, by decide, by decide⟩ ?_
    refine .accept_found isWord marked.ne_nil ?_
    exact .freshId (.pure ⟨rfl, rfl⟩)
  | .super isWord isDot isName, marked, depth + 1 => by
    intro last
    refine answers_primary isWord ⟨by decide, by decide, by decide⟩ ?_
    refine .skip isWord (by decide) ?_
    refine .accept_found isWord (List.cons_ne_nil _ _) ?_
    refine .expect_found isDot (List.cons_ne_nil _ _) ?_
    refine .identifier_found isName marked.ne_nil ?_
    exact .freshId (.pure ⟨rfl, rfl⟩)
  | .group opens isValue closes, marked, depth + 1 => by
    intro last
    refine answers_primary opens ⟨by decide, by decide, by decide⟩ ?_
    iterate 2 refine .skip opens (by decide) ?_
    refine .accept_found opens isValue.left.ne_nil ?_
    have inner := gives_expression isValue (.of_isTerminal closes (by decide)) marked.cons depth
    refine inner.andThen fun last => ?_
    exact .expect_found closes marked.ne_nil (.pure ⟨rfl, rfl⟩)
  | .array opens areValues closes, marked, depth + 1 => by
    intro last
    refine answers_primary opens ⟨by decide, by decide, by decide⟩ ?_
    iterate 3 refine .skip opens (by decide) ?_
    refine .accept_found opens areValues.left.ne_nil_of_cons ?_
    refine (gives_elements areValues closes marked.cons depth).andThen fun last => ?_
    exact .expect_found closes marked.ne_nil (.pure ⟨rfl, rfl⟩)
  | .map opens arePairs closes, marked, depth + 1 => by
    intro last
    refine answers_primary opens ⟨by decide, by decide, by decide⟩ ?_
    iterate 4 refine .skip opens (by decide) ?_
    refine .accept_found opens arePairs.left.ne_nil_of_cons ?_
    refine (gives_entries arePairs closes marked.cons depth).andThen fun last => ?_
    exact .expect_found closes marked.ne_nil (.pure ⟨rfl, rfl⟩)
  | .lambda isWord opens isRest, marked, depth + 1 => by
    intro last
    refine answers_primary isWord ⟨by decide, by decide, by decide⟩ ?_
    iterate 5 refine .skip isWord (by decide) ?_
    refine .accept_found isWord (List.cons_ne_nil _ _) ?_
    refine .expect_found opens isRest.left.ne_nil ?_
    exact (gives_functionRest isRest marked depth).andPure

private theorem gives_functionRest {name : Identifier} {before after : Feed}
    {decl : FunctionDecl Stmt} : FunctionRest name before after decl → Marked after.tokens →
      ∀ depth, Gives (functionRest depth name) before decl after
  | _, _, 0 => fun _ => .fail rfl
  | .rest .none closes isBody, marked, depth + 1 => by
    intro last
    refine .ifChecks (fun _ => ?_) fun absent => ?_
    · refine .bind (.pure (.expect_found closes isBody.left.ne_nil ?_))
      exact (gives_functionBody isBody marked depth).andPure
    · simp [starts, closes] at absent
  | .rest (.some parameters few) closes isBody, marked, depth + 1 => by
    intro last
    have rest := marked.before isBody.left.1
    refine .ifChecks (fun found => ?_) fun _ => ?_
    · rw [begins_parameters parameters] at found
      contradiction
    · refine (gives_parameters parameters closes rest.cons depth 0 few _).andThen fun last => ?_
      refine .expect_found closes isBody.left.ne_nil ?_
      exact (gives_functionBody isBody marked depth).andPure

private theorem gives_functionBody {before after value} :
    Accepts FunctionBody functionBody before after value
  | _, _, 0 => fun _ => .fail rfl
  | .block opens isBody, marked, depth + 1 => by
    intro last
    refine .skip opens (by decide) ?_
    refine .expect_found opens isBody.left.ne_nil ?_
    exact (gives_block isBody marked depth).andPure
  | .annotated isArrow isType opens isBody, marked, depth + 1 => by
    intro last
    -- The attempt can fail for want of depth only, which is then the problem of the whole.
    refine .accept_found isArrow isType.left.ne_nil (.previous ?_)
    have read := gives_annotatedBlock isType opens isBody.left.ne_nil depth
    refine .bind (.attempt ((read _ _).imp ?_ ?_))
    · intro problem deep
      exact ⟨fun _ => deep, fun other => absurd deep other⟩
    · rintro _ last _ ⟨rfl, rfl⟩
      exact (gives_block isBody marked depth).andPure
  | .expression isArrow plain isValue whole, marked, depth + 1 => by
    intro last
    refine .accept_found isArrow isValue.left.ne_nil (.previous ?_)
    refine .bind (answers_attempt (marked.before isValue.left.1) plain depth ?_)
    have final : Avoids Continues after.tokens := whole.mono fun which => .inl
    refine (gives_expression isValue final marked depth).andThen fun last => ?_
    have noMark := avoids_eq_iff.mp (whole.mono fun which => .inr)
    exact .accept_absent noMark (.pure ⟨rfl, rfl⟩)
  | .terminated isArrow plain isValue isMark, marked, depth + 1 => by
    intro last
    refine .accept_found isArrow isValue.left.ne_nil (.previous ?_)
    refine .bind (answers_attempt (marked.cons.before isValue.left.1) plain depth ?_)
    have value := gives_expression isValue (.of_isTerminal isMark (by decide)) marked.cons depth
    refine value.andThen fun last => ?_
    exact .accept_found isMark marked.ne_nil (.pure ⟨rfl, rfl⟩)

private theorem gives_block {before after value} : Accepts Block block before after value
  | _, _, 0 => fun _ => .fail rfl
  | .none closes, marked, depth + 1 => by
    intro last
    refine .check (.atEnd ?_)
    simp only [starts, closes, Bool.true_or, if_true]
    exact .expect_found closes marked.ne_nil (.pure ⟨rfl, rfl⟩)
  | .more first next, marked, depth + 1 => by
    intro last
    refine .check (.atEnd ?_)
    simp only [begins_declaration first, Bool.or_self, Bool.false_eq_true, if_false]
    refine (gives_declaration first (marked.before next.left.1) depth).andThen fun last => ?_
    exact (gives_block next marked depth).andPure

private theorem gives_declaration {before after value} :
    Accepts Declaration declaration before after value
  | _, _, 0 => fun _ => .fail rfl
  | .classDecl isWord isName clause opens isBody, marked, depth + 1 => by
    intro last
    refine .accept_found isWord (List.cons_ne_nil _ _) ?_
    apply Answers.bounded depth rfl fun depth => ?_
    have rest := clause.left.ne_nil_of_cons
    refine .identifier_found isName rest ?_
    refine (gives_superclassClause clause opens).andThen fun last => ?_
    refine .expect_found opens isBody.left.ne_nil ?_
    exact (gives_members isBody marked depth).andPure
  | .function isWord isName opens isRest, marked, depth + 1 => by
    intro last
    refine .skip isWord (by decide) (.check (.checkNextIdentifier ?_))
    simp only [starts, isWord, List.tail_cons, List.head?_cons, Option.any_some, isName,
      Bool.and_self, if_true]
    refine .advance (isFinish_of_isTerminal isWord) (List.cons_ne_nil _ _) ?_
    have function := gives_namedFunction isName opens isRest.left.ne_nil
      (gives_functionRest isRest marked) depth "function"
    exact function.andPure
  | .var isWord declared, marked, depth + 1 => by
    intro last
    refine .skip isWord (by decide) (.check (.checkNextIdentifier ?_))
    simp only [starts_of_isTerminal isWord (show Terminal.varWord ≠ .fnWord by decide),
      Bool.false_and, Bool.false_eq_true, if_false]
    refine .accept_found isWord declared.left.ne_nil ?_
    apply Answers.bounded depth rfl fun depth => ?_
    exact gives_variable declared marked depth _
  | .statement isStmt, marked, depth + 1 => by
    intro last
    have led := led_statement isStmt
    refine .accept_absent (led.starts rfl) ?_
    refine .check (.checkNextIdentifier ?_)
    simp only [led.unnamed, Bool.false_eq_true, if_false]
    refine .accept_absent (led.starts rfl) ?_
    exact gives_statement isStmt marked depth _

private theorem gives_variable {α : Type} {before after : Feed} {name : Identifier}
    {hint : Option TypeName} {initial : Option Expr} {called what : String}
    {made : Identifier → Option TypeName → Option Expr → α} :
    Variable before after name hint initial → Marked after.tokens →
      ∀ depth, Gives (do
        let name ← identifier called
        let typeHint ← typeHint depth
        let initial ← initialValue depth
        expect .semicolon what
        pure (made name typeHint initial)) before (made name hint initial) after
  | .declared isName typed isInitial isMark, marked, depth => by
    intro last
    have middle := marked.cons.before isInitial.left.1
    refine .identifier_found isName (middle.before typed.left.1).ne_nil ?_
    have follow := begins_initial isInitial isMark
    refine (gives_typeHint typed follow.1 follow.2 middle.ne_nil depth _).andThen fun last => ?_
    refine (gives_initialValue isInitial isMark marked.cons depth).andThen fun last => ?_
    exact .expect_found isMark marked.ne_nil (.pure ⟨rfl, rfl⟩)

private theorem gives_initialValue {before after value} :
    AcceptsUpTo Initial initialValue before after value .semicolon
  | _, _, _, 0 => fun _ => .fail rfl
  | .none, closed, marked, depth + 1 => by
    intro last
    exact .accept_absent (starts_apart closed (by decide)) (.pure ⟨rfl, rfl⟩)
  | .some isEquals isValue, closed, marked, depth + 1 => by
    intro last
    have final := avoids_continues closed (by decide)
    refine .accept_found isEquals isValue.left.ne_nil ?_
    exact (gives_expression isValue final marked depth).andPure

private theorem gives_members {before after value} : Accepts MemberList members before after value
  | _, _, 0 => fun _ => .fail rfl
  | .none closes, marked, depth + 1 => by
    intro last
    refine .check (.atEnd ?_)
    simp only [starts, closes, Bool.true_or, if_true]
    exact .expect_found closes marked.ne_nil (.pure ⟨rfl, rfl⟩)
  | .field modifiers isWord declared next, marked, depth + 1 => by
    intro last
    have begins := begins_modifiers modifiers
      ⟨starts_of_isTerminal isWord (by decide), isFinish_of_isTerminal isWord⟩
    have rest := marked.before next.left.1
    have inner := rest.before declared.left.1
    have noAccess : ¬(accessWord .varWord).isSome := by decide
    have noDispatch : ¬(dispatchWord .varWord).isSome := by decide
    refine .check (.atEnd ?_)
    simp only [begins, Bool.or_self, Bool.false_eq_true, if_false]
    have read := gives_memberModifiers modifiers (.of_isTerminal isWord noAccess)
      (.of_isTerminal isWord noDispatch) inner.cons depth
    refine (read _).andThen fun last => ?_
    refine .accept_found isWord declared.left.ne_nil ?_
    cases depth with
    | zero => exact .bind (.fail rfl)
    | succ depth =>
      refine (gives_variable declared rest depth).andThen fun last => ?_
      exact (gives_members next marked (depth + 1)).andPure
  | .method modifiers isWord isName opens isRest next, marked, depth + 1 => by
    intro last
    have begins := begins_modifiers modifiers
      ⟨starts_of_isTerminal isWord (by decide), isFinish_of_isTerminal isWord⟩
    have rest := marked.before next.left.1
    have inner := rest.before isRest.left.1
    have noAccess : ¬(accessWord .fnWord).isSome := by decide
    have noDispatch : ¬(dispatchWord .fnWord).isSome := by decide
    refine .check (.atEnd ?_)
    simp only [begins, Bool.or_self, Bool.false_eq_true, if_false]
    have read := gives_memberModifiers modifiers (.of_isTerminal isWord noAccess)
      (.of_isTerminal isWord noDispatch) inner.cons.cons.cons depth
    refine (read _).andThen fun last => ?_
    refine .skip isWord (by decide) (.accept_found isWord (List.cons_ne_nil _ _) ?_)
    have function := gives_namedFunction isName opens isRest.left.ne_nil
      (gives_functionRest isRest rest) depth "method"
    refine function.andThen fun last => ?_
    exact (gives_members next marked depth).andPure

private theorem gives_statement {before after value} :
    Accepts Statement statement before after value
  | _, _, 0 => fun _ => .fail rfl
  | .countedLoop isWord opens isInitial isCondition isMark isIncrement closes isBody, marked,
    depth + 1 => by
    intro last
    refine .accept_found isWord (List.cons_ne_nil _ _) ?_
    apply Answers.bounded depth rfl fun depth => ?_
    have body := marked.before isBody.left.1
    have increments := body.cons.before isIncrement.left.1
    have conditions := increments.cons.before isCondition.left.1
    refine .expect_found opens isInitial.left.ne_nil ?_
    refine (gives_loopInitial isInitial conditions depth).andThen fun last => ?_
    have condition := gives_optional isCondition isMark increments.cons rfl (by decide) depth
    refine condition.andThen fun last => ?_
    refine .expect_found isMark increments.ne_nil ?_
    have increment := gives_optional isIncrement closes body.cons rfl (by decide) depth
    refine increment.andThen fun last => ?_
    refine .expect_found closes isBody.left.ne_nil ?_
    exact (gives_statement isBody marked depth).andPure
  | .branch isWord opens isCondition closes whenTrue alone, marked, depth + 1 => by
    intro last
    refine .skip isWord (by decide) (.accept_found isWord (List.cons_ne_nil _ _) ?_)
    apply Answers.bounded depth rfl fun depth => ?_
    refine .expect_found opens isCondition.left.ne_nil ?_
    have body := marked.before whenTrue.left.1
    have condition :=
      gives_expression isCondition (.of_isTerminal closes (by decide)) body.cons depth
    refine condition.andThen fun last => ?_
    refine .expect_found closes whenTrue.left.ne_nil ?_
    refine (gives_statement whenTrue marked depth).andThen fun last => ?_
    exact .accept_absent alone (.pure ⟨rfl, rfl⟩)
  | .branches isWord opens isCondition closes whenTrue isElse whenFalse, marked, depth + 1 => by
    intro last
    refine .skip isWord (by decide) (.accept_found isWord (List.cons_ne_nil _ _) ?_)
    apply Answers.bounded depth rfl fun depth => ?_
    refine .expect_found opens isCondition.left.ne_nil ?_
    have other := marked.before whenFalse.left.1
    have body := other.cons.before whenTrue.left.1
    have condition :=
      gives_expression isCondition (.of_isTerminal closes (by decide)) body.cons depth
    refine condition.andThen fun last => ?_
    refine .expect_found closes whenTrue.left.ne_nil ?_
    refine (gives_statement whenTrue other.cons depth).andThen fun last => ?_
    refine .accept_found isElse whenFalse.left.ne_nil ?_
    exact (gives_statement whenFalse marked depth).andPure
  | .loop isWord opens isCondition closes isBody, marked, depth + 1 => by
    intro last
    iterate 2 refine .skip isWord (by decide) ?_
    refine .accept_found isWord (List.cons_ne_nil _ _) ?_
    refine .expect_found opens isCondition.left.ne_nil ?_
    have body := marked.before isBody.left.1
    have condition :=
      gives_expression isCondition (.of_isTerminal closes (by decide)) body.cons depth
    refine condition.andThen fun last => ?_
    refine .expect_found closes isBody.left.ne_nil ?_
    exact (gives_statement isBody marked depth).andPure
  | .returnValue isWord isValue isMark, marked, depth + 1 => by
    intro last
    iterate 3 refine .skip isWord (by decide) ?_
    have rest := isValue.left.ne_nil_of_cons
    refine .accept_found isWord rest (.previous ?_)
    have value := gives_optional isValue isMark marked.cons rfl (by decide) depth
    refine value.andThen fun last => ?_
    exact .expect_found isMark marked.ne_nil (.pure ⟨rfl, rfl⟩)
  | .breakLoop isWord isMark, marked, depth + 1 => by
    intro last
    iterate 4 refine .skip isWord (by decide) ?_
    refine .accept_found isWord (List.cons_ne_nil _ _) (.previous ?_)
    exact .expect_found isMark marked.ne_nil (.pure ⟨rfl, rfl⟩)
  | .continueLoop isWord isMark, marked, depth + 1 => by
    intro last
    iterate 5 refine .skip isWord (by decide) ?_
    refine .accept_found isWord (List.cons_ne_nil _ _) (.previous ?_)
    exact .expect_found isMark marked.ne_nil (.pure ⟨rfl, rfl⟩)
  | .block opens isBody, marked, depth + 1 => by
    intro last
    iterate 6 refine .skip opens (by decide) ?_
    refine .accept_found opens isBody.left.ne_nil ?_
    exact (gives_block isBody marked depth).andPure
  | .print isWord areValues isMark, marked, depth + 1 => by
    intro last
    iterate 7 refine .skip isWord (by decide) ?_
    refine .accept_found isWord areValues.left.ne_nil (.previous ?_)
    refine (gives_printed areValues isMark marked.cons depth).andThen fun last => ?_
    exact .expect_found isMark marked.ne_nil (.pure ⟨rfl, rfl⟩)
  | .expression noBlock isValue isMark, marked, depth + 1 => by
    intro last
    have led := led_expression isValue
    iterate 6 refine .accept_absent (led.starts rfl) ?_
    refine .accept_absent noBlock (.accept_absent (led.starts rfl) ?_)
    have value := gives_expression isValue (.of_isTerminal isMark (by decide)) marked.cons
    exact gives_expressionStatement value isMark marked.ne_nil depth _

private theorem gives_optional {before after : Feed} {value : Option Expr} :
    Optional before after value → ∀ {mark : Terminal}, starts mark after.tokens = true →
      Marked after.tokens → leadsExpression mark = false → ¬Continues mark →
      ∀ depth, Gives (optionalExpression depth mark) before value after
  | _, _, _, _, _, _, 0 => fun _ => .fail rfl
  | .none, mark, closed, _, _, _, depth + 1 => by
    intro last
    refine .ifChecks (fun _ => .pure ⟨rfl, rfl⟩) fun absent => ?_
    simp [closed] at absent
  | .some isValue, mark, closed, marked, refused, apart, depth + 1 => by
    intro last
    refine .check ?_
    rw [(led_expression isValue).starts refused]
    have value := gives_expression isValue (avoids_continues closed apart) marked depth
    exact value.andPure

private theorem gives_loopInitial {before after value} :
    Accepts LoopInitial loopInitial before after value
  | _, _, 0 => fun _ => .fail rfl
  | .none isMark, marked, depth + 1 => by
    intro last
    exact .accept_found isMark marked.ne_nil (.pure ⟨rfl, rfl⟩)
  | .var isWord declared, marked, depth + 1 => by
    intro last
    refine .skip isWord (by decide) ?_
    refine .accept_found isWord declared.left.ne_nil ?_
    cases depth with
    | zero => exact .bind (.fail rfl)
    | succ depth =>
      exact (gives_variable declared marked depth).andPure
  | .expression isValue isMark, marked, depth + 1 => by
    intro last
    have led := led_expression isValue
    refine .accept_absent (led.starts rfl) (.accept_absent (led.starts rfl) ?_)
    have value := gives_expression isValue (.of_isTerminal isMark (by decide)) marked.cons
    have statement := gives_expressionStatement value isMark marked.ne_nil depth
    exact statement.andPure

end

theorem left_declarations {before after : Feed} (derived : Declarations before after program) :
    after.tokens <:+ before.tokens ∧ ended after.tokens = true := by
  induction derived with
  | none atEnd => exact ⟨List.suffix_refl _, atEnd⟩
  | more first next ih => exact ⟨ih.1.trans first.left.1, ih.2⟩

theorem gives_declarations {before after : Feed} (derived : Declarations before after program)
    (marked : Marked after.tokens) (depth : Nat) :
    Gives (declarations depth) before program after := by
  induction derived generalizing depth with
  | none atEnd =>
    intro last
    apply Answers.bounded depth rfl fun depth => ?_
    refine .atEnd ?_
    rw [atEnd]
    exact .pure ⟨rfl, rfl⟩
  | more first next ih =>
    intro last
    apply Answers.bounded depth rfl fun depth => ?_
    have middle := marked.before (left_declarations next).1
    refine .atEnd ?_
    rw [(begins_declaration first).2]
    refine (gives_declaration first middle depth).andThen fun last => ?_
    exact (ih marked depth).andPure

end ClassScript.Grammar
