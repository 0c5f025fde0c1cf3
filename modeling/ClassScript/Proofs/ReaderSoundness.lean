import ClassScript.Proofs.Arrows

/-!
What the readers give is derived: a reader that answers has read a phrase of its rule, and it runs
out of depth only where its bound is small compared to the number of tokens.
-/

set_option autoImplicit false

namespace ClassScript.Grammar

open Parse Phrase

/-- Depth runs out only below a bound in the number of tokens; `rank` tells apart the rules that
read the same tokens. -/
def Spent (depth : Nat) (tokens : List Token) (rank : Nat) (problem : SyntaxProblem) : Prop :=
  problem = .nestedTooDeep → depth < 32 * tokens.length + rank

/-- In front of the end mark, a reader gives what a rule derives, or has a problem. -/
def Finds {α : Type} (depth rank : Nat) (reader : Parse α) (rule : Feed → Feed → α → Prop) : Prop :=
  ∀ last before, Marked before.tokens →
    Answers (Spent depth before.tokens rank) reader last before fun value _ after =>
      rule before after value ∧ Marked after.tokens

variable {tokens : List Token}

namespace Finds

variable {α β : Type} {depth rank rank' : Nat} {reader : Parse α} {rule : Feed → Feed → α → Prop}

theorem deep (positive : 0 < rank) : Finds 0 rank (tooDeep (α := α)) rule := by
  intro last before marked
  refine .fail fun _ => ?_
  omega

variable {feed : Feed} {last : Token} {tokens : List Token}

theorem called (finds : Finds depth rank' reader rule) {gives : α → Token → Feed → Prop}
    (marked : Marked feed.tokens)
    (holds : ∀ value last after, rule feed after value → Marked after.tokens →
      gives value last after)
    (room : 32 * feed.tokens.length + rank' < 32 * tokens.length + rank := by grind) :
    Answers (Spent (depth + 1) tokens rank) reader last feed gives := by
  refine (finds last feed marked).imp ?_ fun value last after found => holds _ _ _ found.1 found.2
  intro problem spent deep
  have below := spent deep
  omega

theorem andThen (finds : Finds depth rank' reader rule) {next : α → Parse β}
    {gives : β → Token → Feed → Prop} (marked : Marked feed.tokens)
    (continues : ∀ value last after, rule feed after value → Marked after.tokens →
      Answers (Spent (depth + 1) tokens rank) (next value) last after gives)
    (room : 32 * feed.tokens.length + rank' < 32 * tokens.length + rank := by grind) :
    Answers (Spent (depth + 1) tokens rank) (reader >>= next) last feed gives :=
  .bind (finds.called marked continues room)

end Finds

def Uncounted {α : Type} (rule : List Token → List Token → α → Prop) (before after : Feed)
    (value : α) : Prop :=
  ∃ rest, after = ⟨rest, before.nextId⟩ ∧ rule before.tokens rest value

theorem finds_types (depth : Nat) :
    Finds depth 1 (typeName depth) (Uncounted TypePhrase) ∧
      Finds depth 2 (typeArguments depth) (Uncounted TypePhrases) := by
  induction depth with
  | zero => exact ⟨.deep Nat.one_pos, .deep Nat.two_pos⟩
  | succ depth ih =>
    refine ⟨?_, ?_⟩
    · rintro last ⟨tokens, id⟩ marked
      refine .identifier marked ?_
      rintro name rest rfl isName marked
      refine .accept marked ?_ fun absent => .pure ⟨⟨_, rfl, .plain isName⟩, marked⟩
      rintro opening inner rfl opens marked
      refine ih.2.andThen marked ?_
      rintro arguments last _ ⟨rest, rfl, areTypes⟩ marked
      refine .expect marked ?_
      rintro closing after rfl closes marked
      exact .pure ⟨⟨_, rfl, .generic isName opens areTypes closes⟩, marked⟩
    · rintro last ⟨tokens, id⟩ marked
      refine ih.1.andThen marked ?_
      rintro first last _ ⟨rest, rfl, isType⟩ marked
      refine .accept marked ?_ fun absent => .pure ⟨⟨_, rfl, .last isType⟩, marked⟩
      rintro comma inner rfl isComma marked
      have shorter := isType.left.shorter rfl
      refine ih.2.andThen marked ?_
      rintro others last _ ⟨after, rfl, areTypes⟩ marked
      exact .pure ⟨⟨_, rfl, .more isType isComma areTypes⟩, marked⟩

mutual

theorem gives_typeName {before after : List Token} {found : TypeName} :
    TypePhrase before after found → starts .less after = false → after ≠ [] →
      ∀ depth id, Gives (typeName depth) ⟨before, id⟩ found ⟨after, id⟩
  | _, _, _, 0, _ => fun _ => .fail rfl
  | .plain isName, alone, more, depth + 1, id => by
    intro last
    refine .identifier_found isName more ?_
    refine .accept_absent alone ?_
    exact .pure ⟨rfl, rfl⟩
  | .generic isName opens areTypes closes, _, more, depth + 1, id => by
    intro last
    refine .identifier_found isName (List.cons_ne_nil _ _) ?_
    refine .accept_found opens areTypes.left.ne_nil ?_
    have inner := gives_typeArguments areTypes (starts_of_isTerminal closes nofun)
      (starts_of_isTerminal closes nofun) (List.cons_ne_nil _ _) depth id
    refine inner.andThen fun last => ?_
    refine .expect_found closes more ?_
    exact .pure ⟨rfl, rfl⟩

private theorem gives_typeArguments {before after : List Token} {found : List TypeName} :
    TypePhrases before after found → starts .less after = false → starts .comma after = false →
      after ≠ [] → ∀ depth id, Gives (typeArguments depth) ⟨before, id⟩ found ⟨after, id⟩
  | _, _, _, _, 0, _ => fun _ => .fail rfl
  | .last only, alone, final, more, depth + 1, id => by
    intro last
    refine (gives_typeName only alone more depth id).andThen fun last => ?_
    refine .accept_absent final ?_
    exact .pure ⟨rfl, rfl⟩
  | .more first isComma next, alone, final, more, depth + 1, id => by
    intro last
    have head := gives_typeName first (starts_of_isTerminal isComma nofun) (List.cons_ne_nil _ _)
      depth id
    refine head.andThen fun last => ?_
    refine .accept_found isComma next.left.ne_nil ?_
    refine (gives_typeArguments next alone final more depth id).andThen fun last => ?_
    exact .pure ⟨rfl, rfl⟩

end

mutual

private theorem marked_of_type {before after : List Token} {found : TypeName} :
    TypePhrase before after found → Marked before → Marked after
  | .plain isName, marked => marked.tail (isFinish_of_isIdentifier isName)
  | .generic isName opens areTypes closes, marked => by
    have inner := (marked.tail (isFinish_of_isIdentifier isName)).tail
      (isFinish_of_isTerminal opens)
    exact (marked_of_types areTypes inner).tail (isFinish_of_isTerminal closes)

private theorem marked_of_types {before after : List Token} {found : List TypeName} :
    TypePhrases before after found → Marked before → Marked after
  | .last only, marked => marked_of_type only marked
  | .more first isComma next, marked => by
    have rest := (marked_of_type first marked).tail (isFinish_of_isTerminal isComma)
    exact marked_of_types next rest

end

theorem answers_annotatedBlock (depth : Nat) {last : Token} {id : RefId} (marked : Marked tokens) :
    Answers (fun problem => Spent depth tokens 2 problem ∧
        (problem ≠ .nestedTooDeep → ¬Annotated tokens))
      (annotatedBlock depth) last ⟨tokens, id⟩ fun found _ after =>
        ∃ brace rest, after = ⟨rest, id⟩ ∧ TypePhrase tokens (brace :: rest) found ∧
          brace.isTerminal .leftBrace ∧ Marked rest := by
  cases depth with
  | zero => exact .fail ⟨fun _ => by omega, fun other => absurd rfl other⟩
  | succ depth =>
    by_cases annotated : Annotated tokens
    · obtain ⟨brace, rest, found, isType, opens⟩ := annotated
      have left := (marked_of_type isType marked).tail (isFinish_of_isTerminal opens)
      have given := gives_typeName isType (starts_of_isTerminal opens nofun)
        (List.cons_ne_nil _ _) depth id last
      refine .bind ((given.and ((finds_types depth).1 last _ marked)).imp ?_ ?_)
      · rintro problem ⟨deep, spent⟩
        refine ⟨fun deep => ?_, fun other => absurd deep other⟩
        have below := spent deep
        simp only at below
        omega
      · rintro value last _ ⟨⟨rfl, rfl⟩, -⟩
        refine .expect_found opens left.ne_nil ?_
        exact .pure ⟨brace, rest, rfl, isType, opens, left⟩
    · refine .bind (((finds_types depth).1 last _ marked).imp ?_ ?_)
      · intro problem spent
        refine ⟨fun deep => ?_, fun _ => annotated⟩
        have below := spent deep
        simp only at below
        omega
      · rintro value last _ ⟨⟨middle, rfl, isType⟩, marked⟩
        refine .expect marked ?_ ⟨nofun, fun _ => annotated⟩
        rintro brace rest rfl opens marked
        exact .pure ⟨brace, rest, rfl, isType, opens, marked⟩

theorem finds_typeHint (depth : Nat) : Finds depth 1 (typeHint depth) (Uncounted Hint) := by
  rintro last ⟨tokens, id⟩ marked
  refine .accept marked ?_ fun absent => .pure ⟨⟨_, rfl, .none⟩, marked⟩
  rintro colon rest rfl isColon marked
  refine .bind (((finds_types depth).1 _ _ marked).imp ?_ ?_)
  · intro problem spent deep
    have below := spent deep
    simp only [List.length_cons] at below ⊢
    omega
  · rintro found last _ ⟨⟨after, rfl, isType⟩, marked⟩
    exact .pure ⟨⟨_, rfl, .some isColon isType⟩, marked⟩

theorem finds_parameters (depth count : Nat) :
    Finds depth 1 (parameters depth count) (Uncounted fun before after found =>
      Parameters before after found ∧ found.length + count ≤ argumentLimit) := by
  induction depth generalizing count with
  | zero => exact .deep Nat.one_pos
  | succ depth ih =>
    rintro last ⟨tokens, id⟩ marked
    rw [parameters]
    split
    · exact .fail nofun
    next few =>
      refine .identifier marked ?_
      rintro name rest rfl isName marked
      refine (finds_typeHint depth).andThen marked ?_
      rintro hint last _ ⟨middle, rfl, typed⟩ marked
      refine .accept marked ?_ fun absent => .pure ⟨⟨_, rfl, .last isName typed, ?_⟩, marked⟩
      · rintro comma inner rfl isComma marked
        have shorter := typed.left.length_le
        refine (ih (count + 1)).andThen marked ?_
        rintro others last _ ⟨after, rfl, parameters, bounded⟩ marked
        refine .pure ⟨⟨_, rfl, .more isName typed isComma parameters, ?_⟩, marked⟩
        simp only [List.length_cons]
        omega
      · simp only [List.length_singleton]
        omega

theorem finds_memberModifiers (depth : Nat) (access : Option Visibility)
    (dispatch : Option Dispatch) :
    Finds depth 1 (memberModifiers depth access dispatch)
      (Uncounted (Modifiers access dispatch)) := by
  induction depth generalizing access dispatch with
  | zero => exact .deep Nat.one_pos
  | succ depth ih =>
    rintro last ⟨tokens, id⟩ marked
    refine .acceptMap marked ?_ fun _ => .acceptMap marked ?_ fun _ => ?_
    · rintro word rest visibility rfl isWord marked
      cases access with
      | some earlier => exact .previous (.failAt nofun)
      | none =>
        refine (ih (some visibility) dispatch).called marked ?_
        rintro found last _ ⟨after, rfl, modifiers⟩ marked
        exact ⟨⟨_, rfl, .access (meant_accessWords ▸ isWord) modifiers⟩, marked⟩
    · rintro word rest kind rfl isWord marked
      cases dispatch with
      | some earlier => exact .previous (.failAt nofun)
      | none =>
        refine (ih access (some kind)).called marked ?_
        rintro found last _ ⟨after, rfl, modifiers⟩ marked
        exact ⟨⟨_, rfl, .dispatch (meant_dispatchWords ▸ isWord) modifiers⟩, marked⟩
    · exact .pure ⟨⟨_, rfl, .none⟩, marked⟩

private theorem finds_superclassClause (depth : Nat) :
    Finds depth 1 superclassClause Superclass := by
  rintro last ⟨tokens, id⟩ marked
  refine .accept marked ?_ fun absent => .pure ⟨.none, marked⟩
  rintro word rest rfl isWord marked
  refine .identifier marked ?_
  rintro name after rfl isName marked
  exact .freshId (.pure ⟨.some isWord isName, marked⟩)

theorem isFinish_of_literal {token : Token} {value : Literal}
    (isLiteral : Denotes token.kind value) : token.isFinish = false := by
  unfold Token.isFinish
  generalize token.kind = kind at isLiteral
  cases isLiteral <;> rfl

private theorem avoids_extends_operand (call : starts .leftParen tokens = false)
    (property : starts .dot tokens = false) (index : starts .leftBracket tokens = false) :
    Avoids (Extends operandLevel) tokens := by
  refine ((avoids_eq_iff.mpr call).or ((avoids_eq_iff.mpr property).or
    (avoids_eq_iff.mpr index))).mono ?_
  rintro which (isParen | isDot | isBracket | ⟨tighter, loose, tight, -⟩)
  · exact .inl isParen
  · exact .inr (.inl isDot)
  · exact .inr (.inr isBracket)
  · exact absurd loose (Nat.not_lt_of_le tight)

private theorem avoids_extends_level {level : Nat}
    (absent : Avoids (fun which => (operatorAt level which).isSome) tokens)
    (tighter : Avoids (Extends (level + 1)) tokens) : Avoids (Extends level) tokens := by
  refine (absent.or tighter).mono ?_
  rintro which (isParen | isDot | isBracket | ⟨other, loose, tight, known⟩)
  · exact .inr (.inl isParen)
  · exact .inr (.inr (.inl isDot))
  · exact .inr (.inr (.inr (.inl isBracket)))
  · obtain rfl | tight := Nat.eq_or_lt_of_le tight
    · exact .inl (lookup_operatorMarks level which ▸ known)
    · exact .inr (.inr (.inr (.inr ⟨other, loose, tight, known⟩)))

def Compound : Expr → Prop
  | .binary .. | .logical .. | .unary .. => True
  | _ => False

private theorem compound_joined (left : Expr) (position : Position) (right : Expr)
    (operator : Operator) : Compound (joined left position right operator) := by
  cases operator <;> trivial

mutual

private theorem call_of_operand {before after : Feed} {value : Expr} :
    Operand before after value → ¬Compound value → Call before after value
  | .unary _ _, plain => absurd trivial plain
  | .call isValue, _ => isValue

private theorem call_of_operation {level : Nat} {before after : Feed} {value : Expr} :
    Operation level before after value → ¬Compound value → Call before after value
  | .operand isValue, plain => call_of_operand isValue plain
  | .tighter _ isValue, plain => call_of_operation isValue plain
  | .join _ _ _ _, plain => absurd (compound_joined _ _ _ _) plain

end

section Rules

variable {depth : Nat} {id : RefId} {last : Token}

private theorem commas (first : Finds depth 10 (expression depth) fun before after value =>
      Expression before after value ∧ Avoids Continues after.tokens) {others : Parse (List Expr)}
    {rule : Feed → Feed → List Expr → Prop} (finds : Finds depth 11 others rule)
    {gives : List Expr → Token → Feed → Prop} (marked : Marked tokens)
    (only : ∀ value last after, Expression ⟨tokens, id⟩ after value → Marked after.tokens →
      gives [value] last after) (more : ∀ value comma rest id' values last after,
      Expression ⟨tokens, id⟩ ⟨comma :: rest, id'⟩ value → comma.isTerminal .comma →
      rule ⟨rest, id'⟩ after values → Marked after.tokens → gives (value :: values) last after) :
    Answers (Spent (depth + 1) tokens 11) (do
      let first ← expression depth
      if ← accept .comma then
        let rest ← others
        pure (first :: rest)
      else
        pure [first]) last ⟨tokens, id⟩ gives := by
  refine first.andThen marked ?_
  rintro value last ⟨middle, id'⟩ ⟨isValue, -⟩ marked
  refine .accept marked ?_ fun absent => .pure (only value last _ isValue marked)
  rintro comma rest rfl isComma marked
  have shorter := isValue.left.shorter rfl
  refine finds.andThen marked ?_
  intro values last after areValues marked
  exact .pure (more value comma rest id' values last after isValue isComma areValues marked)

private theorem answers_variable {α : Type} {named what : String}
    (initials : Finds depth 1 (initialValue depth) Initial)
    {made : Identifier → Option TypeName → Option Expr → α} (marked : Marked tokens) :
    Answers (Spent (depth + 1) tokens 1) (do
      let name ← identifier named
      let typeHint ← typeHint depth
      let initial ← initialValue depth
      expect .semicolon what
      pure (made name typeHint initial)) last ⟨tokens, id⟩ fun value _ after =>
        (∃ name hint initial, Variable ⟨tokens, id⟩ after name hint initial ∧
          value = made name hint initial) ∧ Marked after.tokens := by
  refine .identifier marked ?_
  rintro name rest rfl isName marked
  refine (finds_typeHint depth).andThen marked ?_
  rintro hint last _ ⟨middle, rfl, typed⟩ marked
  have shorter := typed.left.length_le
  refine initials.andThen marked ?_
  rintro initial last ⟨left, id'⟩ isInitial marked
  refine .expect marked ?_
  rintro mark after rfl isMark marked
  exact .pure ⟨⟨_, _, _, .declared isName typed isInitial isMark, rfl⟩, marked⟩

-- By recursion on the bound, one case for each reader.
mutual

theorem finds_expression (depth : Nat) :
    Finds depth 10 (expression depth) fun before after value =>
      Expression before after value ∧ Avoids Continues after.tokens := by
  match depth with
  | 0 => exact .deep (by omega)
  | depth + 1 =>
  rintro last ⟨tokens, number⟩ marked
  refine (finds_operation depth 0 (Nat.zero_le _)).andThen marked ?_
  rintro target last ⟨middle, id'⟩ ⟨isTarget, settled⟩ marked
  refine .acceptMap marked ?_ ?_
  · rintro mark rest abbreviated rfl isMark marked
    have shorter := isTarget.left.shorter rfl
    rw [← meant_assignmentMarks] at isMark
    refine .previous ?_
    refine (finds_expression depth).andThen marked ?_
    rintro right last ⟨after, id''⟩ ⟨isRight, ended⟩ final
    -- The tree of the target tells how its phrase ends, since only accesses make such trees.
    cases target with
    | reference first name =>
      cases call_of_operation isTarget id with
      | primary isPrimary =>
        cases isPrimary with
        | reference isName =>
          refine .freshId (.pure ⟨⟨?_, ended⟩, final⟩)
          exact .assign isName isMark isRight
    | property object name =>
      cases call_of_operation isTarget id with
      | primary isPrimary => cases isPrimary
      | property isObject isDot isName =>
        exact .pure ⟨⟨.setProperty isObject isDot isName isMark isRight, ended⟩, final⟩
    | index object key position =>
      cases call_of_operation isTarget id with
      | primary isPrimary => cases isPrimary
      | index isObject opens isKey closes =>
        exact .pure ⟨⟨.setIndex isObject opens isKey closes isMark isRight, ended⟩, final⟩
    | _ => exact .failAt nofun
  · intro absent
    simp only [← lookup_assignmentMarks] at absent
    exact .pure ⟨⟨.operation isTarget, settled.or absent⟩, marked⟩

theorem finds_operation (depth level : Nat) (inRange : level ≤ operandLevel) :
    Finds depth (9 - level) (operation depth level) fun before after value =>
      Operation level before after value ∧ Avoids (Extends level) after.tokens := by
  match depth with
  | 0 => exact .deep (by unfold operandLevel at inRange; omega)
  | depth + 1 =>
  have top : operandLevel = 6 := rfl
  rintro last ⟨tokens, id⟩ marked
  rw [operation]
  split
  next tight =>
    obtain rfl := Nat.le_antisymm inRange tight
    refine (finds_operand depth).called marked ?_
    rintro value last after ⟨isValue, settled⟩ marked
    exact ⟨⟨.operand isValue, settled⟩, marked⟩
  next loose =>
    have loose := Nat.lt_of_not_le loose
    refine (finds_operation depth (level + 1) loose).andThen marked ?_
    rintro left last ⟨middle, id'⟩ ⟨isLeft, settled⟩ marked
    have shorter := isLeft.left.shorter rfl
    refine (finds_operationRest depth level left loose).called marked ?_
    intro value last after found marked
    exact ⟨found _ (.tighter loose isLeft) settled, marked⟩

private theorem finds_operationRest (depth level : Nat) (left : Expr)
    (loose : level < operandLevel) :
    Finds depth 1 (operationRest depth level left) fun before after value =>
      ∀ origin, Operation level origin before left →
        Avoids (Extends (level + 1)) before.tokens →
        Operation level origin after value ∧ Avoids (Extends level) after.tokens := by
  match depth with
  | 0 => exact .deep Nat.one_pos
  | depth + 1 =>
  rintro last ⟨tokens, id⟩ marked
  refine .acceptMap marked ?_ ?_
  · rintro mark rest operator rfl isOperator marked
    refine .previous ?_
    refine (finds_operation depth (level + 1) loose).andThen marked ?_
    rintro right last ⟨middle, id'⟩ ⟨isRight, settled⟩ marked
    have shorter := isRight.left.shorter rfl
    refine (finds_operationRest depth level _ loose).called marked ?_
    intro value last after found marked
    refine ⟨fun origin isLeft _ => ?_, marked⟩
    exact found origin (.join loose isLeft (meant_operatorMarks level ▸ isOperator) isRight) settled
  · intro absent
    exact .pure ⟨fun origin isLeft settled => ⟨isLeft, avoids_extends_level absent settled⟩, marked⟩

theorem finds_operand (depth : Nat) :
    Finds depth 2 (operand depth) fun before after value =>
      Operand before after value ∧ Avoids (Extends operandLevel) after.tokens := by
  match depth with
  | 0 => exact .deep Nat.two_pos
  | depth + 1 =>
  rintro last ⟨tokens, id⟩ marked
  refine .acceptMap marked ?_ ?_
  · rintro mark rest operator rfl isOperator marked
    refine .previous ?_
    refine (finds_operand depth).andThen marked ?_
    rintro inner last after ⟨isOperand, settled⟩ marked
    exact .pure ⟨⟨.unary (meant_unaryMarks ▸ isOperator) isOperand, settled⟩, marked⟩
  · intro absent
    refine (finds_primary depth).andThen marked ?_
    rintro first last ⟨middle, id'⟩ isFirst marked
    have shorter := isFirst.left.shorter rfl
    refine (finds_accesses depth first).called marked ?_
    rintro value last after ⟨found, settled⟩ marked
    exact ⟨⟨.call (found _ (.primary isFirst)), settled⟩, marked⟩

private theorem finds_accesses (depth : Nat) (object : Expr) :
    Finds depth 1 (accesses depth object) fun before after value =>
      (∀ origin, Call origin before object → Call origin after value) ∧
        Avoids (Extends operandLevel) after.tokens := by
  match depth with
  | 0 => exact .deep Nat.one_pos
  | depth + 1 =>
  rintro last ⟨tokens, number⟩ marked
  refine .accept marked ?_ fun noCall => ?_
  · rintro opening inner rfl opens marked
    -- Both ways of reading arguments go on with the closing parenthesis and the next access.
    have closed (values : List Expr) (last : Token) (middle : List Token) (id' : RefId)
        (shorter : middle.length ≤ inner.length) (marked : Marked middle)
        (derives : ∀ closing rest origin, middle = closing :: rest →
          closing.isTerminal .rightParen → Call origin ⟨opening :: inner, number⟩ object →
          Call origin ⟨rest, id'⟩ (.call object opening.position values)) :
        Answers (Spent (depth + 1) (opening :: inner) 1) (do
          expect .rightParen "')' after arguments"
          accesses depth (.call object opening.position values)) last ⟨middle, id'⟩
          fun value _ after =>
            ((∀ origin, Call origin ⟨opening :: inner, number⟩ object → Call origin after value) ∧
              Avoids (Extends operandLevel) after.tokens) ∧ Marked after.tokens := by
      refine .expect marked ?_
      rintro closing rest rfl closes marked
      refine (finds_accesses depth _).called marked ?_
      rintro value last after ⟨found, settled⟩ marked
      refine ⟨⟨fun origin isObject => ?_, settled⟩, marked⟩
      exact found origin (derives _ _ origin rfl closes isObject)
    refine .previous (.ifChecks (fun _ => ?_) fun _ => ?_)
    · refine .bind (.pure (closed [] _ inner number (Nat.le_refl _) marked ?_))
      rintro closing rest origin rfl closes isObject
      exact .call isObject opens closes
    · refine (finds_arguments depth 0).andThen marked ?_
      rintro values last ⟨middle, id'⟩ ⟨areValues, few⟩ marked
      refine closed values last middle id' areValues.left.1.length_le marked ?_
      rintro closing rest origin rfl closes isObject
      exact .callWith isObject opens areValues few closes
  refine .accept marked ?_ fun noProperty => ?_
  · rintro dot rest rfl isDot marked
    refine .identifier marked ?_
    rintro name after rfl isName marked
    refine (finds_accesses depth _).called marked ?_
    rintro value last after ⟨found, settled⟩ marked
    refine ⟨⟨fun origin isObject => ?_, settled⟩, marked⟩
    exact found origin (.property isObject isDot isName)
  refine .accept marked ?_ fun noIndex => ?_
  · rintro opening inner rfl opens marked
    refine .previous ?_
    refine (finds_expression depth).andThen marked ?_
    rintro key last ⟨middle, id'⟩ ⟨isKey, -⟩ marked
    have shorter := isKey.left.shorter rfl
    refine .expect marked ?_
    rintro closing rest rfl closes marked
    refine (finds_accesses depth _).called marked ?_
    rintro value last after ⟨found, settled⟩ marked
    refine ⟨⟨fun origin isObject => ?_, settled⟩, marked⟩
    exact found origin (.index isObject opens isKey closes)
  · exact .pure ⟨⟨fun origin => id, avoids_extends_operand noCall noProperty noIndex⟩, marked⟩

theorem finds_arguments (depth count : Nat) :
    Finds depth 11 (arguments depth count) fun before after values =>
      Commas before after values ∧ values.length + count ≤ argumentLimit := by
  match depth with
  | 0 => exact .deep (by omega)
  | depth + 1 =>
  rintro last ⟨tokens, id⟩ marked
  rw [arguments]
  split
  · exact .fail nofun
  next few =>
    refine commas (finds_expression depth) (finds_arguments depth (count + 1)) marked ?_ ?_
    · intro value last after isValue marked
      refine ⟨⟨.last isValue, ?_⟩, marked⟩
      simp only [List.length_singleton]
      omega
    · rintro value comma rest id' values last after isValue isComma ⟨areValues, bounded⟩ marked
      refine ⟨⟨.more isValue isComma areValues, ?_⟩, marked⟩
      simp only [List.length_cons]
      omega

private theorem finds_elements (depth : Nat) : Finds depth 11 (elements depth) Elements := by
  match depth with
  | 0 => exact .deep (by omega)
  | depth + 1 =>
  rintro last ⟨tokens, id⟩ marked
  refine .ifChecks (fun _ => .pure ⟨.none, marked⟩) fun _ => ?_
  refine commas (finds_expression depth) (finds_elements depth) marked ?_ ?_
  · intro value last after isValue marked
    exact ⟨.last isValue, marked⟩
  · intro value comma rest id' values last after isValue isComma areValues marked
    exact ⟨.more isValue isComma areValues, marked⟩

theorem finds_printed (depth : Nat) : Finds depth 11 (printed depth) Commas := by
  match depth with
  | 0 => exact .deep (by omega)
  | depth + 1 =>
  rintro last ⟨tokens, id⟩ marked
  refine commas (finds_expression depth) (finds_printed depth) marked ?_ ?_
  · intro value last after isValue marked
    exact ⟨.last isValue, marked⟩
  · intro value comma rest id' values last after isValue isComma areValues marked
    exact ⟨.more isValue isComma areValues, marked⟩

private theorem finds_entries (depth : Nat) : Finds depth 11 (entries depth) Entries := by
  match depth with
  | 0 => exact .deep (by omega)
  | depth + 1 =>
  rintro last ⟨tokens, id⟩ marked
  refine .ifChecks (fun _ => .pure ⟨.none, marked⟩) fun _ => ?_
  refine (finds_expression depth).andThen marked ?_
  rintro key last ⟨middle, id'⟩ ⟨isKey, -⟩ marked
  refine .expect marked ?_
  rintro colon rest rfl isColon marked
  have shorter := isKey.left.shorter rfl
  refine (finds_expression depth).andThen marked ?_
  rintro value last ⟨middle, id''⟩ ⟨isValue, -⟩ marked
  refine .accept marked ?_ fun absent => .pure ⟨.last isKey isColon isValue, marked⟩
  rintro comma rest' rfl isComma marked
  have shorter' := isValue.left.shorter rfl
  refine (finds_entries depth).andThen marked ?_
  rintro others last after arePairs marked
  exact .pure ⟨.more isKey isColon isValue isComma arePairs, marked⟩

theorem finds_primary (depth : Nat) : Finds depth 1 (primary depth) Primary := by
  match depth with
  | 0 => exact .deep Nat.one_pos
  | depth + 1 =>
  rintro last ⟨tokens, id⟩ marked
  refine .current ?_
  rintro first rest rfl
  cases isLiteral : literal? first with
  | some value =>
    have isLiteral := literal?_eq_some_iff.mp isLiteral
    have plain := isFinish_of_literal isLiteral
    have left := marked.tail plain
    exact .advance plain left.ne_nil (.pure ⟨.literal isLiteral, left⟩)
  | none =>
    dsimp only
    split
    next isName =>
      have left := marked.tail (isFinish_of_isIdentifier isName)
      refine .identifier_found isName left.ne_nil ?_
      exact .freshId (.pure ⟨.reference isName, left⟩)
    refine .accept marked ?_ fun _ => ?_
    · rintro word after same isWord marked
      cases same
      exact .freshId (.pure ⟨.this isWord, marked⟩)
    refine .accept marked ?_ fun _ => ?_
    · rintro word inner same isWord marked
      cases same
      refine .expect marked ?_
      rintro dot rest rfl isDot marked
      refine .identifier marked ?_
      rintro name after rfl isName marked
      exact .freshId (.pure ⟨.super isWord isDot isName, marked⟩)
    refine .accept marked ?_ fun _ => ?_
    · rintro opening inner same opens marked
      cases same
      refine (finds_expression depth).andThen marked ?_
      rintro value last ⟨middle, id'⟩ ⟨isValue, -⟩ marked
      refine .expect marked ?_
      rintro closing after rfl closes marked
      exact .pure ⟨.group opens isValue closes, marked⟩
    refine .accept marked ?_ fun _ => ?_
    · rintro opening inner same opens marked
      cases same
      refine (finds_elements depth).andThen marked ?_
      rintro values last ⟨middle, id'⟩ areValues marked
      refine .expect marked ?_
      rintro closing after rfl closes marked
      exact .pure ⟨.array opens areValues closes, marked⟩
    refine .accept marked ?_ fun _ => ?_
    · rintro opening inner same opens marked
      cases same
      refine (finds_entries depth).andThen marked ?_
      rintro pairs last ⟨middle, id'⟩ arePairs marked
      refine .expect marked ?_
      rintro closing after rfl closes marked
      exact .pure ⟨.map opens arePairs closes, marked⟩
    refine .accept marked ?_ fun _ => .fail nofun
    rintro word rest same isWord marked
    cases same
    refine .expect marked ?_
    rintro opening inner rfl opens marked
    refine (finds_functionRest depth _).andThen marked ?_
    intro decl last after isRest marked
    exact .pure ⟨.lambda isWord opens isRest, marked⟩

theorem finds_functionRest (depth : Nat) (name : Identifier) :
    Finds depth 2 (functionRest depth name) (FunctionRest name) := by
  match depth with
  | 0 => exact .deep Nat.two_pos
  | depth + 1 =>
  rintro last ⟨tokens, id⟩ marked
  have bodied (parameters : List Parameter) (last : Token) (middle : List Token)
      (shorter : middle.length ≤ tokens.length) (marked : Marked middle)
      (declared : ParameterList tokens middle parameters) :
      Answers (Spent (depth + 1) tokens 2) (do
        expect .rightParen "')' after parameters"
        let found ← functionBody depth
        pure ({ name, parameters, returns := found.1, body := found.2 } : FunctionDecl Stmt))
        last ⟨middle, id⟩
        fun decl _ after => FunctionRest name ⟨tokens, id⟩ after decl ∧ Marked after.tokens := by
    refine .expect marked ?_
    rintro closing rest rfl closes marked
    refine (finds_functionBody depth).andThen marked ?_
    rintro ⟨returns, body⟩ last after isBody marked
    exact .pure ⟨.rest declared closes isBody, marked⟩
  refine .ifChecks (fun _ => ?_) fun _ => ?_
  · exact .bind (.pure (bodied [] _ tokens (Nat.le_refl _) marked .none))
  · refine (finds_parameters depth 0).andThen marked ?_
    rintro parameters last _ ⟨middle, rfl, found, few⟩ marked
    exact bodied parameters last middle found.left.1.length_le marked (.some found few)

theorem finds_functionBody (depth : Nat) : Finds depth 1 (functionBody depth) FunctionBody := by
  match depth with
  | 0 => exact .deep Nat.one_pos
  | depth + 1 =>
  rintro last ⟨tokens, id⟩ marked
  refine .accept marked ?_ fun _ => ?_
  · rintro arrow rest rfl isArrow marked
    refine .previous (.bind (.attempt ((answers_annotatedBlock depth marked).imp ?_ ?_)))
    -- Without a type and a block, the tokens after the arrow are read again as an expression.
    · rintro problem ⟨spent, plain⟩
      refine ⟨fun deep _ => ?_, fun other => ?_⟩
      · have below := spent deep
        simp only [List.length_cons]
        omega
      · refine (finds_expression depth).andThen marked ?_
        rintro value last ⟨middle, id'⟩ ⟨isValue, ended⟩ marked
        refine .accept marked ?_ fun absent => ?_
        · rintro mark after rfl isMark marked
          exact .pure ⟨.terminated isArrow (plain other) isValue isMark, marked⟩
        · have whole := ended.or (avoids_eq_iff.mpr absent)
          exact .pure ⟨.expression isArrow (plain other) isValue whole, marked⟩
    · rintro returns last _ ⟨brace, inner, rfl, isType, opens, marked⟩
      have shorter := isType.left.shorter rfl
      refine (finds_block depth).andThen marked ?_
      intro body last after isBody marked
      exact .pure ⟨.annotated isArrow isType opens isBody, marked⟩
  · refine .expect marked ?_
    rintro opening rest rfl opens marked
    refine (finds_block depth).andThen marked ?_
    intro body last after isBody marked
    exact .pure ⟨.block opens isBody, marked⟩

theorem finds_namedFunction (depth : Nat) (kind : String) :
    Finds depth 1 (namedFunction depth kind) fun before after decl =>
      ∃ name opening rest, before.tokens = name :: opening :: rest ∧ name.isIdentifier ∧
        opening.isTerminal .leftParen ∧
        FunctionRest (named name) ⟨rest, before.nextId⟩ after decl := by
  match depth with
  | 0 => exact .deep Nat.one_pos
  | depth + 1 =>
  rintro last ⟨tokens, id⟩ marked
  refine .identifier marked ?_
  rintro name rest rfl isName marked
  refine .expect marked ?_
  rintro opening inner rfl opens marked
  refine (finds_functionRest depth _).called marked ?_
  intro decl last after isRest marked
  exact ⟨⟨name, opening, inner, rfl, isName, opens, isRest⟩, marked⟩

theorem finds_block (depth : Nat) : Finds depth 14 (block depth) Block := by
  match depth with
  | 0 => exact .deep (by omega)
  | depth + 1 =>
  rintro last ⟨tokens, id⟩ marked
  refine .check (.atEnd ?_)
  split
  · refine .expect marked ?_
    rintro closing after rfl closes marked
    exact .pure ⟨.none closes, marked⟩
  · refine (finds_declaration depth).andThen marked ?_
    rintro first last middle isFirst marked
    have shorter := isFirst.left.shorter rfl
    refine (finds_block depth).andThen marked ?_
    intro rest last after isBody marked
    exact .pure ⟨.more isFirst isBody, marked⟩

theorem finds_declaration (depth : Nat) : Finds depth 13 (declaration depth) Declaration := by
  match depth with
  | 0 => exact .deep (by omega)
  | depth + 1 =>
  rintro last ⟨tokens, id⟩ marked
  refine .accept marked ?_ fun _ => .check (.checkNextIdentifier ?_)
  · rintro word rest rfl isWord marked
    refine (finds_classDeclaration depth).called marked ?_
    intro stmt last after found marked
    exact ⟨found.1 word isWord, marked⟩
  split
  next isFunction =>
    simp only [Bool.and_eq_true] at isFunction
    cases tokens with
    | nil => simp [starts] at isFunction
    | cons word rest =>
      have plain := isFinish_of_isTerminal isFunction.1
      have left := marked.tail plain
      refine .advance plain left.ne_nil ?_
      refine (finds_namedFunction depth "function").andThen left ?_
      rintro decl last after ⟨name, opening, inner, rfl, isName, opens, isRest⟩ marked
      exact .pure ⟨.function isFunction.1 isName opens isRest, marked⟩
  refine .accept marked ?_ fun _ => ?_
  · rintro word rest rfl isWord marked
    refine (finds_varDeclaration depth).called marked ?_
    rintro _ last after ⟨name, hint, initial, declared, rfl⟩ marked
    exact ⟨.var isWord declared, marked⟩
  · refine (finds_statement depth).called marked ?_
    intro stmt last after isStmt marked
    exact ⟨.statement isStmt, marked⟩

theorem finds_varDeclaration (depth : Nat) :
    Finds depth 1 (varDeclaration depth) fun before after stmt =>
      ∃ name hint initial, Variable before after name hint initial ∧
        stmt = .var name hint initial := by
  match depth with
  | 0 => exact .deep Nat.one_pos
  | depth + 1 =>
  rintro last ⟨tokens, id⟩ marked
  exact answers_variable (finds_initialValue depth) marked

theorem finds_field (depth : Nat) (visibility : Visibility) :
    Finds depth 1 (field depth visibility) fun before after decl =>
      ∃ name hint initial, Variable before after name hint initial ∧
        decl = { name, visibility, typeHint := hint, initial } := by
  match depth with
  | 0 => exact .deep Nat.one_pos
  | depth + 1 =>
  rintro last ⟨tokens, id⟩ marked
  exact answers_variable (finds_initialValue depth) marked

private theorem finds_initialValue (depth : Nat) : Finds depth 1 (initialValue depth) Initial := by
  match depth with
  | 0 => exact .deep Nat.one_pos
  | depth + 1 =>
  rintro last ⟨tokens, id⟩ marked
  refine .accept marked ?_ fun _ => .pure ⟨.none, marked⟩
  rintro equals rest rfl isEquals marked
  refine (finds_expression depth).andThen marked ?_
  rintro value last after ⟨isValue, -⟩ marked
  exact .pure ⟨.some isEquals isValue, marked⟩

theorem finds_classDeclaration (depth : Nat) :
    Finds depth 1 (classDeclaration depth) fun before after stmt =>
      (∀ word : Token, word.isTerminal .classWord →
        Declaration ⟨word :: before.tokens, before.nextId⟩ after stmt) ∧
      Left true before.tokens after.tokens := by
  match depth with
  | 0 => exact .deep Nat.one_pos
  | depth + 1 =>
  rintro last ⟨tokens, id⟩ marked
  refine .identifier marked ?_
  rintro name rest rfl isName marked
  refine (finds_superclassClause depth).andThen marked ?_
  rintro superclass last ⟨middle, id'⟩ clause marked
  refine .expect marked ?_
  rintro opening inner rfl opens marked
  have shorter := clause.left.length_le
  refine (finds_members depth).andThen marked ?_
  intro members last after isBody marked
  exact .pure ⟨⟨fun word isWord => .classDecl isWord isName clause opens isBody,
    (Left.identifier isName).trans <| clause.left.trans <|
      (Left.terminal opens (by decide)).trans isBody.left⟩, marked⟩

theorem finds_members (depth : Nat) : Finds depth 2 (members depth) MemberList := by
  match depth with
  | 0 => exact .deep Nat.two_pos
  | depth + 1 =>
  rintro last ⟨tokens, id⟩ marked
  refine .check (.atEnd ?_)
  split
  · refine .expect marked ?_
    rintro closing after rfl closes marked
    exact .pure ⟨.none closes, marked⟩
  refine (finds_memberModifiers depth none none).andThen marked ?_
  rintro ⟨visibility, dispatch⟩ last _ ⟨middle, rfl, modifiers⟩ marked
  have shorter := modifiers.left.length_le
  refine .accept marked ?_ fun _ => .accept marked ?_ fun _ => .fail nofun
  · rintro word rest rfl isWord marked
    rw [if_pos rfl]
    split
    · exact .previous (.failAt nofun)
    next isPlain =>
      obtain rfl := Decidable.not_not.mp isPlain
      refine (finds_field depth visibility).andThen marked ?_
      rintro _ last ⟨middle, id'⟩ ⟨name, hint, initial, declared, rfl⟩ marked
      have shorter' := declared.left.shorter rfl
      refine (finds_members depth).andThen marked ?_
      intro others last after isRest marked
      exact .pure ⟨.field modifiers isWord declared isRest, marked⟩
  · rintro word rest rfl isWord marked
    refine (finds_namedFunction depth "method").andThen marked ?_
    rintro function last ⟨middle, id'⟩ ⟨name, opening, inner, rfl, isName, opens, isRest⟩ marked
    have shorter' := isRest.left.shorter rfl
    refine (finds_members depth).andThen marked ?_
    intro others last after areOthers marked
    exact .pure ⟨.method modifiers isWord isName opens isRest areOthers, marked⟩

theorem finds_statement (depth : Nat) : Finds depth 12 (statement depth) Statement := by
  match depth with
  | 0 => exact .deep (by omega)
  | depth + 1 =>
  rintro last ⟨tokens, id⟩ marked
  refine .accept marked ?_ fun _ => ?_
  · rintro word rest rfl isWord marked
    refine (finds_countedLoop depth).called marked ?_
    intro stmt last after found marked
    exact ⟨found.1 word isWord, marked⟩
  refine .accept marked ?_ fun _ => ?_
  · rintro word rest rfl isWord marked
    refine (finds_branch depth).called marked ?_
    intro stmt last after found marked
    exact ⟨found.1 word isWord, marked⟩
  refine .accept marked ?_ fun _ => ?_
  · rintro word rest rfl isWord marked
    refine .expect marked ?_
    rintro opening inner rfl opens marked
    refine (finds_expression depth).andThen marked ?_
    rintro condition last ⟨middle, id'⟩ ⟨isCondition, -⟩ marked
    refine .expect marked ?_
    rintro closing left rfl closes marked
    have shorter := isCondition.left.shorter rfl
    refine (finds_statement depth).andThen marked ?_
    intro body last after isBody marked
    exact .pure ⟨.loop isWord opens isCondition closes isBody, marked⟩
  refine .accept marked ?_ fun _ => ?_
  · rintro word rest rfl isWord marked
    refine .previous ?_
    refine (finds_optionalExpression depth _).andThen marked ?_
    rintro value last ⟨middle, id'⟩ isValue marked
    refine .expect marked ?_
    rintro mark after rfl isMark marked
    exact .pure ⟨.returnValue isWord isValue isMark, marked⟩
  refine .accept marked ?_ fun _ => ?_
  · rintro word rest rfl isWord marked
    refine .previous (.expect marked ?_)
    rintro mark after rfl isMark marked
    exact .pure ⟨.breakLoop isWord isMark, marked⟩
  refine .accept marked ?_ fun _ => ?_
  · rintro word rest rfl isWord marked
    refine .previous (.expect marked ?_)
    rintro mark after rfl isMark marked
    exact .pure ⟨.continueLoop isWord isMark, marked⟩
  refine .accept marked ?_ fun noBlock => ?_
  · rintro opening rest rfl opens marked
    refine (finds_block depth).andThen marked ?_
    intro body last after isBody marked
    exact .pure ⟨.block opens isBody, marked⟩
  refine .accept marked ?_ fun _ => ?_
  · rintro word rest rfl isWord marked
    refine .previous ?_
    refine (finds_printed depth).andThen marked ?_
    rintro values last ⟨middle, id'⟩ areValues marked
    refine .expect marked ?_
    rintro mark after rfl isMark marked
    exact .pure ⟨.print isWord areValues isMark, marked⟩
  refine (finds_expressionStatement depth).called marked ?_
  rintro _ last after ⟨value, mark, isValue, isMark, rfl⟩ marked
  exact ⟨.expression noBlock isValue isMark, marked⟩

private theorem finds_optionalExpression (depth : Nat) (mark : Terminal) :
    Finds depth 11 (optionalExpression depth mark) Optional := by
  match depth with
  | 0 => exact .deep (by omega)
  | depth + 1 =>
  rintro last ⟨tokens, id⟩ marked
  refine .ifChecks (fun _ => .pure ⟨.none, marked⟩) fun _ => ?_
  refine (finds_expression depth).andThen marked ?_
  rintro value last after ⟨isValue, -⟩ marked
  exact .pure ⟨.some isValue, marked⟩

theorem finds_expressionStatement (depth : Nat) :
    Finds depth 11 (expressionStatement depth) fun before after stmt =>
      ∃ value mark, Expression before ⟨mark :: after.tokens, after.nextId⟩ value ∧
        mark.isTerminal .semicolon ∧ stmt = .expression value := by
  match depth with
  | 0 => exact .deep (by omega)
  | depth + 1 =>
  rintro last ⟨tokens, id⟩ marked
  refine (finds_expression depth).andThen marked ?_
  rintro value last ⟨middle, id'⟩ ⟨isValue, -⟩ marked
  refine .expect marked ?_
  rintro mark after rfl isMark marked
  exact .pure ⟨⟨value, mark, isValue, isMark, rfl⟩, marked⟩

theorem finds_countedLoop (depth : Nat) :
    Finds depth 1 (countedLoop depth) fun before after stmt =>
      (∀ word : Token, word.isTerminal .forWord →
        Statement ⟨word :: before.tokens, before.nextId⟩ after stmt) ∧
      Left true before.tokens after.tokens := by
  match depth with
  | 0 => exact .deep Nat.one_pos
  | depth + 1 =>
  rintro last ⟨tokens, id⟩ marked
  refine .expect marked ?_
  rintro opening rest rfl opens marked
  refine (finds_loopInitial depth).andThen marked ?_
  rintro initial last ⟨conditions, id'⟩ isInitial marked
  have shorter := isInitial.left.shorter rfl
  refine (finds_optionalExpression depth _).andThen marked ?_
  rintro condition last ⟨middle, id''⟩ isCondition marked
  refine .expect marked ?_
  rintro semicolon increments rfl isMark marked
  have shorter' := isCondition.left.length_le
  refine (finds_optionalExpression depth _).andThen marked ?_
  rintro increment last ⟨middle, number⟩ isIncrement marked
  refine .expect marked ?_
  rintro closing body rfl closes marked
  have shorter'' := isIncrement.left.length_le
  refine (finds_statement depth).andThen marked ?_
  intro stmt last after isBody marked
  refine .pure ⟨⟨fun word isWord => ?_, (Left.terminal opens (by decide)).trans <|
    isInitial.left.trans <| isCondition.left.trans <| (Left.terminal isMark (by decide)).trans <|
      isIncrement.left.trans <| (Left.terminal closes (by decide)).trans isBody.left⟩, marked⟩
  exact .countedLoop isWord opens isInitial isCondition isMark isIncrement closes isBody

theorem finds_loopInitial (depth : Nat) : Finds depth 12 (loopInitial depth) LoopInitial := by
  match depth with
  | 0 => exact .deep (by omega)
  | depth + 1 =>
  rintro last ⟨tokens, id⟩ marked
  refine .accept marked ?_ fun _ => .accept marked ?_ fun _ => ?_
  · rintro mark after rfl isMark marked
    exact .pure ⟨.none isMark, marked⟩
  · rintro word rest rfl isWord marked
    refine (finds_varDeclaration depth).andThen marked ?_
    rintro _ last after ⟨name, hint, initial, declared, rfl⟩ marked
    exact .pure ⟨.var isWord declared, marked⟩
  · refine (finds_expressionStatement depth).andThen marked ?_
    rintro _ last after ⟨value, mark, isValue, isMark, rfl⟩ marked
    exact .pure ⟨.expression isValue isMark, marked⟩

theorem finds_branch (depth : Nat) :
    Finds depth 1 (branch depth) fun before after stmt =>
      (∀ word : Token, word.isTerminal .ifWord →
        Statement ⟨word :: before.tokens, before.nextId⟩ after stmt) ∧
      Left true before.tokens after.tokens := by
  match depth with
  | 0 => exact .deep Nat.one_pos
  | depth + 1 =>
  rintro last ⟨tokens, id⟩ marked
  refine .expect marked ?_
  rintro opening rest rfl opens marked
  refine (finds_expression depth).andThen marked ?_
  rintro condition last ⟨middle, id'⟩ ⟨isCondition, -⟩ marked
  refine .expect marked ?_
  rintro closing body rfl closes marked
  have shorter := isCondition.left.shorter rfl
  refine (finds_statement depth).andThen marked ?_
  rintro whenTrue last ⟨middle, id''⟩ isTrue marked
  have left := (Left.terminal opens (by decide)).trans <| isCondition.left.trans <|
    (Left.terminal closes (by decide)).trans isTrue.left
  refine .accept marked ?_ fun alone => ?_
  · rintro alternative other rfl isElse marked
    have shorter' := isTrue.left.shorter rfl
    refine (finds_statement depth).andThen marked ?_
    intro whenFalse last after isFalse marked
    refine .pure ⟨⟨fun word isWord => ?_, left.trans <|
      (Left.terminal isElse (by decide)).trans isFalse.left⟩, marked⟩
    exact .branches isWord opens isCondition closes isTrue isElse isFalse
  · refine .pure ⟨⟨fun word isWord => ?_, left⟩, marked⟩
    exact .branch isWord opens isCondition closes isTrue alone

end

end Rules

theorem finds_declarations (depth : Nat) :
    Finds depth 14 (declarations depth) fun before after program =>
      Declarations before after program ∧ ended after.tokens := by
  induction depth with
  | zero => exact .deep (by omega)
  | succ depth ih =>
    rintro last ⟨tokens, id⟩ marked
    refine .atEnd ?_
    split
    next atEnd => exact .pure ⟨⟨.none atEnd, atEnd⟩, marked⟩
    · refine (finds_declaration depth).andThen marked ?_
      rintro first last middle isFirst marked
      have shorter := isFirst.left.shorter rfl
      refine ih.andThen marked ?_
      rintro rest last after ⟨areRest, atEnd⟩ marked
      exact .pure ⟨⟨.more isFirst areRest, atEnd⟩, marked⟩

end ClassScript.Grammar
