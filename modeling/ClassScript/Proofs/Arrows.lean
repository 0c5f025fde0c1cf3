import ClassScript.Proofs.ReaderRules

/-!
Phrases take tokens off the front. Each arrow among these is followed, within the phrase, by a type
and a block or by an expression that takes its semicolon.
-/

set_option autoImplicit false

namespace ClassScript.Phrase

open Grammar Parse

/-- An arrow before some tokens has its whole body before others. -/
def Bodied (rest after : List Token) : Prop :=
  Annotated rest ∨ ∃ id stop value, Expression ⟨rest, id⟩ stop value ∧
    (Avoids (fun which => Continues which ∨ which = .semicolon) stop.tokens ∧
        after <:+ stop.tokens ∨
      ∃ mark left, stop.tokens = mark :: left ∧ mark.isTerminal .semicolon = true ∧ after <:+ left)

variable {after before : List Token}

theorem Bodied.mono {rest middle : List Token} (bodied : Bodied rest middle)
    (left : after <:+ middle) : Bodied rest after := by
  obtain annotated | ⟨id, stop, value, isValue, ⟨whole, within⟩ | ⟨mark, rest', split, isMark,
    within⟩⟩ := bodied
  · exact .inl annotated
  · exact .inr ⟨id, stop, value, isValue, .inl ⟨whole, left.trans within⟩⟩
  · exact .inr ⟨id, stop, value, isValue, .inr ⟨mark, rest', split, isMark, left.trans within⟩⟩

/-- Some tokens are left of others, fewer ones if that is said, and the arrows among those taken off
have their bodies there. -/
structure Left (fewer : Bool) (before after : List Token) : Prop where
  suffix : after <:+ before
  shorter : fewer = true → after.length < before.length
  bodied : ∀ arrow rest, arrow.isTerminal .arrow = true → arrow :: rest <:+ before →
    after.length ≤ rest.length → Bodied rest after

namespace Left

variable {before middle after rest : List Token} {token : Token} {which : Terminal}
  {fewer fewer' : Bool}

theorem refl : Left false before before where
  suffix := List.suffix_refl _
  shorter := nofun
  bodied := fun arrow rest _ within long => by
    have short := within.length_le
    simp only [List.length_cons] at short
    omega

theorem weaken (left : Left fewer before after) : Left false before after :=
  ⟨left.suffix, nofun, left.bodied⟩

theorem trans (first : Left fewer before middle) (second : Left fewer' middle after) :
    Left (fewer || fewer') before after where
  suffix := second.suffix.trans first.suffix
  shorter := fun either => by
    have long := first.suffix.length_le
    have long' := second.suffix.length_le
    rcases Bool.or_eq_true_iff.mp either with first' | second'
    · have := first.shorter first'
      omega
    · have := second.shorter second'
      omega
  bodied := fun arrow rest isArrow within long => by
    -- Both the arrow and the middle are places in the same tokens; the arrow is before or after it.
    by_cases inFirst : middle.length ≤ rest.length
    · exact (first.bodied arrow rest isArrow within inFirst).mono second.suffix
    · have inSecond : arrow :: rest <:+ middle :=
        List.suffix_of_suffix_length_le within first.suffix (by simp only [List.length_cons]; omega)
      exact second.bodied arrow rest isArrow inSecond long

theorem pass (plain : token.isTerminal .arrow = false) : Left true (token :: rest) rest where
  suffix := List.suffix_cons _ _
  shorter := fun _ => Nat.lt_succ_self _
  bodied := fun arrow rest' isArrow within long => by
    obtain same | within := List.suffix_cons_iff.mp within
    · obtain ⟨rfl, _⟩ := List.cons.inj same
      simp [isArrow] at plain
    · have short := within.length_le
      simp only [List.length_cons] at short
      omega

theorem terminal (isWhich : token.isTerminal which) (apart : which ≠ .arrow) :
    Left true (token :: rest) rest := by
  have absent : starts .arrow (token :: rest) = false := starts_of_isTerminal isWhich apart
  exact .pass absent

theorem identifier (isName : token.isIdentifier) : Left true (token :: rest) rest := by
  refine .pass ?_
  unfold Token.isIdentifier at isName
  split at isName <;> simp_all [Token.isTerminal]

theorem meant {α : Type} {table : List (Terminal × α)} {value : α}
    (isMark : Phrase.meant table token = some value) (unknown : table.lookup .arrow = none) :
    Left true (token :: rest) rest := by
  obtain ⟨which, isWhich, known⟩ := mapped_eq_some_iff.mp isMark
  refine .terminal isWhich ?_
  rintro rfl
  simp [unknown] at known

theorem literal {value : Literal} (isLiteral : Denotes token.kind value) :
    Left true (token :: rest) rest := by
  refine .pass ?_
  unfold Token.isTerminal
  generalize token.kind = kind at isLiteral
  cases isLiteral <;> rfl

theorem arrow (bodied : Bodied rest after) (inner : Left fewer rest after) :
    Left true (token :: rest) after where
  suffix := inner.suffix.trans (List.suffix_cons _ _)
  shorter := fun _ => Nat.lt_succ_of_le inner.suffix.length_le
  bodied := fun arrow rest' isArrow within long => by
    obtain same | within := List.suffix_cons_iff.mp within
    · obtain ⟨_, rfl⟩ := List.cons.inj same
      exact bodied
    · exact inner.bodied arrow rest' isArrow within long

theorem tail (left : Left fewer before (token :: after)) : after <:+ before :=
  (List.suffix_cons _ _).trans left.suffix

theorem length_le (left : Left fewer before after) : after.length ≤ before.length :=
  left.suffix.length_le

theorem ne_nil (left : Left true before after) : before ≠ [] :=
  List.ne_nil_of_length_pos (Nat.zero_lt_of_lt (left.shorter rfl))

theorem ne_nil_of_cons (left : Left fewer before (token :: after)) : before ≠ [] := by
  rintro rfl
  exact List.cons_ne_nil _ _ (List.suffix_nil.mp left.suffix)

end Left

mutual

theorem TypePhrase.left {before after : List Token} {found : TypeName} :
    TypePhrase before after found → Left true before after
  | .plain isName => .identifier isName
  | .generic isName opens areTypes closes =>
    (Left.identifier isName).trans <| (Left.terminal opens nofun).trans <|
      areTypes.left.trans <| .terminal closes nofun

theorem TypePhrases.left {before after : List Token} {found : List TypeName} :
    TypePhrases before after found → Left true before after
  | .last only => only.left
  | .more first isComma next =>
    first.left.trans <| (Left.terminal isComma nofun).trans <| next.left

end

theorem Hint.left {hint : Option TypeName} :
    Hint before after hint → Left false before after
  | .none => .refl
  | .some isColon isType => .weaken <| (Left.terminal isColon nofun).trans <| isType.left

theorem Parameters.left {found : List Parameter} (parameters : Parameters before after found) :
    Left true before after := by
  induction parameters with
  | last isName typed => exact (Left.identifier isName).trans <| typed.left
  | more isName typed isComma next ih =>
    exact (Left.identifier isName).trans <| typed.left.trans <|
      (Left.terminal isComma nofun).trans ih

theorem ParameterList.left {found : List Parameter} :
    ParameterList before after found → Left false before after
  | .none => .refl
  | .some parameters _ => .weaken parameters.left

theorem Modifiers.left {access : Option Visibility} {dispatch : Option Dispatch}
    {found : Visibility × Dispatch} (modifiers : Modifiers access dispatch before after found) :
    Left false before after := by
  induction modifiers with
  | none => exact .refl
  | access isWord next ih | dispatch isWord next ih =>
    exact .weaken <| (Left.meant isWord rfl).trans ih

theorem Superclass.left {before after : Feed} {superclass : Option SuperclassRef} :
    Superclass before after superclass → Left false before.tokens after.tokens
  | .none => .refl
  | .some isWord isName => .weaken <| (Left.terminal isWord nofun).trans <| .identifier isName

private theorem operatorMarks_arrow (level : Nat) : (operatorMarks level).lookup .arrow = none := by
  unfold operatorMarks
  split <;> rfl

mutual

theorem Expression.left {before after : Feed} {value : Expr} :
    Expression before after value → Left true before.tokens after.tokens
  | .operation isValue => isValue.left
  | .assign isName isMark isValue =>
    (Left.identifier isName).trans <| (Left.meant isMark rfl).trans <| isValue.left
  | .setProperty target isDot isName isMark isValue =>
    target.left.trans <| (Left.terminal isDot nofun).trans <|
      (Left.identifier isName).trans <| (Left.meant isMark rfl).trans <| isValue.left
  | .setIndex target opens isKey closes isMark isValue =>
    target.left.trans <| (Left.terminal opens nofun).trans <|
      isKey.left.trans <| (Left.terminal closes nofun).trans <|
      (Left.meant isMark rfl).trans <| isValue.left

theorem Operation.left {level : Nat} {before after : Feed} {value : Expr} :
    Operation level before after value → Left true before.tokens after.tokens
  | .operand isValue => isValue.left
  | .tighter _ isValue => isValue.left
  | .join _ first isOperator second =>
    first.left.trans <| (Left.meant isOperator (operatorMarks_arrow _)).trans <|
      second.left

theorem Operand.left {before after : Feed} {value : Expr} :
    Operand before after value → Left true before.tokens after.tokens
  | .unary isOperator isOperand => (Left.meant isOperator rfl).trans <| isOperand.left
  | .call isValue => isValue.left

theorem Call.left {before after : Feed} {value : Expr} :
    Call before after value → Left true before.tokens after.tokens
  | .primary isValue => isValue.left
  | .call target opens closes =>
    target.left.trans <| (Left.terminal opens nofun).trans <| .terminal closes nofun
  | .callWith target opens areValues _ closes =>
    target.left.trans <| (Left.terminal opens nofun).trans <|
      areValues.left.trans <| .terminal closes nofun
  | .property target isDot isName =>
    target.left.trans <| (Left.terminal isDot nofun).trans <| .identifier isName
  | .index target opens isKey closes =>
    target.left.trans <| (Left.terminal opens nofun).trans <|
      isKey.left.trans <| .terminal closes nofun

theorem Commas.left {before after : Feed} {values : List Expr} :
    Commas before after values → Left true before.tokens after.tokens
  | .last only => only.left
  | .more first isComma next =>
    first.left.trans <| (Left.terminal isComma nofun).trans <| next.left

theorem Primary.left {before after : Feed} {value : Expr} :
    Primary before after value → Left true before.tokens after.tokens
  | .literal isLiteral => .literal isLiteral
  | .reference isName => .identifier isName
  | .this isWord => .terminal isWord nofun
  | .super isWord isDot isName =>
    (Left.terminal isWord nofun).trans <| (Left.terminal isDot nofun).trans <| .identifier isName
  | .group opens isValue closes =>
    (Left.terminal opens nofun).trans <| isValue.left.trans <| .terminal closes nofun
  | .array opens areValues closes =>
    (Left.terminal opens nofun).trans <| areValues.left.trans <| .terminal closes nofun
  | .map opens arePairs closes =>
    (Left.terminal opens nofun).trans <| arePairs.left.trans <| .terminal closes nofun
  | .lambda isWord opens isRest =>
    (Left.terminal isWord nofun).trans <| (Left.terminal opens nofun).trans <|
      isRest.left

theorem Elements.left {before after : Feed} {values : List Expr} :
    Elements before after values → Left false before.tokens after.tokens
  | .none => .refl
  | .last only => .weaken <| only.left
  | .more first isComma next => .weaken <|
    first.left.trans <| (Left.terminal isComma nofun).trans <| next.left

theorem Entries.left {before after : Feed} {pairs : List (Expr × Expr)} :
    Entries before after pairs → Left false before.tokens after.tokens
  | .none => .refl
  | .last isKey isColon isValue => .weaken <|
    isKey.left.trans <| (Left.terminal isColon nofun).trans <|
      isValue.left
  | .more isKey isColon isValue isComma next => .weaken <|
    isKey.left.trans <| (Left.terminal isColon nofun).trans <|
      isValue.left.trans <| (Left.terminal isComma nofun).trans <| next.left

theorem FunctionRest.left {name : Identifier} {before after : Feed} {decl : FunctionDecl Stmt} :
    FunctionRest name before after decl → Left true before.tokens after.tokens
  | .rest declared closes isBody =>
    declared.left.trans <| (Left.terminal closes nofun).trans <| isBody.left

theorem FunctionBody.left {before after : Feed} {body : Option TypeName × List Stmt} :
    FunctionBody before after body → Left true before.tokens after.tokens
  | .block opens isBody => (Left.terminal opens nofun).trans <| isBody.left
  | .annotated _ isType opens isBody =>
    .arrow (.inl ⟨_, _, _, isType, opens⟩) <|
      isType.left.trans <| (Left.terminal opens nofun).trans <| isBody.left
  | .expression _ _ isValue whole =>
    .arrow (.inr ⟨_, _, _, isValue, .inl ⟨whole, List.suffix_refl _⟩⟩) isValue.left
  | .terminated _ _ isValue isMark =>
    .arrow (.inr ⟨_, _, _, isValue, .inr ⟨_, _, rfl, isMark, List.suffix_refl _⟩⟩) <|
      isValue.left.trans <| .terminal isMark nofun

theorem Block.left {before after : Feed} {body : List Stmt} :
    Block before after body → Left true before.tokens after.tokens
  | .none closes => .terminal closes nofun
  | .more first next => first.left.trans <| next.left

theorem Declaration.left {before after : Feed} {stmt : Stmt} :
    Declaration before after stmt → Left true before.tokens after.tokens
  | .classDecl isWord isName clause opens isBody =>
    (Left.terminal isWord nofun).trans <| (Left.identifier isName).trans <|
      clause.left.trans <| (Left.terminal opens nofun).trans <|
      isBody.left
  | .function isWord isName opens isRest =>
    (Left.terminal isWord nofun).trans <| (Left.identifier isName).trans <|
      (Left.terminal opens nofun).trans <| isRest.left
  | .var isWord declared => (Left.terminal isWord nofun).trans <| declared.left
  | .statement isStmt => isStmt.left

theorem Variable.left {before after : Feed} {name : Identifier} {hint : Option TypeName}
    {initial : Option Expr} :
    Variable before after name hint initial → Left true before.tokens after.tokens
  | .declared isName typed isInitial isMark =>
    (Left.identifier isName).trans <| typed.left.trans <|
      isInitial.left.trans <| .terminal isMark nofun

theorem Initial.left {before after : Feed} {initial : Option Expr} :
    Initial before after initial → Left false before.tokens after.tokens
  | .none => .refl
  | .some isEquals isValue => .weaken <| (Left.terminal isEquals nofun).trans <| isValue.left

theorem MemberList.left {before after : Feed} {members : Members} :
    MemberList before after members → Left true before.tokens after.tokens
  | .none closes => .terminal closes nofun
  | .field modifiers isWord declared next =>
    modifiers.left.trans <| (Left.terminal isWord nofun).trans <|
      declared.left.trans <| next.left
  | .method modifiers isWord isName opens isRest next =>
    modifiers.left.trans <| (Left.terminal isWord nofun).trans <|
      (Left.identifier isName).trans <| (Left.terminal opens nofun).trans <|
      isRest.left.trans <| next.left

theorem Statement.left {before after : Feed} {stmt : Stmt} :
    Statement before after stmt → Left true before.tokens after.tokens
  | .countedLoop isWord opens isInitial isCondition isMark isIncrement closes isBody =>
    (Left.terminal isWord nofun).trans <| (Left.terminal opens nofun).trans <|
      isInitial.left.trans <| isCondition.left.trans <|
      (Left.terminal isMark nofun).trans <| isIncrement.left.trans <|
      (Left.terminal closes nofun).trans <| isBody.left
  | .branch isWord opens isCondition closes whenTrue _
  | .loop isWord opens isCondition closes whenTrue =>
    (Left.terminal isWord nofun).trans <| (Left.terminal opens nofun).trans <|
      isCondition.left.trans <| (Left.terminal closes nofun).trans <|
      whenTrue.left
  | .branches isWord opens isCondition closes whenTrue isElse whenFalse =>
    (Left.terminal isWord nofun).trans <| (Left.terminal opens nofun).trans <|
      isCondition.left.trans <| (Left.terminal closes nofun).trans <|
      whenTrue.left.trans <| (Left.terminal isElse nofun).trans <|
      whenFalse.left
  | .returnValue isWord isValue isMark =>
    (Left.terminal isWord nofun).trans <| isValue.left.trans <| .terminal isMark nofun
  | .breakLoop isWord isMark | .continueLoop isWord isMark =>
    (Left.terminal isWord nofun).trans <| .terminal isMark nofun
  | .block opens isBody => (Left.terminal opens nofun).trans <| isBody.left
  | .print isWord areValues isMark =>
    (Left.terminal isWord nofun).trans <| areValues.left.trans <| .terminal isMark nofun
  | .expression _ isValue isMark => isValue.left.trans <| .terminal isMark nofun

theorem Optional.left {before after : Feed} {value : Option Expr} :
    Optional before after value → Left false before.tokens after.tokens
  | .none => .refl
  | .some isValue => .weaken <| isValue.left

theorem LoopInitial.left {before after : Feed} {initial : Option Stmt} :
    LoopInitial before after initial → Left true before.tokens after.tokens
  | .none isMark => .terminal isMark nofun
  | .var isWord declared => (Left.terminal isWord nofun).trans <| declared.left
  | .expression isValue isMark => isValue.left.trans <| .terminal isMark nofun

end

end ClassScript.Phrase
