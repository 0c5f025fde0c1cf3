import ClassScript.Proofs.Renumber
import ClassScript.Proofs.Sentences
import ClassScript.Proofs.Unplaced
import Mathlib.Tactic.IntervalCases

/-!
Precedence and associativity. What is read holds together as tightly as its place asks, and an
expression that does so is read back from the tokens that it is written with.
-/

set_option autoImplicit false

namespace ClassScript

open Grammar Parse Phrase

def Grammar.Operator.level : Operator → Nat
  | .logical .or => 0
  | .logical .and => 1
  | .binary .equal | .binary .notEqual => 2
  | .binary .less | .binary .lessEqual | .binary .greater | .binary .greaterEqual => 3
  | .binary .add | .binary .subtract => 4
  | .binary .multiply | .binary .divide | .binary .remainder => 5

def Grammar.Operator.Joins (operator : Operator) (least : Nat) (left right : Nat → Prop) : Prop :=
  least ≤ operator.level + 1 ∧ left (operator.level + 1) ∧ right (operator.level + 2)

mutual

/-- An expression holds together at least as tightly as its place asks, and so does all in it: 0
stands for assignments, 1 to 6 for the levels of operators, 7 for operators before an operand and 8
for accesses and calls. Functions are not looked into. -/
def Expr.Fits : Expr → Nat → Prop
  | .assign _ _ value, least => least = 0 ∧ value.Fits 0
  | .setProperty object _ value, least => least = 0 ∧ object.Fits 8 ∧ value.Fits 0
  | .setIndex object key value _, least => least = 0 ∧ object.Fits 8 ∧ key.Fits 0 ∧ value.Fits 0
  | .logical left operator right, least =>
    Operator.Joins (.logical operator) least left.Fits right.Fits
  | .binary left operator right _, least =>
    Operator.Joins (.binary operator) least left.Fits right.Fits
  | .unary _ operand _, least => least ≤ 7 ∧ operand.Fits 7
  | .call callee _ arguments, least =>
    least ≤ 8 ∧ callee.Fits 8 ∧ arguments.length ≤ 255 ∧ AllFit arguments
  | .property object _, least => least ≤ 8 ∧ object.Fits 8
  | .index object key _, least => least ≤ 8 ∧ object.Fits 8 ∧ key.Fits 0
  | .group inner, _ => inner.Fits 0
  | .array elements _, _ => AllFit elements
  | .map entries _, _ => EntriesFit entries
  | _, _ => True

def AllFit : List Expr → Prop
  | [] => True
  | expr :: rest => expr.Fits 0 ∧ AllFit rest

def EntriesFit : List (Expr × Expr) → Prop
  | [] => True
  | (key, value) :: rest => key.Fits 0 ∧ value.Fits 0 ∧ EntriesFit rest

end

def Expr.shape (expr : Expr) : Expr :=
  (expr.renumber fun _ => 0).unplaced

mutual

/-- Some tokens begin with an expression that is written out in order, and others are left. There
are parentheses around groups and calls only. -/
inductive Writes : Expr → List Token → List Token → Prop
  | literal {token value position after} (isLiteral : Denotes token.kind value) :
    Writes (.literal value position) (token :: after) after
  | reference {token id name after} (isName : token.isIdentifier)
    (same : token.lexeme = name.name) : Writes (.reference id name) (token :: after) after
  | this {word id position after} (isWord : word.isTerminal .thisWord) :
    Writes (.this id position) (word :: after) after
  | super {word dot token id position method after} (isWord : word.isTerminal .superWord)
    (isDot : dot.isTerminal .dot) (isName : token.isIdentifier)
    (same : token.lexeme = method.name) :
    Writes (.super id position method) (word :: dot :: token :: after) after
  | group {opening closing inner before after} (opens : opening.isTerminal .leftParen)
    (isInner : Writes inner before (closing :: after)) (closes : closing.isTerminal .rightParen) :
    Writes (.group inner) (opening :: before) after
  | array {opening closing elements position before after}
    (opens : opening.isTerminal .leftBracket)
    (areElements : WritesAll elements before (closing :: after))
    (closes : closing.isTerminal .rightBracket) :
    Writes (.array elements position) (opening :: before) after
  | map {opening closing entries position before after} (opens : opening.isTerminal .leftBrace)
    (areEntries : WritesEntries entries before (closing :: after))
    (closes : closing.isTerminal .rightBrace) :
    Writes (.map entries position) (opening :: before) after
  | unary {mark operator operand position before after}
    (isOperator : meant unaryMarks mark = some operator)
    (isOperand : Writes operand before after) :
    Writes (.unary operator operand position) (mark :: before) after
  | join {mark operator left right position before middle after}
    (isLeft : Writes left before (mark :: middle))
    (isOperator : meant (operatorMarks operator.level) mark = some operator)
    (isRight : Writes right middle after) :
    Writes (joined left position right operator) before after
  | call {opening closing callee position arguments before middle after}
    (isCallee : Writes callee before (opening :: middle)) (opens : opening.isTerminal .leftParen)
    (areArguments : WritesAll arguments middle (closing :: after))
    (closes : closing.isTerminal .rightParen) :
    Writes (.call callee position arguments) before after
  | property {dot token object name before after}
    (isObject : Writes object before (dot :: token :: after)) (isDot : dot.isTerminal .dot)
    (isName : token.isIdentifier) (same : token.lexeme = name.name) :
    Writes (.property object name) before after
  | index {opening closing object key position before middle after}
    (isObject : Writes object before (opening :: middle)) (opens : opening.isTerminal .leftBracket)
    (isKey : Writes key middle (closing :: after)) (closes : closing.isTerminal .rightBracket) :
    Writes (.index object key position) before after
  | assign {token mark id name value before after} (isName : token.isIdentifier)
    (same : token.lexeme = name.name) (isMark : mark.isTerminal .equal)
    (isValue : Writes value before after) :
    Writes (.assign id name value) (token :: mark :: before) after
  | setProperty {dot token mark object name value before middle after}
    (isObject : Writes object before (dot :: token :: mark :: middle))
    (isDot : dot.isTerminal .dot) (isName : token.isIdentifier)
    (same : token.lexeme = name.name) (isMark : mark.isTerminal .equal)
    (isValue : Writes value middle after) : Writes (.setProperty object name value) before after
  | setIndex {opening closing mark object key value position before middle rest after}
    (isObject : Writes object before (opening :: middle)) (opens : opening.isTerminal .leftBracket)
    (isKey : Writes key middle (closing :: mark :: rest))
    (closes : closing.isTerminal .rightBracket) (isMark : mark.isTerminal .equal)
    (isValue : Writes value rest after) :
    Writes (.setIndex object key value position) before after

inductive WritesAll : List Expr → List Token → List Token → Prop
  | none {after} : WritesAll [] after after
  | last {expr before after} (only : Writes expr before after) : WritesAll [expr] before after
  | more {comma expr next others before middle after}
    (first : Writes expr before (comma :: middle)) (isComma : comma.isTerminal .comma)
    (rest : WritesAll (next :: others) middle after) :
    WritesAll (expr :: next :: others) before after

inductive WritesEntries : List (Expr × Expr) → List Token → List Token → Prop
  | none {after} : WritesEntries [] after after
  | last {colon key value before middle after} (isKey : Writes key before (colon :: middle))
    (isColon : colon.isTerminal .colon) (isValue : Writes value middle after) :
    WritesEntries [(key, value)] before after
  | more {colon comma key value next others before middle rest after}
    (isKey : Writes key before (colon :: middle)) (isColon : colon.isTerminal .colon)
    (isValue : Writes value middle (comma :: rest)) (isComma : comma.isTerminal .comma)
    (areOthers : WritesEntries (next :: others) rest after) :
    WritesEntries ((key, value) :: next :: others) before after

end

/-- The phrases that hold together as tightly as a grade says. -/
def Graded : Nat → Feed → Feed → Expr → Prop
  | 0 => Expression
  | 7 => Operand
  | 8 => Call
  | level + 1 => if level < 6 then Operation level else Primary

namespace Graded

variable {low high : Nat} {before after : Feed} {value : Expr}

private theorem step : ∀ {grade : Nat}, Graded (grade + 1) before after value →
    Graded grade before after value
  | 0, graded => .operation graded
  | 1, graded | 2, graded | 3, graded | 4, graded | 5, graded => .tighter (by decide) graded
  | 6, graded => .tighter (by decide) (.operand graded)
  | 7, graded => .call graded
  | 8, graded => .primary graded
  | _ + 9, graded => graded

private theorem loosen (le : low ≤ high) (graded : Graded high before after value) :
    Graded low before after value := by
  induction le with
  | refl => exact graded
  | step _ ih => exact ih graded.step

private theorem primary (derived : Primary before after value) : Graded low before after value :=
  loosen (Nat.le_add_right low 9) derived

end Graded

private theorem level_of_meant {level : Nat} {mark : Token} {operator : Operator}
    (isOperator : meant (operatorMarks level) mark = some operator) :
    operator.level = level ∧ level < 6 := by
  rw [meant_operatorMarks] at isOperator
  obtain ⟨which, -, found⟩ := mapped_eq_some_iff.mp isOperator
  unfold operatorAt at found
  split at found <;> cases found <;> exact ⟨rfl, by decide⟩

private theorem fits_joined {operator : Operator} {left right : Expr} {position : Position}
    {least : Nat} : (joined left position right operator).Fits least ↔
      operator.Joins least left.Fits right.Fits := by
  cases operator <;> rfl

private theorem shape_joined {left left' right right' : Expr} (operator : Operator)
    (position position' : Position) (same : left.shape = left'.shape)
    (same' : right.shape = right'.shape) :
    (joined left position right operator).shape =
      (joined left' position' right' operator).shape := by
  cases operator with
  | logical operator => exact congrArg₂ (Expr.logical · operator ·) same same'
  | binary operator => exact congrArg₂ (Expr.binary · operator · .start) same same'

private theorem Graded.join {before after : Feed} {mark : Token} {rest : List Token} {id : RefId}
    {operator : Operator} {left right : Expr}
    (first : Graded (operator.level + 1) before ⟨mark :: rest, id⟩ left)
    (isOperator : meant (operatorMarks operator.level) mark = some operator)
    (second : Graded (operator.level + 2) ⟨rest, id⟩ after right) :
    Graded (operator.level + 1) before after (joined left mark.position right operator) := by
  have low := (level_of_meant isOperator).2
  generalize operator.level = level at *
  interval_cases level
  case «5» => exact Operation.join low first isOperator (.operand second)
  all_goals exact Operation.join low first isOperator second

private theorem meant_equal {mark : Token} (isMark : mark.isTerminal .equal) :
    meant assignmentMarks mark = some none :=
  mapped_eq_some_iff.mpr ⟨.equal, isMark, rfl⟩

mutual

/-- What is written is read as a phrase of any grade that it fits. -/
private theorem Writes.reads {expr : Expr} {before after : List Token}
    (writes : Writes expr before after) {grade : Nat} (fits : expr.Fits grade) (id : RefId) :
    ∃ value id', Graded grade ⟨before, id⟩ ⟨after, id'⟩ value ∧ value.shape = expr.shape := by
  match writes with
  | .literal isLiteral => exact ⟨_, _, .primary (.literal isLiteral), rfl⟩
  | .reference isName same =>
    exact ⟨_, _, .primary (.reference isName),
      congrArg (fun name => Expr.reference 0 ⟨name, .start⟩) same⟩
  | .this isWord => exact ⟨_, _, .primary (.this isWord), rfl⟩
  | .super isWord isDot isName same =>
    exact ⟨_, _, .primary (.super isWord isDot isName),
      congrArg (fun name => Expr.super 0 .start ⟨name, .start⟩) same⟩
  | .group opens isInner closes =>
    obtain ⟨value, id', isValue, same⟩ := isInner.reads fits id
    exact ⟨_, _, .primary (.group opens isValue closes), congrArg Expr.group same⟩
  | .array opens areElements closes =>
    obtain ⟨values, id', areValues, -, same, -⟩ := areElements.reads fits id
    exact ⟨_, _, .primary (.array opens areValues closes), congrArg (Expr.array · .start) same⟩
  | .map opens areEntries closes =>
    obtain ⟨pairs, id', arePairs, same⟩ := areEntries.reads fits id
    exact ⟨_, _, .primary (.map opens arePairs closes), congrArg (Expr.map · .start) same⟩
  | .unary isOperator isOperand =>
    obtain ⟨value, id', isValue, same⟩ := isOperand.reads fits.2 id
    exact ⟨_, _, .loosen fits.1 (Operand.unary isOperator isValue),
      congrArg (Expr.unary _ · .start) same⟩
  | .join isLeft isOperator isRight =>
    obtain ⟨loose, first, second⟩ := fits_joined.mp fits
    obtain ⟨left, id', isFirst, same⟩ := isLeft.reads first id
    obtain ⟨right, id'', isSecond, same'⟩ := isRight.reads second id'
    exact ⟨_, _, .loosen loose (isFirst.join isOperator isSecond), shape_joined _ _ _ same same'⟩
  | .call isCallee opens areArguments closes =>
    obtain ⟨loose, tight, few, all⟩ := fits
    obtain ⟨callee, id', isFirst, same⟩ := isCallee.reads tight id
    obtain ⟨values, id'', -, areValues | ⟨rfl, final⟩, same', long⟩ := areArguments.reads all id'
    · exact ⟨_, _, .loosen loose (Call.callWith isFirst opens areValues (long ▸ few) closes),
        congrArg₂ (Expr.call · .start ·) same same'⟩
    · -- without arguments the closing parenthesis comes right behind the opening one
      cases final
      exact ⟨_, _, .loosen loose (Call.call isFirst opens closes),
        congrArg₂ (Expr.call · .start ·) same same'⟩
  | .property isObject isDot isName same =>
    obtain ⟨object, id', isFirst, same'⟩ := isObject.reads fits.2 id
    exact ⟨_, _, .loosen fits.1 (Call.property isFirst isDot isName),
      congrArg₂ (fun object name => Expr.property object ⟨name, .start⟩) same' same⟩
  | .index isObject opens isKey closes =>
    obtain ⟨object, id', isFirst, same⟩ := isObject.reads fits.2.1 id
    obtain ⟨key, id'', isSecond, same'⟩ := isKey.reads fits.2.2 id'
    exact ⟨_, _, .loosen fits.1 (Call.index isFirst opens isSecond closes),
      congrArg₂ (Expr.index · · .start) same same'⟩
  | .assign isName same isMark isValue =>
    obtain ⟨rfl, fits⟩ := fits
    obtain ⟨value, id', isRight, same'⟩ := isValue.reads fits (id + 1)
    exact ⟨_, _, Expression.assign isName (meant_equal isMark) isRight,
      congrArg₂ (fun name value => Expr.assign 0 ⟨name, .start⟩ value) same same'⟩
  | .setProperty isObject isDot isName same isMark isValue =>
    obtain ⟨rfl, tight, fits⟩ := fits
    obtain ⟨object, id', isFirst, same'⟩ := isObject.reads tight id
    obtain ⟨value, id'', isRight, same''⟩ := isValue.reads fits id'
    refine ⟨_, _, Expression.setProperty isFirst isDot isName (meant_equal isMark) isRight, ?_⟩
    exact (congr (congrArg₂ (fun object name => Expr.setProperty object ⟨name, .start⟩) same' same)
      same'' :)
  | .setIndex isObject opens isKey closes isMark isValue =>
    obtain ⟨rfl, tight, inner, fits⟩ := fits
    obtain ⟨object, id', isFirst, same⟩ := isObject.reads tight id
    obtain ⟨key, id'', isSecond, same'⟩ := isKey.reads inner id'
    obtain ⟨value, last, isRight, same''⟩ := isValue.reads fits id''
    have isMark := meant_equal isMark
    refine ⟨_, _, Expression.setIndex isFirst opens isSecond closes isMark isRight, ?_⟩
    exact (congr (congrArg₂ (fun object key value => Expr.setIndex object key value .start) same
      same') same'' :)

theorem WritesAll.reads {exprs : List Expr} {before after : List Token}
    (writes : WritesAll exprs before after) (fit : AllFit exprs) (id : RefId) :
    ∃ values id', Elements ⟨before, id⟩ ⟨after, id'⟩ values ∧
      (Commas ⟨before, id⟩ ⟨after, id'⟩ values ∨
        values = [] ∧ (⟨before, id⟩ : Feed) = ⟨after, id'⟩) ∧
      unplacedExprs (renumberExprs (fun _ => 0) values) =
        unplacedExprs (renumberExprs (fun _ => 0) exprs) ∧ values.length = exprs.length := by
  match writes with
  | .none => exact ⟨_, _, .none, .inr ⟨rfl, rfl⟩, rfl, rfl⟩
  | .last only =>
    obtain ⟨value, id', isValue, same⟩ := only.reads fit.1 id
    exact ⟨_, _, .last isValue, .inl (.last isValue), congrArg ([·]) same, rfl⟩
  | .more first isComma rest =>
    obtain ⟨value, id', isValue, same⟩ := first.reads fit.1 id
    obtain ⟨values, id'', elements, commas | ⟨rfl, -⟩, same', long⟩ := rest.reads fit.2 id'
    · exact ⟨_, _, .more isValue isComma elements, .inl (.more isValue isComma commas),
        congrArg₂ (· :: ·) same same', congrArg (· + 1) long⟩
    · cases long

theorem WritesEntries.reads {entries : List (Expr × Expr)} {before after : List Token}
    (writes : WritesEntries entries before after) (fit : EntriesFit entries) (id : RefId) :
    ∃ pairs id', Entries ⟨before, id⟩ ⟨after, id'⟩ pairs ∧
      unplacedEntries (renumberEntries (fun _ => 0) pairs) =
        unplacedEntries (renumberEntries (fun _ => 0) entries) := by
  match writes with
  | .none => exact ⟨_, _, .none, rfl⟩
  | .last isKey isColon isValue =>
    obtain ⟨key, id', first, same⟩ := isKey.reads fit.1 id
    obtain ⟨value, id'', second, same'⟩ := isValue.reads fit.2.1 id'
    exact ⟨_, _, .last first isColon second, congrArg₂ (fun key value => [(key, value)]) same same'⟩
  | .more isKey isColon isValue isComma areOthers =>
    obtain ⟨key, id', first, same⟩ := isKey.reads fit.1 id
    obtain ⟨value, id'', second, same'⟩ := isValue.reads fit.2.1 id'
    obtain ⟨pairs, last, others, same''⟩ := areOthers.reads fit.2.2 id''
    exact ⟨_, _, .more first isColon second isComma others,
      congrArg₂ (· :: ·) (congrArg₂ Prod.mk same same') same''⟩

end

/-- No token abbreviates an assignment. -/
def Unabbreviated (tokens : List Token) : Prop :=
  ∀ token ∈ tokens, (meant assignmentMarks token).join = none

namespace Unabbreviated

variable {before after : List Token} {token : Token}

private theorem mono (plain : Unabbreviated before) (left : after <:+ before) :
    Unabbreviated after :=
  fun token member => plain token (left.subset member)

private theorem tail (plain : Unabbreviated (token :: after)) : Unabbreviated after :=
  plain.mono (List.suffix_cons _ _)

private theorem eq_none {abbreviated : Option BinaryOp} (plain : Unabbreviated (token :: after))
    (isMark : meant assignmentMarks token = some abbreviated) : abbreviated = none := by
  simpa [isMark] using plain token List.mem_cons_self

end Unabbreviated

mutual

/-- No function stands in the expression. -/
def Expr.LambdaFree : Expr → Prop
  | .lambda _ => False
  | .unary _ inner _ | .group inner | .assign _ _ inner | .property inner _ => inner.LambdaFree
  | .binary left _ right _ | .logical left _ right | .setProperty left _ right
  | .index left right _ => left.LambdaFree ∧ right.LambdaFree
  | .setIndex object key value _ => object.LambdaFree ∧ key.LambdaFree ∧ value.LambdaFree
  | .call callee _ arguments => callee.LambdaFree ∧ AllLambdaFree arguments
  | .array elements _ => AllLambdaFree elements
  | .map entries _ => EntriesLambdaFree entries
  | _ => True

def AllLambdaFree : List Expr → Prop
  | [] => True
  | expr :: rest => expr.LambdaFree ∧ AllLambdaFree rest

def EntriesLambdaFree : List (Expr × Expr) → Prop
  | [] => True
  | (key, value) :: rest => key.LambdaFree ∧ value.LambdaFree ∧ EntriesLambdaFree rest

end

private theorem exists_denotes (value : Literal) : ∃ token : Token, Denotes token.kind value := by
  cases value with
  | number value => exact ⟨⟨.number value, "", .start⟩, .number⟩
  | text value => exact ⟨⟨.string value, "", .start⟩, .string⟩
  | boolean value =>
    cases value with
    | true => exact ⟨wordToken .trueWord "true", .true⟩
    | false => exact ⟨wordToken .falseWord "false", .false⟩
  | nil => exact ⟨wordToken .nilWord "nil", .nil⟩

private theorem exists_unaryMark (operator : UnaryOp) :
    ∃ mark, meant unaryMarks mark = some operator := by
  cases operator with
  | not => exact ⟨wordToken .bang "!", rfl⟩
  | negate => exact ⟨wordToken .minus "-", rfl⟩

private theorem exists_operatorMark (operator : Operator) :
    ∃ mark, meant (operatorMarks operator.level) mark = some operator := by
  match operator with
  | .logical .or => exact ⟨wordToken .orWord "or", rfl⟩
  | .logical .and => exact ⟨wordToken .andWord "and", rfl⟩
  | .binary .equal => exact ⟨wordToken .equalEqual "==", rfl⟩
  | .binary .notEqual => exact ⟨wordToken .bangEqual "!=", rfl⟩
  | .binary .less => exact ⟨wordToken .less "<", rfl⟩
  | .binary .lessEqual => exact ⟨wordToken .lessEqual "<=", rfl⟩
  | .binary .greater => exact ⟨wordToken .greater ">", rfl⟩
  | .binary .greaterEqual => exact ⟨wordToken .greaterEqual ">=", rfl⟩
  | .binary .add => exact ⟨wordToken .plus "+", rfl⟩
  | .binary .subtract => exact ⟨wordToken .minus "-", rfl⟩
  | .binary .multiply => exact ⟨wordToken .star "*", rfl⟩
  | .binary .divide => exact ⟨wordToken .slash "/", rfl⟩
  | .binary .remainder => exact ⟨wordToken .percent "%", rfl⟩

mutual

/-- Every expression without functions can be written in front of any tokens. -/
private theorem exists_writes (expr : Expr) (plain : expr.LambdaFree) (after : List Token) :
    ∃ before, Writes expr before after := by
  match expr with
  | .literal value position =>
    obtain ⟨token, denotes⟩ := exists_denotes value
    exact ⟨token :: after, .literal denotes⟩
  | .reference id name => exact ⟨nameToken name.name :: after, .reference rfl rfl⟩
  | .this id position => exact ⟨wordToken .thisWord "this" :: after, .this rfl⟩
  | .super id position method =>
    exact ⟨wordToken .superWord "super" :: wordToken .dot "." :: nameToken method.name :: after,
      .super rfl rfl rfl rfl⟩
  | .group inner =>
    obtain ⟨before, isInner⟩ := exists_writes inner plain (wordToken .rightParen ")" :: after)
    exact ⟨wordToken .leftParen "(" :: before, .group rfl isInner rfl⟩
  | .array elements position =>
    obtain ⟨before, areElements⟩ :=
      exists_writesAll elements plain (wordToken .rightBracket "]" :: after)
    exact ⟨wordToken .leftBracket "[" :: before, .array rfl areElements rfl⟩
  | .map entries position =>
    obtain ⟨before, areEntries⟩ :=
      exists_writesEntries entries plain (wordToken .rightBrace "\x7d" :: after)
    exact ⟨wordToken .leftBrace "\x7b" :: before, .map rfl areEntries rfl⟩
  | .unary operator operand position =>
    obtain ⟨mark, isOperator⟩ := exists_unaryMark operator
    obtain ⟨before, isOperand⟩ := exists_writes operand plain after
    exact ⟨mark :: before, .unary isOperator isOperand⟩
  | .binary left operator right position =>
    obtain ⟨mark, isOperator⟩ := exists_operatorMark (.binary operator)
    obtain ⟨middle, isRight⟩ := exists_writes right plain.2 after
    obtain ⟨before, isLeft⟩ := exists_writes left plain.1 (mark :: middle)
    exact ⟨before, .join isLeft isOperator isRight⟩
  | .logical left operator right =>
    obtain ⟨mark, isOperator⟩ := exists_operatorMark (.logical operator)
    obtain ⟨middle, isRight⟩ := exists_writes right plain.2 after
    obtain ⟨before, isLeft⟩ := exists_writes left plain.1 (mark :: middle)
    exact ⟨before, @Writes.join _ _ _ _ .start _ _ _ isLeft isOperator isRight⟩
  | .call callee position arguments =>
    obtain ⟨middle, areArguments⟩ :=
      exists_writesAll arguments plain.2 (wordToken .rightParen ")" :: after)
    obtain ⟨before, isCallee⟩ := exists_writes callee plain.1 (wordToken .leftParen "(" :: middle)
    exact ⟨before, .call isCallee rfl areArguments rfl⟩
  | .property object name =>
    obtain ⟨before, isObject⟩ :=
      exists_writes object plain (wordToken .dot "." :: nameToken name.name :: after)
    exact ⟨before, .property isObject rfl rfl rfl⟩
  | .index object key position =>
    obtain ⟨middle, isKey⟩ := exists_writes key plain.2 (wordToken .rightBracket "]" :: after)
    obtain ⟨before, isObject⟩ :=
      exists_writes object plain.1 (wordToken .leftBracket "[" :: middle)
    exact ⟨before, .index isObject rfl isKey rfl⟩
  | .assign id name value =>
    obtain ⟨before, isValue⟩ := exists_writes value plain after
    exact ⟨nameToken name.name :: wordToken .equal "=" :: before, .assign rfl rfl rfl isValue⟩
  | .setProperty object name value =>
    obtain ⟨middle, isValue⟩ := exists_writes value plain.2 after
    obtain ⟨before, isObject⟩ := exists_writes object plain.1
      (wordToken .dot "." :: nameToken name.name :: wordToken .equal "=" :: middle)
    exact ⟨before, .setProperty isObject rfl rfl rfl rfl isValue⟩
  | .setIndex object key value position =>
    obtain ⟨rest, isValue⟩ := exists_writes value plain.2.2 after
    obtain ⟨middle, isKey⟩ := exists_writes key plain.2.1
      (wordToken .rightBracket "]" :: wordToken .equal "=" :: rest)
    obtain ⟨before, isObject⟩ :=
      exists_writes object plain.1 (wordToken .leftBracket "[" :: middle)
    exact ⟨before, .setIndex isObject rfl isKey rfl rfl isValue⟩
  | .lambda decl => exact plain.elim

private theorem exists_writesAll (exprs : List Expr) (plain : AllLambdaFree exprs)
    (after : List Token) : ∃ before, WritesAll exprs before after := by
  match exprs with
  | [] => exact ⟨after, .none⟩
  | [expr] =>
    obtain ⟨before, only⟩ := exists_writes expr plain.1 after
    exact ⟨before, .last only⟩
  | expr :: next :: others =>
    obtain ⟨middle, rest⟩ := exists_writesAll (next :: others) plain.2 after
    obtain ⟨before, first⟩ := exists_writes expr plain.1 (wordToken .comma "," :: middle)
    exact ⟨before, .more first rfl rest⟩

private theorem exists_writesEntries (entries : List (Expr × Expr))
    (plain : EntriesLambdaFree entries) (after : List Token) :
    ∃ before, WritesEntries entries before after := by
  match entries with
  | [] => exact ⟨after, .none⟩
  | [(key, value)] =>
    obtain ⟨middle, isValue⟩ := exists_writes value plain.2.1 after
    obtain ⟨before, isKey⟩ := exists_writes key plain.1 (wordToken .colon ":" :: middle)
    exact ⟨before, .last isKey rfl isValue⟩
  | (key, value) :: next :: others =>
    obtain ⟨rest, areOthers⟩ := exists_writesEntries (next :: others) plain.2.2 after
    obtain ⟨middle, isValue⟩ := exists_writes value plain.2.1 (wordToken .comma "," :: rest)
    obtain ⟨before, isKey⟩ := exists_writes key plain.1 (wordToken .colon ":" :: middle)
    exact ⟨before, .more isKey rfl isValue rfl areOthers⟩

end

private theorem Expr.Fits.mono {expr : Expr} {low high : Nat} (le : low ≤ high)
    (fits : expr.Fits high) : expr.Fits low := by
  cases expr <;> simp only [Fits, Operator.Joins] at * <;> grind

mutual

theorem Phrase.Expression.fits {before after : Feed} {value : Expr}
    (derived : Expression before after value) (plain : Unabbreviated before.tokens) :
    value.Fits 0 := by
  match derived with
  | .operation isValue => exact (isValue.fits plain).mono (Nat.zero_le _)
  | .assign isName isMark isValue =>
    obtain rfl := plain.tail.eq_none isMark
    exact ⟨rfl, isValue.fits plain.tail.tail⟩
  | .setProperty target isDot isName isMark isValue =>
    have rest := plain.mono target.left.suffix
    obtain rfl := rest.tail.tail.eq_none isMark
    exact ⟨rfl, target.fits plain, isValue.fits rest.tail.tail.tail⟩
  | .setIndex target opens isKey closes isMark isValue =>
    have inner := (plain.mono target.left.suffix).tail
    have rest := (inner.mono isKey.left.suffix).tail
    obtain rfl := rest.eq_none isMark
    exact ⟨rfl, target.fits plain, isKey.fits inner, isValue.fits rest.tail⟩

theorem Phrase.Operation.fits {level : Nat} {before after : Feed} {value : Expr}
    (derived : Operation level before after value) (plain : Unabbreviated before.tokens) :
    value.Fits (level + 1) := by
  match derived with
  | .operand isValue => exact isValue.fits plain
  | .tighter low isValue => exact (isValue.fits plain).mono (Nat.le_succ _)
  | .join low first isOperator second =>
    have tight := first.fits plain
    have tight' := second.fits (plain.mono first.left.suffix).tail
    obtain ⟨rfl, -⟩ := level_of_meant isOperator
    exact fits_joined.mpr ⟨le_rfl, tight, tight'⟩

theorem Phrase.Operand.fits {before after : Feed} {value : Expr}
    (derived : Operand before after value) (plain : Unabbreviated before.tokens) :
    value.Fits 7 := by
  match derived with
  | .unary isOperator isOperand => exact ⟨le_rfl, isOperand.fits plain.tail⟩
  | .call isValue => exact (isValue.fits plain).mono (by decide)

theorem Phrase.Call.fits {before after : Feed} {value : Expr} (derived : Call before after value)
    (plain : Unabbreviated before.tokens) : value.Fits 8 := by
  match derived with
  | .primary isValue => exact (isValue.fits plain).mono (by decide)
  | .call target opens closes => exact ⟨le_rfl, target.fits plain, Nat.zero_le _, trivial⟩
  | .callWith target opens areValues few closes =>
    exact ⟨le_rfl, target.fits plain, few, areValues.fits (plain.mono target.left.suffix).tail⟩
  | .property target isDot isName => exact ⟨le_rfl, target.fits plain⟩
  | .index target opens isKey closes =>
    exact ⟨le_rfl, target.fits plain, isKey.fits (plain.mono target.left.suffix).tail⟩

theorem Phrase.Commas.fits {before after : Feed} {values : List Expr}
    (derived : Commas before after values) (plain : Unabbreviated before.tokens) :
    AllFit values := by
  match derived with
  | .last only => exact ⟨only.fits plain, trivial⟩
  | .more first isComma next =>
    exact ⟨first.fits plain, next.fits (plain.mono first.left.suffix).tail⟩

theorem Phrase.Primary.fits {before after : Feed} {value : Expr}
    (derived : Primary before after value) (plain : Unabbreviated before.tokens) :
    value.Fits 9 := by
  match derived with
  | .literal _ | .reference _ | .this _ | .super _ _ _ | .lambda _ _ _ => trivial
  | .group opens isValue closes => exact isValue.fits plain.tail
  | .array opens areValues closes => exact areValues.fits plain.tail
  | .map opens arePairs closes => exact arePairs.fits plain.tail

theorem Phrase.Elements.fits {before after : Feed} {values : List Expr}
    (derived : Elements before after values) (plain : Unabbreviated before.tokens) :
    AllFit values := by
  match derived with
  | .none => trivial
  | .last only => exact ⟨only.fits plain, trivial⟩
  | .more first isComma next =>
    exact ⟨first.fits plain, next.fits (plain.mono first.left.suffix).tail⟩

theorem Phrase.Entries.fits {before after : Feed} {entries : List (Expr × Expr)}
    (derived : Entries before after entries) (plain : Unabbreviated before.tokens) :
    EntriesFit entries := by
  match derived with
  | .none => trivial
  | .last isKey isColon isValue =>
    exact ⟨isKey.fits plain, isValue.fits (plain.mono isKey.left.suffix).tail, trivial⟩
  | .more isKey isColon isValue isComma next =>
    have rest := (plain.mono isKey.left.suffix).tail
    exact ⟨isKey.fits plain, isValue.fits rest, next.fits (rest.mono isValue.left.suffix).tail⟩

end

/-- Reading inverts writing. Every expression without functions can be written in front of the end
mark. If it has parentheses where its operators need them, it is read back, up to numbers and
positions, from all tokens that it is written with; and what is read from tokens that abbreviate no
assignment has parentheses there. -/
theorem reading_inverts_writing :
    (∀ (expr : Expr) (mark : Token), expr.LambdaFree → ∃ tokens, Writes expr tokens [mark]) ∧
    (∀ (expr : Expr) (tokens : List Token) (mark : Token) (first : RefId), expr.Fits 0 →
      Writes expr tokens [mark] → mark.isFinish → ∃ value last,
        parseExpression tokens first = .ok value last ∧ value.shape = expr.shape) ∧
    ∀ (tokens : List Token) (first : RefId) (value : Expr) (last : State), Marked tokens →
      Unabbreviated tokens → parseExpression tokens first = .ok value last → value.Fits 0 := by
  refine ⟨fun expr mark plain => exists_writes expr plain [mark], ?_, ?_⟩
  · intro expr tokens mark first fits writes isMark
    obtain ⟨value, id, isValue, same⟩ := writes.reads fits first
    have single : Marked [mark] := ⟨mark, List.mem_singleton_self _, isMark⟩
    have marked := single.before (Expression.left isValue).suffix
    obtain ⟨last, replies, -⟩ := (parseExpression_iff marked).mpr ⟨.plain isValue isMark, single⟩
    exact ⟨value, last, replies, same⟩
  · intro tokens first value last marked plain replies
    obtain ⟨derived, -⟩ := (parseExpression_iff marked).mp ⟨last, replies, rfl⟩
    cases derived with
    | plain isValue atEnd => exact isValue.fits plain
    | terminated isValue isMark atEnd => exact isValue.fits plain

def groupedTokens : List Token :=
  [nameToken "a", wordToken .equal "=", nameToken "b", wordToken .minus "-",
    wordToken .leftParen "(", nameToken "c", wordToken .minus "-", wordToken .minus "-",
    nameToken "d", wordToken .rightParen ")", endToken]

def difference (left right : Expr) : Expr :=
  joined left .start right (.binary .subtract)

def groupedDifference : Expr :=
  .assign 0 { name := "a", position := .start } (difference (referenceTo 0 "b")
    (.group (difference (referenceTo 0 "c") (.unary .negate (referenceTo 0 "d") .start))))

/-- The tokens of the grouped difference are read as it, and what is read has its parentheses. -/
theorem grouped_difference_is_read_back : ∃ value last,
    parseExpression groupedTokens 5 = .ok value last ∧ value.shape = groupedDifference.shape ∧
      value.Fits 0 := by
  have writes : Writes groupedDifference groupedTokens [endToken] :=
    .assign rfl rfl rfl (.join (.reference rfl rfl) rfl
      (.group rfl (.join (.reference rfl rfl) rfl (.unary rfl (.reference rfl rfl))) rfl))
  obtain ⟨value, last, replies, same⟩ := reading_inverts_writing.2.1 groupedDifference groupedTokens
    endToken 5 ⟨rfl, by decide, trivial, by decide, trivial, by decide, trivial⟩ writes rfl
  exact ⟨value, last, replies, same, reading_inverts_writing.2.2 groupedTokens 5 value last
    ⟨endToken, by simp [groupedTokens], rfl⟩ (by unfold Unabbreviated; decide) replies⟩

end ClassScript
