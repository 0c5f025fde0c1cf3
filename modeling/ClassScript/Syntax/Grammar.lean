import ClassScript.Syntax.Parse

/-!
The grammar, one reader a rule. Every rule takes a bound on how deep rules may nest and hands a
smaller one to the rules below it; a bound proportional to the number of tokens is never reached.
Binary operators associate to the left, assignment to the right, and `target op= value` is read as
`target = target op value`.
-/

set_option autoImplicit false

namespace ClassScript.Grammar

open Parse

/-- Operators between two operands, of either kind. -/
inductive Operator where
  | logical (operator : LogicalOp)
  | binary (operator : BinaryOp)

def Operator.apply (left : Expr) (position : Position) (right : Expr) : Operator → Expr
  | logical operator => .logical left operator right
  | binary operator => .binary left operator right position

/-- The operators of a level, from the loosest, level 0, to the tightest, level 5. -/
def operatorAt : Nat → Terminal → Option Operator
  | 0, .orWord => some (.logical .or)
  | 1, .andWord => some (.logical .and)
  | 2, .bangEqual => some (.binary .notEqual)
  | 2, .equalEqual => some (.binary .equal)
  | 3, .greater => some (.binary .greater)
  | 3, .greaterEqual => some (.binary .greaterEqual)
  | 3, .less => some (.binary .less)
  | 3, .lessEqual => some (.binary .lessEqual)
  | 4, .minus => some (.binary .subtract)
  | 4, .plus => some (.binary .add)
  | 5, .star => some (.binary .multiply)
  | 5, .slash => some (.binary .divide)
  | 5, .percent => some (.binary .remainder)
  | _, _ => none

/-- The level of operands that no binary operator joins. -/
def operandLevel : Nat := 6

def unaryOperator : Terminal → Option UnaryOp
  | .bang => some .not
  | .minus => some .negate
  | _ => none

/-- The assignment marks, and the operation that each of them abbreviates. -/
def assignmentMark : Terminal → Option (Option BinaryOp)
  | .equal => some none
  | .plusEqual => some (some .add)
  | .minusEqual => some (some .subtract)
  | .starEqual => some (some .multiply)
  | .slashEqual => some (some .divide)
  | _ => none

def accessWord : Terminal → Option Visibility
  | .publicWord => some .everyone
  | .protectedWord => some .heirs
  | .privateWord => some .owner
  | _ => none

def dispatchWord : Terminal → Option Dispatch
  | .virtualWord => some .virtual
  | .overrideWord => some .override
  | _ => none

def literal? (token : Token) : Option Literal :=
  match token.kind with
  | .terminal .falseWord => some (.boolean false)
  | .terminal .trueWord => some (.boolean true)
  | .terminal .nilWord => some .nil
  | .number value => some (.number value)
  | .string value => some (.text value)
  | _ => none

/-- Give up because rules nest too deep. -/
def tooDeep {α : Type} : Parse α :=
  fail .nestedTooDeep

mutual

def typeName : Nat → Parse TypeName
  | 0 => tooDeep
  | depth + 1 => do
    let name ← identifier "type name"
    if ← accept .less then
      let arguments ← typeArguments depth
      expect .greater "'>' after type arguments"
      pure { name := name.name, arguments }
    else
      pure { name := name.name, arguments := [] }

def typeArguments : Nat → Parse (List TypeName)
  | 0 => tooDeep
  | depth + 1 => do
    let first ← typeName depth
    if ← accept .comma then
      let rest ← typeArguments depth
      pure (first :: rest)
    else
      pure [first]

end

def typeHint (depth : Nat) : Parse (Option TypeName) := do
  if ← accept .colon then
    let found ← typeName depth
    pure (some found)
  else
    pure none

/-- Parameters with commas between them, `count` others standing before them. -/
def parameters : Nat → Nat → Parse (List Parameter)
  | 0, _ => tooDeep
  | depth + 1, count => do
    if argumentLimit ≤ count then
      fail .tooManyParameters
    else
      let name ← identifier "parameter name"
      let typeHint ← typeHint depth
      if ← accept .comma then
        let rest ← parameters depth (count + 1)
        pure ({ name, typeHint } :: rest)
      else
        pure [{ name, typeHint }]

/-- The keywords before a member, in any order, each kind at most once. -/
def memberModifiers : Nat → Option Visibility → Option Dispatch → Parse (Visibility × Dispatch)
  | 0, _, _ => tooDeep
  | depth + 1, access, dispatch => do
    match ← acceptMap accessWord with
    | some visibility =>
      if access.isSome then failAt (← previous) .secondAccess
      else memberModifiers depth (some visibility) dispatch
    | none =>
      match ← acceptMap dispatchWord with
      | some found =>
        if dispatch.isSome then failAt (← previous) .secondDispatch
        else memberModifiers depth access (some found)
      | none => pure (access.getD .everyone, dispatch.getD .plain)

def superclassClause : Parse (Option SuperclassRef) := do
  if ← accept .extendsWord then
    let name ← identifier "superclass name after 'extends'"
    let id ← freshId
    pure (some { id, name })
  else
    pure none

structure Members where
  fields : List (FieldDecl Expr)
  methods : List (MethodDecl Stmt)

mutual

def expression : Nat → Parse Expr
  | 0 => tooDeep
  | depth + 1 => do
    let target ← operation depth 0
    match ← acceptMap assignmentMark with
    | none => pure target
    | some abbreviated =>
      let mark ← previous
      let right ← expression depth
      let value := match abbreviated with
        | none => right
        | some operator => .binary target operator right mark.position
      match target with
      | .reference _ name =>
        let id ← freshId
        pure (.assign id name value)
      | .property object name => pure (.setProperty object name value)
      | .index object key position => pure (.setIndex object key value position)
      | _ => failAt mark .invalidTarget

/-- Operands joined by the operators of a level and of tighter ones. -/
def operation : Nat → Nat → Parse Expr
  | 0, _ => tooDeep
  | depth + 1, level => do
    if operandLevel ≤ level then
      operand depth
    else
      let left ← operation depth (level + 1)
      operationRest depth level left

/-- The operators of a level and their right operands, after a left operand. -/
def operationRest : Nat → Nat → Expr → Parse Expr
  | 0, _, _ => tooDeep
  | depth + 1, level, left => do
    match ← acceptMap (operatorAt level) with
    | none => pure left
    | some operator =>
      let mark ← previous
      let right ← operation depth (level + 1)
      operationRest depth level (operator.apply left mark.position right)

def operand : Nat → Parse Expr
  | 0 => tooDeep
  | depth + 1 => do
    match ← acceptMap unaryOperator with
    | some operator =>
      let mark ← previous
      let inner ← operand depth
      pure (.unary operator inner mark.position)
    | none =>
      let first ← primary depth
      accesses depth first

/-- The calls, property reads and index reads that follow an operand. -/
def accesses : Nat → Expr → Parse Expr
  | 0, _ => tooDeep
  | depth + 1, object => do
    if ← accept .leftParen then
      let mark ← previous
      let arguments ← if ← check .rightParen then pure [] else arguments depth 0
      expect .rightParen "')' after arguments"
      accesses depth (.call object mark.position arguments)
    else if ← accept .dot then
      let name ← identifier "property name after '.'"
      accesses depth (.property object name)
    else if ← accept .leftBracket then
      let mark ← previous
      let key ← expression depth
      expect .rightBracket "']' after index"
      accesses depth (.index object key mark.position)
    else
      pure object

/-- Arguments with commas between them, `count` others standing before them. -/
def arguments : Nat → Nat → Parse (List Expr)
  | 0, _ => tooDeep
  | depth + 1, count => do
    if argumentLimit ≤ count then
      fail .tooManyArguments
    else
      let first ← expression depth
      if ← accept .comma then
        let rest ← arguments depth (count + 1)
        pure (first :: rest)
      else
        pure [first]

def primary : Nat → Parse Expr
  | 0 => tooDeep
  | depth + 1 => do
    let first ← current
    match literal? first with
    | some value =>
      advance
      pure (.literal value first.position)
    | none =>
      if first.isIdentifier then
        let name ← identifier "expression"
        let id ← freshId
        pure (.reference id name)
      else if ← accept .thisWord then
        let id ← freshId
        pure (.this id first.position)
      else if ← accept .superWord then
        expect .dot "'.' after 'super'"
        let method ← identifier "superclass method name"
        let id ← freshId
        pure (.super id first.position method)
      else if ← accept .leftParen then
        let inner ← expression depth
        expect .rightParen "')' after expression"
        pure (.group inner)
      else if ← accept .leftBracket then
        let elements ← elements depth
        expect .rightBracket "']' after array elements"
        pure (.array elements first.position)
      else if ← accept .leftBrace then
        let entries ← entries depth
        expect .rightBrace "'\x7d' after map entries"
        pure (.map entries first.position)
      else if ← accept .fnWord then
        expect .leftParen "'(' after 'fn'"
        let decl ← functionRest depth { name := lambdaName, position := first.position }
        pure (.lambda decl)
      else
        fail (.expected "expression")

/-- The elements of an array with commas between them; a last comma may follow. -/
def elements : Nat → Parse (List Expr)
  | 0 => tooDeep
  | depth + 1 => do
    if ← check .rightBracket then
      pure []
    else
      let first ← expression depth
      if ← accept .comma then
        let rest ← elements depth
        pure (first :: rest)
      else
        pure [first]

def entries : Nat → Parse (List (Expr × Expr))
  | 0 => tooDeep
  | depth + 1 => do
    if ← check .rightBrace then
      pure []
    else
      let key ← expression depth
      expect .colon "':' after map key"
      let value ← expression depth
      if ← accept .comma then
        let rest ← entries depth
        pure ((key, value) :: rest)
      else
        pure [(key, value)]

def functionRest : Nat → Identifier → Parse (FunctionDecl Stmt)
  | 0, _ => tooDeep
  | depth + 1, name => do
    let parameters ← if ← check .rightParen then pure [] else parameters depth 0
    expect .rightParen "')' after parameters"
    let (returns, body) ← functionBody depth
    pure { name, parameters, returns, body }

/-- The body of a function: a block, an annotated block, or an expression after an arrow. A type
name after the arrow is an annotation only if a block follows it. -/
def functionBody : Nat → Parse (Option TypeName × List Stmt)
  | 0 => tooDeep
  | depth + 1 => do
    if ← accept .arrow then
      let arrow ← previous
      match ← attempt (annotatedBlock depth) with
      | some returns =>
        let body ← block depth
        pure (some returns, body)
      | none =>
        let value ← expression depth
        let _ ← accept .semicolon
        pure (none, [.returnValue arrow.position (some value)])
    else
      expect .leftBrace "'\x7b' before function body"
      let body ← block depth
      pure (none, body)

def annotatedBlock : Nat → Parse TypeName
  | 0 => tooDeep
  | depth + 1 => do
    let returns ← typeName depth
    expect .leftBrace "'\x7b' before function body"
    pure returns

def namedFunction : Nat → String → Parse (FunctionDecl Stmt)
  | 0, _ => tooDeep
  | depth + 1, kind => do
    let name ← identifier (kind ++ " name")
    expect .leftParen ("'(' after " ++ kind ++ " name")
    functionRest depth name

def block : Nat → Parse (List Stmt)
  | 0 => tooDeep
  | depth + 1 => do
    if (← check .rightBrace) || (← atEnd) then
      expect .rightBrace "'\x7d' after block"
      pure []
    else
      let first ← declaration depth
      let rest ← block depth
      pure (first :: rest)

def declaration : Nat → Parse Stmt
  | 0 => tooDeep
  | depth + 1 => do
    if ← accept .classWord then
      classDeclaration depth
    else if (← check .fnWord) && (← checkNextIdentifier) then
      advance
      let decl ← namedFunction depth "function"
      pure (.function decl)
    else if ← accept .varWord then
      varDeclaration depth
    else
      statement depth

def varDeclaration : Nat → Parse Stmt
  | 0 => tooDeep
  | depth + 1 => do
    let name ← identifier "variable name"
    let typeHint ← typeHint depth
    let initial ← initialValue depth
    expect .semicolon "';' after variable declaration"
    pure (.var name typeHint initial)

def initialValue : Nat → Parse (Option Expr)
  | 0 => tooDeep
  | depth + 1 => do
    if ← accept .equal then
      let value ← expression depth
      pure (some value)
    else
      pure none

def classDeclaration : Nat → Parse Stmt
  | 0 => tooDeep
  | depth + 1 => do
    let name ← identifier "class name"
    let superclass ← superclassClause
    expect .leftBrace "'\x7b' before class body"
    let members ← members depth
    pure (.classDecl { name, superclass, fields := members.fields, methods := members.methods })

def members : Nat → Parse Members
  | 0 => tooDeep
  | depth + 1 => do
    if (← check .rightBrace) || (← atEnd) then
      expect .rightBrace "'\x7d' after class body"
      pure { fields := [], methods := [] }
    else
      let (visibility, dispatch) ← memberModifiers depth none none
      if ← accept .varWord then
        if dispatch ≠ .plain then
          failAt (← previous) .dispatchOnField
        else
          let first ← field depth visibility
          let rest ← members depth
          pure { rest with fields := first :: rest.fields }
      else if ← accept .fnWord then
        let function ← namedFunction depth "method"
        let rest ← members depth
        pure { rest with methods := { visibility, dispatch, function } :: rest.methods }
      else
        fail (.expected "field or method declaration")

def field : Nat → Visibility → Parse (FieldDecl Expr)
  | 0, _ => tooDeep
  | depth + 1, visibility => do
    let name ← identifier "field name"
    let typeHint ← typeHint depth
    let initial ← initialValue depth
    expect .semicolon "';' after field declaration"
    pure { name, visibility, typeHint, initial }

def statement : Nat → Parse Stmt
  | 0 => tooDeep
  | depth + 1 => do
    if ← accept .forWord then
      countedLoop depth
    else if ← accept .ifWord then
      branch depth
    else if ← accept .whileWord then
      expect .leftParen "'(' after 'while'"
      let condition ← expression depth
      expect .rightParen "')' after condition"
      let body ← statement depth
      pure (.loop condition body)
    else if ← accept .returnWord then
      let keyword ← previous
      let value ← optionalExpression depth .semicolon
      expect .semicolon "';' after return value"
      pure (.returnValue keyword.position value)
    else if ← accept .breakWord then
      let keyword ← previous
      expect .semicolon "';' after 'break'"
      pure (.breakLoop keyword.position)
    else if ← accept .continueWord then
      let keyword ← previous
      expect .semicolon "';' after 'continue'"
      pure (.continueLoop keyword.position)
    else if ← accept .leftBrace then
      let body ← block depth
      pure (.block body)
    else if ← accept .printWord then
      let keyword ← previous
      let values ← printed depth
      expect .semicolon "';' after value"
      pure (.print keyword.position values)
    else
      expressionStatement depth

/-- An expression, unless the given mark stands in its place. -/
def optionalExpression : Nat → Terminal → Parse (Option Expr)
  | 0, _ => tooDeep
  | depth + 1, mark => do
    if ← check mark then
      pure none
    else
      let value ← expression depth
      pure (some value)

def printed : Nat → Parse (List Expr)
  | 0 => tooDeep
  | depth + 1 => do
    let first ← expression depth
    if ← accept .comma then
      let rest ← printed depth
      pure (first :: rest)
    else
      pure [first]

def expressionStatement : Nat → Parse Stmt
  | 0 => tooDeep
  | depth + 1 => do
    let value ← expression depth
    expect .semicolon "';' after expression"
    pure (.expression value)

def countedLoop : Nat → Parse Stmt
  | 0 => tooDeep
  | depth + 1 => do
    expect .leftParen "'(' after 'for'"
    let initial ← loopInitial depth
    let condition ← optionalExpression depth .semicolon
    expect .semicolon "';' after loop condition"
    let increment ← optionalExpression depth .rightParen
    expect .rightParen "')' after for clauses"
    let body ← statement depth
    pure (.countedLoop initial condition increment body)

/-- What a loop begins with, up to and with its semicolon. -/
def loopInitial : Nat → Parse (Option Stmt)
  | 0 => tooDeep
  | depth + 1 => do
    if ← accept .semicolon then
      pure none
    else if ← accept .varWord then
      let initial ← varDeclaration depth
      pure (some initial)
    else
      let initial ← expressionStatement depth
      pure (some initial)

def branch : Nat → Parse Stmt
  | 0 => tooDeep
  | depth + 1 => do
    expect .leftParen "'(' after 'if'"
    let condition ← expression depth
    expect .rightParen "')' after condition"
    let whenTrue ← statement depth
    if ← accept .elseWord then
      let whenFalse ← statement depth
      pure (.branch condition whenTrue (some whenFalse))
    else
      pure (.branch condition whenTrue none)

end

def declarations : Nat → Parse (List Stmt)
  | 0 => tooDeep
  | depth + 1 => do
    if ← atEnd then
      pure []
    else
      let first ← declaration depth
      let rest ← declarations depth
      pure (first :: rest)

/-- One expression up to the end mark; a semicolon may follow it. -/
def loneExpression (depth : Nat) : Parse Expr := do
  let value ← expression depth
  let _ ← accept .semicolon
  if ← atEnd then
    pure value
  else
    fail (.expected "end of expression")

end ClassScript.Grammar
