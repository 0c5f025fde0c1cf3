import ClassScript.Proofs.ReaderRules

/-!
Trees without positions.
-/

set_option autoImplicit false

namespace ClassScript

def Token.unplaced (token : Token) : Token :=
  { token with position := .start }

def Identifier.unplaced (name : Identifier) : Identifier :=
  { name with position := .start }

def Parameter.unplaced (parameter : Parameter) : Parameter :=
  { parameter with name := parameter.name.unplaced }

def SuperclassRef.unplaced (superclass : SuperclassRef) : SuperclassRef :=
  { superclass with name := superclass.name.unplaced }

mutual

def Expr.unplaced : Expr → Expr
  | .literal value _ => .literal value .start
  | .unary operator operand _ => .unary operator operand.unplaced .start
  | .binary left operator right _ => .binary left.unplaced operator right.unplaced .start
  | .logical left operator right => .logical left.unplaced operator right.unplaced
  | .group inner => .group inner.unplaced
  | .reference id name => .reference id name.unplaced
  | .assign id name value => .assign id name.unplaced value.unplaced
  | .call callee _ arguments => .call callee.unplaced .start (unplacedExprs arguments)
  | .property object name => .property object.unplaced name.unplaced
  | .setProperty object name value => .setProperty object.unplaced name.unplaced value.unplaced
  | .index object key _ => .index object.unplaced key.unplaced .start
  | .setIndex object key value _ => .setIndex object.unplaced key.unplaced value.unplaced .start
  | .array elements _ => .array (unplacedExprs elements) .start
  | .map entries _ => .map (unplacedEntries entries) .start
  | .this id _ => .this id .start
  | .super id _ method => .super id .start method.unplaced
  | .lambda decl => .lambda (unplacedFunction decl)

def unplacedExprs : List Expr → List Expr
  | [] => []
  | expr :: rest => expr.unplaced :: unplacedExprs rest

def unplacedEntries : List (Expr × Expr) → List (Expr × Expr)
  | [] => []
  | (key, value) :: rest => (key.unplaced, value.unplaced) :: unplacedEntries rest

def unplacedOptional : Option Expr → Option Expr
  | none => none
  | some expr => some expr.unplaced

def unplacedFunction : FunctionDecl Stmt → FunctionDecl Stmt
  | ⟨name, parameters, returns, body⟩ =>
    { name := name.unplaced
      parameters := parameters.map Parameter.unplaced
      returns
      body := unplacedStmts body }

def Stmt.unplaced : Stmt → Stmt
  | .expression value => .expression value.unplaced
  | .print _ values => .print .start (unplacedExprs values)
  | .var name typeHint initial => .var name.unplaced typeHint (unplacedOptional initial)
  | .block body => .block (unplacedStmts body)
  | .branch condition whenTrue whenFalse =>
    .branch condition.unplaced whenTrue.unplaced (unplacedOptionalStmt whenFalse)
  | .loop condition body => .loop condition.unplaced body.unplaced
  | .countedLoop initial condition increment body =>
    .countedLoop (unplacedOptionalStmt initial) (unplacedOptional condition)
      (unplacedOptional increment) body.unplaced
  | .function decl => .function (unplacedFunction decl)
  | .returnValue _ value => .returnValue .start (unplacedOptional value)
  | .breakLoop _ => .breakLoop .start
  | .continueLoop _ => .continueLoop .start
  | .classDecl ⟨name, superclass, fields, methods⟩ =>
    .classDecl {
      name := name.unplaced
      superclass := superclass.map SuperclassRef.unplaced
      fields := unplacedFields fields
      methods := unplacedMethods methods }

def unplacedStmts : List Stmt → List Stmt
  | [] => []
  | stmt :: rest => stmt.unplaced :: unplacedStmts rest

def unplacedOptionalStmt : Option Stmt → Option Stmt
  | none => none
  | some stmt => some stmt.unplaced

def unplacedFields : List (FieldDecl Expr) → List (FieldDecl Expr)
  | [] => []
  | ⟨name, visibility, typeHint, initial⟩ :: rest =>
    { name := name.unplaced, visibility, typeHint, initial := unplacedOptional initial } ::
      unplacedFields rest

def unplacedMethods : List (MethodDecl Stmt) → List (MethodDecl Stmt)
  | [] => []
  | ⟨visibility, dispatch, function⟩ :: rest =>
    { visibility, dispatch, function := unplacedFunction function } :: unplacedMethods rest

end

def Grammar.Members.unplaced (members : Grammar.Members) : Grammar.Members where
  fields := unplacedFields members.fields
  methods := unplacedMethods members.methods

theorem length_unplacedExprs (exprs : List Expr) : (unplacedExprs exprs).length = exprs.length := by
  induction exprs with
  | nil => rw [unplacedExprs]
  | cons expr rest ih => simp [unplacedExprs, ih]

namespace Phrase

open Grammar

theorem unplaced_joined (left : Expr) (position : Position) (right : Expr) (operator : Operator) :
    (joined left position right operator).unplaced =
      joined left.unplaced .start right.unplaced operator := by
  cases operator <;> simp only [joined, Expr.unplaced]

theorem unplaced_assigned (abbreviated : Option BinaryOp) (target : Expr) (mark : Token)
    (right : Expr) :
    (assigned abbreviated target mark right).unplaced =
      assigned abbreviated target.unplaced mark.unplaced right.unplaced := by
  cases abbreviated <;> simp only [assigned, Expr.unplaced, Token.unplaced]

end Phrase

end ClassScript
