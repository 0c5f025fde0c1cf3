import ClassScript.Document
import ClassScript.Syntax

/-!
Trees as documents: each node is a record under its own name, with its parts as fields.
-/

set_option autoImplicit false

namespace ClassScript

def Document.node (name : String) (content : Document) : Document :=
  .record [(name, content)]

def Position.document (p : Position) : Document :=
  .record [("line", .natural p.line), ("column", .natural p.column)]

def Identifier.document (identifier : Identifier) : Document :=
  .record [("name", .text identifier.name), ("position", identifier.position.document)]

mutual

def TypeName.document : TypeName → Document
  | ⟨name, arguments⟩ =>
    .record [("name", .text name), ("arguments", .list (TypeName.documents arguments))]

def TypeName.documents : List TypeName → List Document
  | [] => []
  | typeHint :: rest => typeHint.document :: TypeName.documents rest

end

def TypeName.optionalDocument : Option TypeName → Document
  | none => .null
  | some typeHint => typeHint.document

def Literal.document : Literal → Document
  | number value => .node "Number" (.number value)
  | text value => .node "Str" (.text value)
  | boolean value => .node "Bool" (.boolean value)
  | nil => .text "Nil"

def UnaryOp.document : UnaryOp → Document
  | negate => .text "Negate"
  | not => .text "Not"

def BinaryOp.document : BinaryOp → Document
  | add => .text "Add"
  | subtract => .text "Subtract"
  | multiply => .text "Multiply"
  | divide => .text "Divide"
  | remainder => .text "Remainder"
  | equal => .text "Equal"
  | notEqual => .text "NotEqual"
  | less => .text "Less"
  | lessEqual => .text "LessEqual"
  | greater => .text "Greater"
  | greaterEqual => .text "GreaterEqual"

def LogicalOp.document : LogicalOp → Document
  | and => .text "And"
  | or => .text "Or"

def Visibility.document : Visibility → Document
  | everyone => .text "Public"
  | heirs => .text "Protected"
  | owner => .text "Private"

def Dispatch.document : Dispatch → Document
  | plain => .text "None"
  | virtual => .text "Virtual"
  | override => .text "Override"

def Parameter.document (parameter : Parameter) : Document :=
  .record [
    ("name", parameter.name.document),
    ("ty", TypeName.optionalDocument parameter.typeHint)]

def SuperclassRef.optionalDocument : Option SuperclassRef → Document
  | none => .null
  | some parent => .record [("id", .natural parent.id), ("name", parent.name.document)]

mutual

def Expr.document : Expr → Document
  | .literal value position =>
    .node "Literal" (.record [("value", value.document), ("position", position.document)])
  | .unary operator operand position =>
    .node "Unary" (.record [
      ("operator", operator.document),
      ("right", operand.document),
      ("position", position.document)])
  | .binary left operator right position =>
    .node "Binary" (.record [
      ("left", left.document),
      ("operator", operator.document),
      ("right", right.document),
      ("position", position.document)])
  | .logical left operator right =>
    .node "Logical" (.record [
      ("left", left.document),
      ("operator", operator.document),
      ("right", right.document)])
  | .group inner => .node "Grouping" inner.document
  | .reference id name =>
    .node "Variable" (.record [("id", .natural id), ("name", name.document)])
  | .assign id name value =>
    .node "Assign" (.record [
      ("id", .natural id),
      ("name", name.document),
      ("value", value.document)])
  | .call callee position arguments =>
    .node "Call" (.record [
      ("callee", callee.document),
      ("position", position.document),
      ("arguments", .list (Expr.documents arguments))])
  | .property object name =>
    .node "Get" (.record [("object", object.document), ("name", name.document)])
  | .setProperty object name value =>
    .node "Set" (.record [
      ("object", object.document),
      ("name", name.document),
      ("value", value.document)])
  | .index object key position =>
    .node "Index" (.record [
      ("object", object.document),
      ("index", key.document),
      ("position", position.document)])
  | .setIndex object key value position =>
    .node "SetIndex" (.record [
      ("object", object.document),
      ("index", key.document),
      ("value", value.document),
      ("position", position.document)])
  | .array elements position =>
    .node "Array" (.record [
      ("elements", .list (Expr.documents elements)),
      ("position", position.document)])
  | .map entries position =>
    .node "Map" (.record [
      ("entries", .list (Expr.entryDocuments entries)),
      ("position", position.document)])
  | .this id position =>
    .node "This" (.record [("id", .natural id), ("position", position.document)])
  | .super id position method =>
    .node "Super" (.record [
      ("id", .natural id),
      ("position", position.document),
      ("method", method.document)])
  | .lambda decl => .node "Lambda" (Stmt.functionDocument decl)

def Expr.documents : List Expr → List Document
  | [] => []
  | expr :: rest => expr.document :: Expr.documents rest

/-- Map entries as documents: lists of key and value. -/
def Expr.entryDocuments : List (Expr × Expr) → List Document
  | [] => []
  | (key, value) :: rest => .list [key.document, value.document] :: Expr.entryDocuments rest

def Expr.optionalDocument : Option Expr → Document
  | none => .null
  | some expr => expr.document

def Stmt.document : Stmt → Document
  | .expression value => .node "Expression" value.document
  | .print keyword values =>
    .node "Print" (.record [
      ("keyword", keyword.document),
      ("values", .list (Expr.documents values))])
  | .var name typeHint initial =>
    .node "Var" (.record [
      ("name", name.document),
      ("ty", TypeName.optionalDocument typeHint),
      ("initializer", Expr.optionalDocument initial)])
  | .block body => .node "Block" (.list (Stmt.documents body))
  | .branch condition whenTrue whenFalse =>
    .node "If" (.record [
      ("condition", condition.document),
      ("then_branch", whenTrue.document),
      ("else_branch", Stmt.optionalDocument whenFalse)])
  | .loop condition body =>
    .node "While" (.record [("condition", condition.document), ("body", body.document)])
  | .countedLoop initial condition increment body =>
    .node "For" (.record [
      ("initializer", Stmt.optionalDocument initial),
      ("condition", Expr.optionalDocument condition),
      ("increment", Expr.optionalDocument increment),
      ("body", body.document)])
  | .function decl => .node "Function" (Stmt.functionDocument decl)
  | .returnValue keyword value =>
    .node "Return" (.record [
      ("keyword", keyword.document),
      ("value", Expr.optionalDocument value)])
  | .breakLoop keyword => .node "Break" keyword.document
  | .continueLoop keyword => .node "Continue" keyword.document
  | .classDecl ⟨name, superclass, fields, methods⟩ =>
    .node "Class" (.record [
      ("name", name.document),
      ("superclass", SuperclassRef.optionalDocument superclass),
      ("fields", .list (Stmt.fieldDocuments fields)),
      ("methods", .list (Stmt.methodDocuments methods))])

def Stmt.documents : List Stmt → List Document
  | [] => []
  | stmt :: rest => stmt.document :: Stmt.documents rest

def Stmt.optionalDocument : Option Stmt → Document
  | none => .null
  | some stmt => stmt.document

def Stmt.functionDocument : FunctionDecl Stmt → Document
  | ⟨name, parameters, returns, body⟩ =>
    .record [
      ("name", name.document),
      ("params", .list (parameters.map Parameter.document)),
      ("return_type", TypeName.optionalDocument returns),
      ("body", .list (Stmt.documents body))]

def Stmt.fieldDocuments : List (FieldDecl Expr) → List Document
  | [] => []
  | ⟨name, visibility, typeHint, initial⟩ :: rest =>
    .record [
      ("name", name.document),
      ("visibility", visibility.document),
      ("ty", TypeName.optionalDocument typeHint),
      ("initializer", Expr.optionalDocument initial)] :: Stmt.fieldDocuments rest

def Stmt.methodDocuments : List (MethodDecl Stmt) → List Document
  | [] => []
  | ⟨visibility, dispatch, function⟩ :: rest =>
    .record [
      ("visibility", visibility.document),
      ("modifier", dispatch.document),
      ("function", Stmt.functionDocument function)] :: Stmt.methodDocuments rest

end

end ClassScript
