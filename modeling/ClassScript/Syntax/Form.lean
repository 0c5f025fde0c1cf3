import ClassScript.Number
import ClassScript.Syntax

/-!
Trees as bracketed forms with the operator in front, one line a tree.
-/

set_option autoImplicit false

namespace ClassScript

/-- A literal, strings without quotes. -/
def Literal.form : Literal → String
  | number value => Number.literalText value
  | text value => value
  | boolean value => if value then "true" else "false"
  | nil => "nil"

/-- How a method's visibility and dispatch are noted. -/
def MethodDecl.tag {σ : Type} (method : MethodDecl σ) : String :=
  method.visibility.keyword ++
    match method.dispatch with
    | .plain => ""
    | .virtual => " virtual"
    | .override => " override"

mutual

def Expr.form : Expr → String
  | .literal value _ => value.form
  | .unary operator operand _ => "(" ++ operator.symbol ++ " " ++ operand.form ++ ")"
  | .binary left operator right _ =>
    "(" ++ operator.symbol ++ " " ++ left.form ++ " " ++ right.form ++ ")"
  | .logical left operator right =>
    "(" ++ operator.symbol ++ " " ++ left.form ++ " " ++ right.form ++ ")"
  | .group inner => "(group " ++ inner.form ++ ")"
  | .reference _ name => name.name
  | .assign _ name value => "(= " ++ name.name ++ " " ++ value.form ++ ")"
  | .call callee _ arguments => "(call " ++ callee.form ++ Expr.forms arguments ++ ")"
  | .property object name => "(. " ++ object.form ++ " " ++ name.name ++ ")"
  | .setProperty object name value =>
    "(= (. " ++ object.form ++ " " ++ name.name ++ ") " ++ value.form ++ ")"
  | .index object key _ => "([] " ++ object.form ++ " " ++ key.form ++ ")"
  | .setIndex object key value _ =>
    "(= ([] " ++ object.form ++ " " ++ key.form ++ ") " ++ value.form ++ ")"
  | .array elements _ => "(array" ++ Expr.forms elements ++ ")"
  | .map entries _ => "(map" ++ Expr.entryForms entries ++ ")"
  | .this _ _ => "this"
  | .super _ _ method => "(super " ++ method.name ++ ")"
  | .lambda decl => Stmt.functionForm "lambda" decl

def Expr.forms : List Expr → String
  | [] => ""
  | expr :: rest => " " ++ expr.form ++ Expr.forms rest

def Expr.entryForms : List (Expr × Expr) → String
  | [] => ""
  | (key, value) :: rest =>
    " (" ++ key.form ++ " " ++ value.form ++ ")" ++ Expr.entryForms rest

def Expr.formOr (absent : String) : Option Expr → String
  | none => absent
  | some expr => expr.form

def Expr.optionalForm : Option Expr → String
  | none => ""
  | some expr => " " ++ expr.form

def Stmt.form : Stmt → String
  | .expression value => "(; " ++ value.form ++ ")"
  | .print _ values => "(print" ++ Expr.forms values ++ ")"
  | .var name _ initial => "(var " ++ name.name ++ Expr.optionalForm initial ++ ")"
  | .block body => "(block" ++ Stmt.forms body ++ ")"
  | .branch condition whenTrue whenFalse =>
    "(if " ++ condition.form ++ " " ++ whenTrue.form ++ Stmt.optionalForm whenFalse ++ ")"
  | .loop condition body => "(while " ++ condition.form ++ " " ++ body.form ++ ")"
  | .countedLoop initial condition increment body =>
    "(for " ++ Stmt.formOr "_" initial ++ " " ++ Expr.formOr "_" condition ++ " " ++
      Expr.formOr "_" increment ++ " " ++ body.form ++ ")"
  | .function decl => Stmt.functionForm "fn" decl
  | .returnValue _ value => "(return" ++ Expr.optionalForm value ++ ")"
  | .breakLoop _ => "(break)"
  | .continueLoop _ => "(continue)"
  | .classDecl ⟨name, superclass, fields, methods⟩ =>
    "(class " ++ name.name ++
      (match superclass with
        | none => ""
        | some parent => " < " ++ parent.name.name) ++
      Stmt.fieldForms fields ++ Stmt.methodForms methods ++ ")"

def Stmt.forms : List Stmt → String
  | [] => ""
  | stmt :: rest => " " ++ stmt.form ++ Stmt.forms rest

def Stmt.formOr (absent : String) : Option Stmt → String
  | none => absent
  | some stmt => stmt.form

def Stmt.optionalForm : Option Stmt → String
  | none => ""
  | some stmt => " " ++ stmt.form

def Stmt.functionForm (tag : String) : FunctionDecl Stmt → String
  | ⟨name, parameters, _, body⟩ =>
    "(" ++ tag ++ " " ++ name.name ++ " (" ++
      " ".intercalate (parameters.map fun parameter => parameter.name.name) ++ ")" ++
      Stmt.forms body ++ ")"

def Stmt.fieldForms : List (FieldDecl Expr) → String
  | [] => ""
  | ⟨name, visibility, _, initial⟩ :: rest =>
    " (" ++ visibility.keyword ++ " var " ++ name.name ++ Expr.optionalForm initial ++ ")" ++
      Stmt.fieldForms rest

def Stmt.methodForms : List (MethodDecl Stmt) → String
  | [] => ""
  | ⟨visibility, dispatch, function⟩ :: rest =>
    " (" ++ MethodDecl.tag ⟨visibility, dispatch, function⟩ ++ " " ++
      Stmt.functionForm "fn" function ++ ")" ++ Stmt.methodForms rest

end

end ClassScript
