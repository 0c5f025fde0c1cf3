import ClassScript.Position

/-!
The trees that program texts are read into: type names, expressions, statements and declarations.
References to variables, to `this`, to `super` and to a superclass carry a number of their own.
-/

set_option autoImplicit false

namespace ClassScript

abbrev RefId := Nat

structure Identifier where
  name : String
  position : Position
  deriving DecidableEq, Inhabited

/-- A type annotation, such as `Map<Text, List<Unit>>`; it has no effect on running a program. -/
structure TypeName where
  name : String
  arguments : List TypeName

inductive Literal where
  | number (value : Float)
  | text (value : String)
  | boolean (value : Bool)
  | nil

inductive UnaryOp where
  | negate
  | not
  deriving DecidableEq

/-- Operators between two operands that are both evaluated. -/
inductive BinaryOp where
  | add | subtract | multiply | divide | remainder
  | equal | notEqual | less | lessEqual | greater | greaterEqual
  deriving DecidableEq

/-- Operators whose second operand may be left out. -/
inductive LogicalOp where
  | and
  | or
  deriving DecidableEq

/-- Who may use a member. -/
inductive Visibility where
  | everyone
  | heirs
  | owner
  deriving DecidableEq

/-- What a method says about overriding. -/
inductive Dispatch where
  | plain
  | virtual
  | override
  deriving DecidableEq

def UnaryOp.symbol : UnaryOp → String
  | negate => "-"
  | not => "!"

def BinaryOp.symbol : BinaryOp → String
  | add => "+"
  | subtract => "-"
  | multiply => "*"
  | divide => "/"
  | remainder => "%"
  | equal => "=="
  | notEqual => "!="
  | less => "<"
  | lessEqual => "<="
  | greater => ">"
  | greaterEqual => ">="

def LogicalOp.symbol : LogicalOp → String
  | and => "and"
  | or => "or"

def Visibility.keyword : Visibility → String
  | everyone => "public"
  | heirs => "protected"
  | owner => "private"

mutual

def TypeName.text : TypeName → String
  | ⟨name, arguments⟩ =>
    match TypeName.texts arguments with
    | [] => name
    | texts => name ++ "<" ++ ", ".intercalate texts ++ ">"

def TypeName.texts : List TypeName → List String
  | [] => []
  | typeHint :: rest => typeHint.text :: TypeName.texts rest

end

structure Parameter where
  name : Identifier
  typeHint : Option TypeName

/-- A function whose body consists of `σ`. -/
structure FunctionDecl (σ : Type) where
  name : Identifier
  parameters : List Parameter
  returns : Option TypeName
  body : List σ

def FunctionDecl.arity {σ : Type} (decl : FunctionDecl σ) : Nat :=
  decl.parameters.length

structure FieldDecl (ε : Type) where
  name : Identifier
  visibility : Visibility
  typeHint : Option TypeName
  initial : Option ε

structure MethodDecl (σ : Type) where
  visibility : Visibility
  dispatch : Dispatch
  function : FunctionDecl σ

/-- The name of a superclass, a reference of its own. -/
structure SuperclassRef where
  id : RefId
  name : Identifier

/-- A class with fields initialised by `ε` and methods made of `σ`. -/
structure ClassDecl (ε σ : Type) where
  name : Identifier
  superclass : Option SuperclassRef
  fields : List (FieldDecl ε)
  methods : List (MethodDecl σ)

mutual

inductive Expr where
  | literal (value : Literal) (position : Position)
  | unary (operator : UnaryOp) (operand : Expr) (position : Position)
  | binary (left : Expr) (operator : BinaryOp) (right : Expr) (position : Position)
  | logical (left : Expr) (operator : LogicalOp) (right : Expr)
  | group (inner : Expr)
  | reference (id : RefId) (name : Identifier)
  | assign (id : RefId) (name : Identifier) (value : Expr)
  | call (callee : Expr) (position : Position) (arguments : List Expr)
  | property (object : Expr) (name : Identifier)
  | setProperty (object : Expr) (name : Identifier) (value : Expr)
  | index (object : Expr) (key : Expr) (position : Position)
  | setIndex (object : Expr) (key : Expr) (value : Expr) (position : Position)
  | array (elements : List Expr) (position : Position)
  | map (entries : List (Expr × Expr)) (position : Position)
  | this (id : RefId) (position : Position)
  | super (id : RefId) (position : Position) (method : Identifier)
  | lambda (decl : FunctionDecl Stmt)

inductive Stmt where
  | expression (value : Expr)
  | print (keyword : Position) (values : List Expr)
  | var (name : Identifier) (typeHint : Option TypeName) (initial : Option Expr)
  | block (body : List Stmt)
  | branch (condition : Expr) (whenTrue : Stmt) (whenFalse : Option Stmt)
  | loop (condition : Expr) (body : Stmt)
  | countedLoop (initial : Option Stmt) (condition : Option Expr) (increment : Option Expr)
      (body : Stmt)
  | function (decl : FunctionDecl Stmt)
  | returnValue (keyword : Position) (value : Option Expr)
  | breakLoop (keyword : Position)
  | continueLoop (keyword : Position)
  | classDecl (decl : ClassDecl Expr Stmt)

end

def Expr.position : Expr → Position
  | literal _ position | unary _ _ position | binary _ _ _ position | call _ position _
  | index _ _ position | setIndex _ _ _ position | array _ position | map _ position
  | this _ position | super _ position _ => position
  | logical left _ _ => left.position
  | group inner => inner.position
  | reference _ name | assign _ name _ | property _ name | setProperty _ name _ => name.position
  | lambda decl => decl.name.position

/-- The name of the method that sets up a new instance. -/
def constructorName : String := "init"

/-- The name that functions without a name of their own are shown under. -/
def lambdaName : String := "<lambda>"

end ClassScript
