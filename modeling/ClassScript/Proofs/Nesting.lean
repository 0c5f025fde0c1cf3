import ClassScript.Binding.Resolve

/-!
Where code stands in a text: the constructs around it, each with the names it has declared up to
that place, and the class whose text the code belongs to.
-/

set_option autoImplicit false

namespace ClassScript

inductive Body where
  | block (statements : List Stmt)
  | countedLoop (initial : Option Stmt) (condition increment : Option Expr) (body : Stmt)
  | function (decl : FunctionDecl Stmt)

/-- A construct that a scope is made for. -/
inductive Construct where
  | body (body : Body)
  /-- The superclass of the class, as its methods know it. -/
  | superclass (decl : ClassDecl Expr Stmt)
  /-- The instance that a method of the class is bound to. -/
  | receiver (decl : ClassDecl Expr Stmt)

/-- What stands around a place in a text, innermost first. -/
inductive Nesting where
  | top
  /-- A body, and the names it has declared so far with whether their initial values are
  complete. -/
  | inside (body : Body) (names : Dict Bool) (outer : Nesting)
  /-- The initial values of the fields of a class, which have no scope of their own. -/
  | fields (decl : ClassDecl Expr Stmt) (outer : Nesting)
  | methods (decl : ClassDecl Expr Stmt) (outer : Nesting)

def wordNames (word : String) : Dict Bool :=
  .ofList [(word, true)]

def declareNow (names : Dict Bool) (name : String) : Dict Bool :=
  (names.insert name false).insert name true

def parameterNames (parameters : List Parameter) : Dict Bool :=
  parameters.foldl (fun names parameter => declareNow names parameter.name.name) ∅

/-- How many scopes out a name is declared. -/
def depthOf (name : String) : List (Dict Bool) → Option Nat
  | [] => none
  | names :: outer =>
    if names.contains name then some 0 else (depthOf name outer).map (· + 1)

namespace Nesting

def layers : Nesting → List (Construct × Dict Bool)
  | top => []
  | inside body names outer => (.body body, names) :: outer.layers
  | fields _ outer => outer.layers
  | methods decl outer =>
    (.receiver decl, wordNames "this") ::
      match decl.superclass with
      | none => outer.layers
      | some _ => (.superclass decl, wordNames "super") :: outer.layers

def scopes (nesting : Nesting) : List (Dict Bool) :=
  nesting.layers.map Prod.snd

def depth? (nesting : Nesting) (name : String) : Option Nat :=
  depthOf name nesting.scopes

def owner : Nesting → Option (ClassDecl Expr Stmt)
  | top => none
  | inside _ _ outer => outer.owner
  | fields decl _ | methods decl _ => some decl

def classKind : Nesting → Binding.ClassKind
  | top => .none
  | inside _ _ outer | fields _ outer => outer.classKind
  | methods decl _ => if decl.superclass.isSome then .derived else .base

def declare (nesting : Nesting) (name : String) : Nesting :=
  match nesting with
  | inside body names outer => inside body (names.insert name false) outer
  | other => other

def define (nesting : Nesting) (name : String) : Nesting :=
  match nesting with
  | inside body names outer => inside body (names.insert name true) outer
  | other => other

def past (nesting : Nesting) : Stmt → Nesting
  | .var name _ _ => (nesting.declare name.name).define name.name
  | .function decl => (nesting.declare decl.name.name).define decl.name.name
  | .classDecl decl => (nesting.declare decl.name.name).define decl.name.name
  | _ => nesting

def pastOptional (nesting : Nesting) : Option Stmt → Nesting
  | none => nesting
  | some stmt => nesting.past stmt

def pastAll (nesting : Nesting) : List Stmt → Nesting
  | [] => nesting
  | stmt :: rest => (nesting.past stmt).pastAll rest

end Nesting

inductive Node where
  | expr (expr : Expr)
  | stmt (stmt : Stmt)

structure Site where
  nesting : Nesting
  node : Node

/-- All of the sites belong to a text, or are as a predicate says. -/
def Covered (text : Site → Prop) (sites : List Site) : Prop :=
  ∀ site ∈ sites, text site

theorem Covered.cons {text : Site → Prop} {site : Site} {sites : List Site}
    (covered : Covered text (site :: sites)) : text site ∧ Covered text sites :=
  List.forall_mem_cons.mp covered

theorem Covered.append {text : Site → Prop} {sites more : List Site}
    (covered : Covered text (sites ++ more)) : Covered text sites ∧ Covered text more :=
  List.forall_mem_append.mp covered

mutual

def exprSites (nesting : Nesting) : Expr → List Site
  | .literal value position => [⟨nesting, .expr (.literal value position)⟩]
  | .unary operator operand position =>
    ⟨nesting, .expr (.unary operator operand position)⟩ :: exprSites nesting operand
  | .binary left operator right position =>
    ⟨nesting, .expr (.binary left operator right position)⟩ ::
      (exprSites nesting left ++ exprSites nesting right)
  | .logical left operator right =>
    ⟨nesting, .expr (.logical left operator right)⟩ ::
      (exprSites nesting left ++ exprSites nesting right)
  | .group inner => ⟨nesting, .expr (.group inner)⟩ :: exprSites nesting inner
  | .reference id name => [⟨nesting, .expr (.reference id name)⟩]
  | .assign id name value =>
    ⟨nesting, .expr (.assign id name value)⟩ :: exprSites nesting value
  | .call callee position arguments =>
    ⟨nesting, .expr (.call callee position arguments)⟩ ::
      (exprSites nesting callee ++ exprsSites nesting arguments)
  | .property object name => ⟨nesting, .expr (.property object name)⟩ :: exprSites nesting object
  | .setProperty object name value =>
    ⟨nesting, .expr (.setProperty object name value)⟩ ::
      (exprSites nesting object ++ exprSites nesting value)
  | .index object key position =>
    ⟨nesting, .expr (.index object key position)⟩ ::
      (exprSites nesting object ++ exprSites nesting key)
  | .setIndex object key value position =>
    ⟨nesting, .expr (.setIndex object key value position)⟩ ::
      (exprSites nesting object ++ exprSites nesting key ++ exprSites nesting value)
  | .array elements position =>
    ⟨nesting, .expr (.array elements position)⟩ :: exprsSites nesting elements
  | .map entries position =>
    ⟨nesting, .expr (.map entries position)⟩ :: entriesSites nesting entries
  | .this id position => [⟨nesting, .expr (.this id position)⟩]
  | .super id position method => [⟨nesting, .expr (.super id position method)⟩]
  | .lambda decl => ⟨nesting, .expr (.lambda decl)⟩ :: functionSites nesting decl

def exprsSites (nesting : Nesting) : List Expr → List Site
  | [] => []
  | expr :: rest => exprSites nesting expr ++ exprsSites nesting rest

def entriesSites (nesting : Nesting) : List (Expr × Expr) → List Site
  | [] => []
  | (key, value) :: rest =>
    exprSites nesting key ++ exprSites nesting value ++ entriesSites nesting rest

def optionalSites (nesting : Nesting) : Option Expr → List Site
  | none => []
  | some expr => exprSites nesting expr

def functionSites (nesting : Nesting) : FunctionDecl Stmt → List Site
  | ⟨name, parameters, returns, body⟩ =>
    stmtsSites (.inside (.function ⟨name, parameters, returns, body⟩)
      (parameterNames parameters) nesting) body

def stmtSites (nesting : Nesting) : Stmt → List Site
  | .expression value => ⟨nesting, .stmt (.expression value)⟩ :: exprSites nesting value
  | .print keyword values => ⟨nesting, .stmt (.print keyword values)⟩ :: exprsSites nesting values
  | .var name typeHint initial =>
    ⟨nesting, .stmt (.var name typeHint initial)⟩ ::
      optionalSites (nesting.declare name.name) initial
  | .block body =>
    ⟨nesting, .stmt (.block body)⟩ :: stmtsSites (.inside (.block body) ∅ nesting) body
  | .branch condition whenTrue whenFalse =>
    ⟨nesting, .stmt (.branch condition whenTrue whenFalse)⟩ ::
      (exprSites nesting condition ++ stmtSites nesting whenTrue ++
        optionalStmtSites nesting whenFalse)
  | .loop condition body =>
    ⟨nesting, .stmt (.loop condition body)⟩ ::
      (exprSites nesting condition ++ stmtSites nesting body)
  | .countedLoop initial condition increment body =>
    let inner := Nesting.inside (.countedLoop initial condition increment body) ∅ nesting
    let begun := inner.pastOptional initial
    ⟨nesting, .stmt (.countedLoop initial condition increment body)⟩ ::
      (optionalStmtSites inner initial ++ optionalSites begun condition ++
        optionalSites begun increment ++ stmtSites begun body)
  | .function ⟨name, parameters, returns, body⟩ =>
    ⟨nesting, .stmt (.function ⟨name, parameters, returns, body⟩)⟩ ::
      functionSites (nesting.past (.function ⟨name, parameters, returns, body⟩))
        ⟨name, parameters, returns, body⟩
  | .returnValue keyword value =>
    ⟨nesting, .stmt (.returnValue keyword value)⟩ :: optionalSites nesting value
  | .breakLoop keyword => [⟨nesting, .stmt (.breakLoop keyword)⟩]
  | .continueLoop keyword => [⟨nesting, .stmt (.continueLoop keyword)⟩]
  | .classDecl ⟨name, superclass, fields, methods⟩ =>
    let decl : ClassDecl Expr Stmt := ⟨name, superclass, fields, methods⟩
    let declared := nesting.past (.classDecl decl)
    ⟨nesting, .stmt (.classDecl decl)⟩ ::
      (fieldsSites (.fields decl declared) fields ++ methodsSites (.methods decl declared) methods)

def stmtsSites (nesting : Nesting) : List Stmt → List Site
  | [] => []
  | stmt :: rest => stmtSites nesting stmt ++ stmtsSites (nesting.past stmt) rest

def optionalStmtSites (nesting : Nesting) : Option Stmt → List Site
  | none => []
  | some stmt => stmtSites nesting stmt

def fieldsSites (nesting : Nesting) : List (FieldDecl Expr) → List Site
  | [] => []
  | ⟨_, _, _, initial⟩ :: rest => optionalSites nesting initial ++ fieldsSites nesting rest

def methodsSites (nesting : Nesting) : List (MethodDecl Stmt) → List Site
  | [] => []
  | ⟨_, _, function⟩ :: rest => functionSites nesting function ++ methodsSites nesting rest

end

theorem mem_exprSites_self (nesting : Nesting) (expr : Expr) :
    ⟨nesting, .expr expr⟩ ∈ exprSites nesting expr := by
  cases expr <;> simp [exprSites]

theorem mem_stmtSites_self (nesting : Nesting) (stmt : Stmt) :
    ⟨nesting, .stmt stmt⟩ ∈ stmtSites nesting stmt := by
  cases stmt <;> simp [stmtSites]

end ClassScript
