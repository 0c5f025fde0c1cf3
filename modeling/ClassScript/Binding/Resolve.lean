import ClassScript.Binding.Scope

/-!
The walk through a program that binds references to declarations. It refuses a program that breaks
a rule of scoping, of classes or of control flow; otherwise it yields the depth of every reference
to a local name and the globals that the program declares.
-/

set_option autoImplicit false

namespace ClassScript.Binding

inductive FunctionKind where
  | none
  | function
  | method
  | initializer
  deriving DecidableEq

inductive ClassKind where
  | none
  | base
  | derived
  deriving DecidableEq

structure Place where
  function : FunctionKind
  classKind : ClassKind
  inLoop : Bool
  /-- The names the program declares at its top; function bodies may use them early. -/
  hoisted : Dict Unit

namespace Place

def top (hoisted : Dict Unit) : Place :=
  { function := .none, classKind := .none, inLoop := false, hoisted }

def loopBody (place : Place) : Place :=
  { place with inLoop := true }

def functionBody (place : Place) (kind : FunctionKind) : Place :=
  { place with function := kind, inLoop := false }

def methods (place : Place) (derived : Bool) : Place :=
  { place with classKind := if derived then .derived else .base }

end Place

/-- A walk: what is gathered afterwards, or a fault. -/
abbrev Walk := State → Except (Located Fault) State

def refuse (position : Position) (fault : Fault) : Except (Located Fault) State :=
  .error { value := fault, position }

/-- Bind a name to a local scope, or else to a global that is visible here. -/
def bindName (place : Place) (id : RefId) (name : Identifier) : Walk := fun state =>
  match state.bindLocal id name.name with
  | some bound => .ok bound
  | none =>
    if state.globals.contains name.name ||
        (place.function ≠ .none && place.hoisted.contains name.name) then
      .ok state
    else
      refuse name.position (.undefined name.name)

/-- Bind `this` or `super`, which stand in a local scope of their own. -/
def bindWord (id : RefId) (word : String) : Walk := fun state =>
  .ok ((state.bindLocal id word).getD state)

def declareParameters : List Parameter → Walk
  | [], state => .ok state
  | parameter :: rest, state => do
    let state ← state.declare parameter.name
    declareParameters rest (state.define parameter.name.name)

def firstRepeated (seen : List String) : List Identifier → Option Identifier
  | [] => none
  | identifier :: rest =>
    if identifier.name ∈ seen then some identifier
    else firstRepeated (identifier.name :: seen) rest

/-- The superclasses of a class, as far as they are known. -/
inductive Ancestry where
  /-- All ancestors, nearest first. -/
  | known (ancestors : List Outline)
  /-- A superclass that is not known to be a class. -/
  | unknown
  | cycle

def Ancestry.cons (outline : Outline) : Ancestry → Ancestry
  | known ancestors => known (outline :: ancestors)
  | unknown => unknown
  | cycle => cycle

/-- Follow superclass names from here. No more steps are needed than there are classes, unless a
name comes up again. -/
def ancestry (state : State) : Nat → List String → Option String → Ancestry
  | _, _, none => .known []
  | 0, _, some _ => .cycle
  | steps + 1, seen, some parent =>
    if parent ∈ seen then .cycle
    else
      match state.outline? parent with
      | none => .unknown
      | some outline => (ancestry state steps (parent :: seen) outline.superclass).cons outline

def firstUnfounded (ancestors : List Outline) : List (MethodDecl Stmt) → Option Identifier
  | [] => none
  | method :: rest =>
    let name := method.function.name
    if method.dispatch = .override && !ancestors.any (fun outline => name.name ∈ outline.methods)
    then some name
    else firstUnfounded ancestors rest

def checkInheritance (decl : ClassDecl Expr Stmt) : Walk := fun state =>
  let parent := decl.superclass.map fun parent => parent.name
  match ancestry state (state.classCount + 1) [decl.name.name] (parent.map Identifier.name) with
  | .cycle => refuse (parent.getD decl.name).position (.inheritanceCycle decl.name.name)
  | .unknown => .ok state
  | .known ancestors =>
    match firstUnfounded ancestors decl.methods with
    | some method => refuse method.position (.nothingToOverride method.name decl.name.name)
    | none => .ok state

/-- Everything about a class declaration that comes before its members are walked through. -/
def declareClass (place : Place) (decl : ClassDecl Expr Stmt) : Walk := fun state => do
  let methods := decl.methods.map fun method => method.function.name
  if let some method := firstRepeated [] methods then
    refuse method.position (.methodTwice method.name decl.name.name)
  else if let some field := firstRepeated [] (decl.fields.map FieldDecl.name) then
    refuse field.position (.fieldTwice field.name decl.name.name)
  else
    let state ← match decl.superclass with
      | none => .ok state
      | some parent =>
        if parent.name.name = decl.name.name then refuse parent.name.position .selfInheritance
        else bindName place parent.id parent.name state
    let state ← state.declare decl.name
    let outline : Outline :=
      { superclass := decl.superclass.map fun parent => parent.name.name
        methods := methods.map Identifier.name }
    checkInheritance decl ((state.define decl.name.name).recordClass decl.name.name outline)

def methodKind (name : String) : FunctionKind :=
  if name = constructorName then .initializer else .method

mutual

def resolveExpr (place : Place) : Expr → Walk
  | .literal _ _, state => .ok state
  | .unary _ operand _, state => resolveExpr place operand state
  | .binary left _ right _, state => do
    let state ← resolveExpr place left state
    resolveExpr place right state
  | .logical left _ right, state => do
    let state ← resolveExpr place left state
    resolveExpr place right state
  | .group inner, state => resolveExpr place inner state
  | .reference id name, state =>
    if state.isIncomplete name.name then refuse name.position (.ownInitializer name.name)
    else bindName place id name state
  | .assign id name value, state => do
    let state ← resolveExpr place value state
    bindName place id name state
  | .call callee _ arguments, state => do
    let state ← resolveExpr place callee state
    resolveExprs place arguments state
  | .property object _, state => resolveExpr place object state
  | .setProperty object _ value, state => do
    let state ← resolveExpr place object state
    resolveExpr place value state
  | .index object key _, state => do
    let state ← resolveExpr place object state
    resolveExpr place key state
  | .setIndex object key value _, state => do
    let state ← resolveExpr place object state
    let state ← resolveExpr place key state
    resolveExpr place value state
  | .array elements _, state => resolveExprs place elements state
  | .map entries _, state => resolveEntries place entries state
  | .this id position, state =>
    match place.classKind with
    | .none => refuse position .thisOutsideClass
    | _ => bindWord id "this" state
  | .super id position _, state =>
    match place.classKind with
    | .none => refuse position .superOutsideClass
    | .base => refuse position .superWithoutSuperclass
    | .derived => bindWord id "super" state
  | .lambda decl, state => resolveFunction place .function decl state

def resolveExprs (place : Place) : List Expr → Walk
  | [], state => .ok state
  | expr :: rest, state => do
    let state ← resolveExpr place expr state
    resolveExprs place rest state

def resolveEntries (place : Place) : List (Expr × Expr) → Walk
  | [], state => .ok state
  | (key, value) :: rest, state => do
    let state ← resolveExpr place key state
    let state ← resolveExpr place value state
    resolveEntries place rest state

def resolveOptional (place : Place) : Option Expr → Walk
  | none, state => .ok state
  | some expr, state => resolveExpr place expr state

/-- Walk through a function: its parameters and its body share a scope. -/
def resolveFunction (place : Place) (kind : FunctionKind) : FunctionDecl Stmt → Walk
  | ⟨_, parameters, _, body⟩, state => do
    let state ← declareParameters parameters (state.enter [])
    let state ← resolveStmts (place.functionBody kind) body state
    .ok state.leave

def resolveStmt (place : Place) : Stmt → Walk
  | .expression value, state => resolveExpr place value state
  | .print _ values, state => resolveExprs place values state
  | .var name _ initial, state =>
    match state.scopes with
    | [] => do
      let state ← resolveOptional place initial state
      state.declare name
    | _ :: _ => do
      let state ← state.declare name
      let state ← resolveOptional place initial state
      .ok (state.define name.name)
  | .block body, state => do
    let state ← resolveStmts place body (state.enter [])
    .ok state.leave
  | .branch condition whenTrue whenFalse, state => do
    let state ← resolveExpr place condition state
    let state ← resolveStmt place whenTrue state
    resolveOptionalStmt place whenFalse state
  | .loop condition body, state => do
    let state ← resolveExpr place condition state
    resolveStmt place.loopBody body state
  | .countedLoop initial condition increment body, state => do
    let state ← resolveOptionalStmt place initial (state.enter [])
    let state ← resolveOptional place condition state
    let state ← resolveOptional place increment state
    let state ← resolveStmt place.loopBody body state
    .ok state.leave
  | .function ⟨name, parameters, returns, body⟩, state => do
    let state ← state.declare name
    resolveFunction place .function ⟨name, parameters, returns, body⟩ (state.define name.name)
  | .returnValue keyword value, state =>
    match place.function, value with
    | .none, _ => refuse keyword .returnAtTop
    | .initializer, some _ => refuse keyword .valueFromInitializer
    | _, _ => resolveOptional place value state
  | .breakLoop keyword, state =>
    if place.inLoop then .ok state else refuse keyword .breakOutsideLoop
  | .continueLoop keyword, state =>
    if place.inLoop then .ok state else refuse keyword .continueOutsideLoop
  | .classDecl ⟨name, superclass, fields, methods⟩, state => do
    let state ← declareClass place ⟨name, superclass, fields, methods⟩ state
    let state ← resolveFields place fields state
    let derived := superclass.isSome
    let state := if derived then state.enter ["super"] else state
    let state ← resolveMethods (place.methods derived) methods (state.enter ["this"])
    .ok (if derived then state.leave.leave else state.leave)

def resolveStmts (place : Place) : List Stmt → Walk
  | [], state => .ok state
  | stmt :: rest, state => do
    let state ← resolveStmt place stmt state
    resolveStmts place rest state

def resolveOptionalStmt (place : Place) : Option Stmt → Walk
  | none, state => .ok state
  | some stmt, state => resolveStmt place stmt state

/-- Walk through the initial values of fields, which stand in the scope around the class. -/
def resolveFields (place : Place) : List (FieldDecl Expr) → Walk
  | [], state => .ok state
  | ⟨_, _, _, initial⟩ :: rest, state => do
    let state ← resolveOptional place initial state
    resolveFields place rest state

def resolveMethods (place : Place) : List (MethodDecl Stmt) → Walk
  | [], state => .ok state
  | ⟨_, _, ⟨name, parameters, returns, body⟩⟩ :: rest, state => do
    let state ←
      resolveFunction place (methodKind name.name) ⟨name, parameters, returns, body⟩ state
    resolveMethods place rest state

end

structure Resolution where
  depths : Depths
  globals : Globals

def declaredName? : Stmt → Option String
  | .var name _ _ => some name.name
  | .function decl => some decl.name.name
  | .classDecl decl => some decl.name.name
  | _ => none

def hoistedNames (program : List Stmt) : Dict Unit :=
  .ofList ((program.filterMap declaredName?).map fun name => (name, ()))

def resolveProgram (globals : Globals) (program : List Stmt) :
    Except (Located Fault) Resolution := do
  let state ← resolveStmts (.top (hoistedNames program)) program (.start globals)
  .ok { depths := state.depths, globals := state.globals }

def resolveLone (globals : Globals) (expr : Expr) : Except (Located Fault) Resolution := do
  let state ← resolveExpr (.top ∅) expr (.start globals)
  .ok { depths := state.depths, globals := state.globals }

end ClassScript.Binding
