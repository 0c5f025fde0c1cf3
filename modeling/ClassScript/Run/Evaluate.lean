import ClassScript.Run.Access
import ClassScript.Run.Operator

/-!
Evaluation of expressions and execution of statements. Every rule takes a number of steps and hands
one step less to the rules below it, so that evaluation is a total function; an answer that is found
within some number of steps is found within any larger number.
-/

set_option autoImplicit false

namespace ClassScript.Run

open Eval

/-- What execution of a statement leads to. -/
inductive Flow where
  | normal
  | returned (value : Value)
  | broken
  | continued

def bindParameters (parameters : List Parameter) (arguments : List Value) : Dict Value :=
  .ofList ((parameters.map fun parameter => parameter.name.name).zip arguments)

/-- What a call of a function yields once its body has been executed. -/
def callResult (closure : Closure) (flow : Flow) : Eval Value :=
  if closure.isInitializer then
    inspect fun store => (store.getHere? closure.scope Store.thisName).getD .nil
  else
    match flow with
    | .returned value => pure value
    | _ => pure .nil

mutual

def evaluate (rules : Rules) : Nat → Expr → Eval Value
  | 0, _ => exhaust
  | steps + 1, expr =>
    match expr with
    | .literal value _ => pure (.ofLiteral value)
    | .unary operator operand position => do
      let value ← evaluate rules steps operand
      attempt position (applyUnary operator value)
    | .binary left operator right position => do
      let first ← evaluate rules steps left
      let second ← evaluate rules steps right
      attempt position (applyBinary operator first second)
    | .logical left operator right => do
      let first ← evaluate rules steps left
      let holds ← attempt left.position (truth first)
      if decides operator holds then pure first else evaluate rules steps right
    | .group inner => evaluate rules steps inner
    | .reference id name => readVariable rules id name
    | .assign id name value => do
      let value ← evaluate rules steps value
      writeVariable rules id name value
      pure value
    | .call callee position arguments => do
      let callee ← evaluate rules steps callee
      let arguments ← evaluateAll rules steps arguments
      call rules steps callee arguments position
    | .property object name => do
      match ← evaluate rules steps object with
      | .object ref => readProperty ref name
      | other => fail name.position (.propertyOf name.name other.kind)
    | .setProperty object name value => do
      match ← evaluate rules steps object with
      | .object ref =>
        let value ← evaluate rules steps value
        writeProperty ref name value
        pure value
      | other => fail name.position (.fieldOf other.kind)
    | .index object key position => do
      let object ← evaluate rules steps object
      let key ← evaluate rules steps key
      let result ← inspect fun store => readIndex store object key
      attempt position result
    | .setIndex object key value position => do
      let object ← evaluate rules steps object
      let key ← evaluate rules steps key
      let value ← evaluate rules steps value
      assignIndex object key value position
      pure value
    | .array elements _ => do
      let items ← evaluateAll rules steps elements
      let ref ← add fun store => store.addArray items.toArray
      pure (.array ref)
    | .map entries _ => do
      let entries ← evaluateEntries rules steps entries ∅
      let ref ← add fun store => store.addMap entries
      pure (.map ref)
    | .this id position => readThis rules id position
    | .super id position method => readSuper rules id position method
    | .lambda decl => makeFunction decl

def evaluateAll (rules : Rules) : Nat → List Expr → Eval (List Value)
  | 0, _ => exhaust
  | _ + 1, [] => pure []
  | steps + 1, expr :: rest => do
    let first ← evaluate rules steps expr
    let others ← evaluateAll rules steps rest
    pure (first :: others)

/-- Evaluate expressions in order, and show each value before the next one is evaluated. -/
def evaluateShown (rules : Rules) : Nat → List Expr → Eval (List String)
  | 0, _ => exhaust
  | _ + 1, [] => pure []
  | steps + 1, expr :: rest => do
    let value ← evaluate rules steps expr
    let first ← shown value
    let others ← evaluateShown rules steps rest
    pure (first :: others)

/-- Evaluate the entries of a map in order; of two with one key the later one stays. -/
def evaluateEntries (rules : Rules) : Nat → List (Expr × Expr) → Dict Value → Eval (Dict Value)
  | 0, _, _ => exhaust
  | _ + 1, [], done => pure done
  | steps + 1, (key, value) :: rest, done => do
    let name ← evaluate rules steps key
    let name ← attempt key.position (mapKey name)
    let value ← evaluate rules steps value
    evaluateEntries rules steps rest (done.insert name value)

/-- Evaluate an expression that may be left out; then it stands for `nil`. -/
def evaluateOptional (rules : Rules) : Nat → Option Expr → Eval Value
  | 0, _ => exhaust
  | _ + 1, none => pure .nil
  | steps + 1, some expr => evaluate rules steps expr

def call (rules : Rules) : Nat → Value → List Value → Position → Eval Value
  | 0, _, _, _ => exhaust
  | steps + 1, callee, arguments, position =>
    match callee with
    | .builtin which => do
      checkArity which.arity arguments.length position
      applyBuiltin rules which arguments position
    | .function ref => do
      match ← inspect fun store => store.functions[ref]? with
      | some closure => callClosure rules steps closure arguments position
      | none => fail position (.notCallable .function)
    | .classObject ref => instantiate rules steps ref arguments position
    | other => fail position (.notCallable other.kind)

/-- Call a function: its parameters live in a new scope inside the one it was made in. -/
def callClosure (rules : Rules) : Nat → Closure → List Value → Position → Eval Value
  | 0, _, _, _ => exhaust
  | steps + 1, closure, arguments, position => do
    checkArity closure.decl.arity arguments.length position
    let caller ← frame
    if rules.maxDepth ≤ caller.depth then
      fail position (.callDepth rules.maxDepth closure.decl.name.name)
    else
      let bindings := bindParameters closure.decl.parameters arguments
      let scope ← add fun store => store.addScope { bindings, enclosing := some closure.scope }
      let flow ← within { scope, classRef := closure.owner, depth := caller.depth + 1 }
        (executeAll rules steps closure.decl.body)
      callResult closure flow

/-- Make an instance: its fields from the root class down, then its constructor. -/
def instantiate (rules : Rules) : Nat → ClassRef → List Value → Position → Eval Value
  | 0, _, _, _ => exhaust
  | steps + 1, ref, arguments, position => do
    match ← inspect fun store => store.classes[ref]? with
    | none => fail position (.notCallable .classObject)
    | some made =>
      checkArity made.arity arguments.length position
      match made.methods.find? constructorName with
      | none =>
        let receiver ← add fun store => store.addInstance ref
        let lineage ← inspect fun store => store.lineage ref
        setUpLineage rules steps lineage receiver
        pure (.object receiver)
      | some constructor =>
        checkAccess constructor.member .constructor constructorName position
        let receiver ← add fun store => store.addInstance ref
        let lineage ← inspect fun store => store.lineage ref
        setUpLineage rules steps lineage receiver
        let closure ← add fun store => store.bindMethod constructor.closure receiver
        let _ ← callClosure rules steps closure arguments position
        pure (.object receiver)

/-- Set up the fields that some classes declare, each class in the scope it was declared in. -/
def setUpLineage (rules : Rules) : Nat → List ClassRef → InstanceRef → Eval Unit
  | 0, _, _ => exhaust
  | _ + 1, [], _ => pure ()
  | steps + 1, ref :: rest, receiver => do
    match ← inspect fun store => store.classes[ref]? with
    | none => pure ()
    | some found =>
      let caller ← frame
      within { caller with scope := found.scope, classRef := some ref }
        (setUpFields rules steps found.decl.fields receiver)
    setUpLineage rules steps rest receiver

def setUpFields (rules : Rules) : Nat → List (FieldDecl Expr) → InstanceRef → Eval Unit
  | 0, _, _ => exhaust
  | _ + 1, [], _ => pure ()
  | steps + 1, field :: rest, receiver => do
    let value ← evaluateOptional rules steps field.initial
    change fun store => store.setField receiver field.name.name value
    setUpFields rules steps rest receiver

def execute (rules : Rules) : Nat → Stmt → Eval Flow
  | 0, _ => exhaust
  | steps + 1, stmt =>
    match stmt with
    | .expression value => do
      let _ ← evaluate rules steps value
      pure .normal
    | .print _ values => do
      let texts ← evaluateShown rules steps values
      emit (" ".intercalate texts)
      pure .normal
    | .var name _ initial => do
      let value ← evaluateOptional rules steps initial
      define name.name value
      pure .normal
    | .block body => do
      let scope ← innerScope
      withinScope scope (executeAll rules steps body)
    | .branch condition whenTrue whenFalse => do
      let value ← evaluate rules steps condition
      if ← attempt condition.position (truth value) then
        execute rules steps whenTrue
      else
        executeOptional rules steps whenFalse
    | .loop condition body => repeatLoop rules steps (some condition) none body
    | .countedLoop initial condition increment body => do
      let scope ← innerScope
      withinScope scope (runLoop rules steps initial condition increment body)
    | .function decl => do
      let value ← makeFunction decl
      define decl.name.name value
      pure .normal
    | .returnValue _ value => do
      let value ← evaluateOptional rules steps value
      pure (.returned value)
    | .breakLoop _ => pure .broken
    | .continueLoop _ => pure .continued
    | .classDecl decl => do
      declareClass rules decl
      pure .normal

/-- Execute statements in order, up to one that does not end normally. -/
def executeAll (rules : Rules) : Nat → List Stmt → Eval Flow
  | 0, _ => exhaust
  | _ + 1, [] => pure .normal
  | steps + 1, stmt :: rest => do
    match ← execute rules steps stmt with
    | .normal => executeAll rules steps rest
    | flow => pure flow

def executeOptional (rules : Rules) : Nat → Option Stmt → Eval Flow
  | 0, _ => exhaust
  | _ + 1, none => pure .normal
  | steps + 1, some stmt => execute rules steps stmt

def runLoop (rules : Rules) :
    Nat → Option Stmt → Option Expr → Option Expr → Stmt → Eval Flow
  | 0, _, _, _, _ => exhaust
  | steps + 1, initial, condition, increment, body => do
    let _ ← executeOptional rules steps initial
    repeatLoop rules steps condition increment body

/-- Go round a loop while its condition holds; without a condition, until it is left. -/
def repeatLoop (rules : Rules) : Nat → Option Expr → Option Expr → Stmt → Eval Flow
  | 0, _, _, _ => exhaust
  | steps + 1, condition, increment, body => do
    let holds ← loopCondition rules steps condition
    if holds then
      match ← execute rules steps body with
      | .broken => pure .normal
      | .returned value => pure (.returned value)
      | _ =>
        let _ ← evaluateOptional rules steps increment
        repeatLoop rules steps condition increment body
    else
      pure .normal

def loopCondition (rules : Rules) : Nat → Option Expr → Eval Bool
  | 0, _ => exhaust
  | _ + 1, none => pure true
  | steps + 1, some condition => do
    let value ← evaluate rules steps condition
    attempt condition.position (truth value)

end

def interpret (rules : Rules) (steps : Nat) : List Stmt → Eval Unit
  | [] => pure ()
  | stmt :: rest => do
    let _ ← execute rules steps stmt
    interpret rules steps rest

end ClassScript.Run
