import ClassScript.Run.Index
import ClassScript.Run.Machine

/-!
Names and members while a program runs: variables, properties, `this`, `super`, and who may use a
member. A private member is for the class that declares it, a protected one also for its heirs.
-/

set_option autoImplicit false

namespace ClassScript.Run

open Eval

/-- The value of a variable: in the scope at the recorded depth, or else among the globals. -/
def readVariable (rules : Rules) (id : RefId) (name : Identifier) : Eval Value := do
  let frame ← frame
  let found ← inspect fun store =>
    match rules.depths.find? id with
    | some depth => store.getAt? frame.scope depth name.name
    | none => store.getHere? Store.globalScope name.name
  match found with
  | some value => pure value
  | none => fail name.position (.undefinedVariable name.name)

/-- Change the value of a variable that exists. -/
def writeVariable (rules : Rules) (id : RefId) (name : Identifier) (value : Value) :
    Eval Unit := do
  let frame ← frame
  let written ← inspect fun store =>
    match rules.depths.find? id with
    | some depth => store.assignAt? frame.scope depth name.name value
    | none => store.assignHere? Store.globalScope name.name value
  match written with
  | some store => change fun _ => store
  | none => fail name.position (.undefinedVariable name.name)

/-- Whether code of the class that is being executed may use a member. -/
def mayUse (store : Store) (current : Option ClassRef) (member : Member) : Bool :=
  match member.visibility, current with
  | .everyone, _ => true
  | _, none => false
  | .owner, some ref => ref == member.owner
  | .heirs, some ref => store.isSubclass ref member.owner

def checkAccess (member : Member) (what : MemberKind) (name : String) (position : Position) :
    Eval Unit := do
  let frame ← frame
  let allowed ← inspect fun store => mayUse store frame.classRef member
  if allowed then
    pure ()
  else
    let owner ← inspect fun store => store.classes[member.owner]?.map ClassObject.name
    fail position (.access member.visibility what name (owner.getD "<unknown>"))

def checkField (member : Option Member) (name : Identifier) : Eval Unit :=
  match member with
  | some member => checkAccess member .field name.name name.position
  | none => pure ()

def boundMethod (method : Method) (receiver : InstanceRef) : Eval Value := do
  let closure ← add fun store => store.bindMethod method.closure receiver
  let ref ← add fun store => store.addFunction closure
  pure (.function ref)

/-- Read a property: a field if the instance has one of that name, else a method. -/
def readProperty (ref : InstanceRef) (name : Identifier) : Eval Value := do
  let found ← inspect fun store => store.classOf? ref
  match ← inspect fun store => store.getField? ref name.name with
  | some value =>
    checkField (found.bind fun c => c.fields.find? name.name) name
    pure value
  | none =>
    match found.bind fun c => c.methods.find? name.name with
    | some method =>
      checkAccess method.member .method name.name name.position
      boundMethod method ref
    | none =>
      fail name.position (.undefinedProperty name.name ((found.map ClassObject.name).getD ""))

def writeProperty (ref : InstanceRef) (name : Identifier) (value : Value) : Eval Unit := do
  let found ← inspect fun store => store.classOf? ref
  checkField (found.bind fun c => c.fields.find? name.name) name
  change fun store => store.setField ref name.name value

def assignIndex (object index value : Value) (position : Position) : Eval Unit := do
  let found ← inspect fun store => findPlace store object index
  let place ← attempt position found
  change fun store => put store place value

def readThis (rules : Rules) (id : RefId) (position : Position) : Eval Value := do
  let frame ← frame
  let found ← inspect fun store =>
    (rules.depths.find? id).bind fun depth => store.getAt? frame.scope depth Store.thisName
  match found with
  | some value => pure value
  | none => fail position .thisUnbound

/-- The superclass that a scope some steps out binds, and the instance bound one step nearer. -/
def superPair (store : Store) (scope : ScopeRef) (depth : Nat) :
    Option (ClassObject × InstanceRef) :=
  match store.getAt? scope depth Store.superName, depth with
  | some (.classObject parent), nearer + 1 =>
    match store.getAt? scope nearer Store.thisName, store.classes[parent]? with
    | some (.object receiver), some found => some (found, receiver)
    | _, _ => none
  | _, _ => none

def readSuper (rules : Rules) (id : RefId) (position : Position) (method : Identifier) :
    Eval Value := do
  let frame ← frame
  let found ← inspect fun store =>
    (rules.depths.find? id).bind fun depth => superPair store frame.scope depth
  match found with
  | none => fail position .superUnbound
  | some (parent, receiver) =>
    match parent.methods.find? method.name with
    | none => fail method.position (.undefinedMethod method.name parent.name)
    | some found =>
      checkAccess found.member .method method.name method.position
      boundMethod found receiver

def makeFunction (decl : FunctionDecl Stmt) : Eval Value := do
  let frame ← frame
  let ref ← add fun store => store.addFunction
    { decl, scope := frame.scope, isInitializer := false, owner := frame.classRef }
  pure (.function ref)

/-- Declare a class here. Methods of a class with a superclass stand in a scope that binds it. -/
def declareClass (rules : Rules) (decl : ClassDecl Expr Stmt) : Eval Unit := do
  let frame ← frame
  let superclass ← match decl.superclass with
    | none => pure none
    | some parent =>
      match ← readVariable rules parent.id parent.name with
      | .classObject ref => pure (some ref)
      | other => fail parent.name.position (.superclass other.kind)
  let methodScope ← match superclass with
    | none => pure frame.scope
    | some parent =>
      add fun store => store.addScope
        { bindings := Dict.empty.insert Store.superName (.classObject parent)
          enclosing := some frame.scope }
  let ref ← add fun store => store.addClass decl superclass frame.scope methodScope
  define decl.name.name (.classObject ref)

def checkArity (expected got : Nat) (position : Position) : Eval Unit :=
  if expected = got then pure () else fail position (.arity expected got)

def applyBuiltin (rules : Rules) (which : Builtin) (arguments : List Value)
    (position : Position) : Eval Value :=
  match which, arguments with
  | .clock, [] => do
    let reading ← readClock rules
    pure (.number reading)
  | .len, [.text text] => pure (.number text.length.toFloat)
  | .len, [.array ref] => do
    let size ← inspect fun store => (store.items ref).size
    pure (.number size.toFloat)
  | .len, [.map ref] => do
    let size ← inspect fun store => (store.entries ref).size
    pure (.number size.toFloat)
  | .len, [other] => fail position (.lengthOf other.kind)
  | .str, [value] => do
    let text ← shown value
    pure (.text text)
  | .push, [.array ref, value] => do
    change fun store => store.pushItem ref value
    let size ← inspect fun store => (store.items ref).size
    pure (.number size.toFloat)
  | .push, [other, _] => fail position (.pushTo other.kind)
  | .typeOf, [value] => pure (.text value.kind.name)
  | _, _ => fail position (.arity which.arity arguments.length)

end ClassScript.Run
