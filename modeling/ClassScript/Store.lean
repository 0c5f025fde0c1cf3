import ClassScript.Dict
import ClassScript.Value

/-!
The store: scopes, functions, classes, instances, arrays and maps of a running program, each under
a number. Numbers are handed out in order and nothing is ever removed.
-/

set_option autoImplicit false

namespace ClassScript

/-- Names with their values, and the scope around them. -/
structure Scope where
  bindings : Dict Value
  enclosing : Option ScopeRef

/-- A function together with the scope it was made in. -/
structure Closure where
  decl : FunctionDecl Stmt
  scope : ScopeRef
  /-- Calls yield the instance that the scope binds. -/
  isInitializer : Bool
  /-- The class in whose text the function stands. Class objects are taken to stay alive, so that a
  call always finds it. -/
  owner : Option ClassRef

/-- Who may use a member, and the class that declares it. -/
structure Member where
  visibility : Visibility
  owner : ClassRef

/-- A method that is not bound to an instance yet. -/
structure Method where
  member : Member
  closure : Closure

/-- A class; its tables hold inherited members too. -/
structure ClassObject where
  decl : ClassDecl Expr Stmt
  superclass : Option ClassRef
  /-- The scope the class is declared in. -/
  scope : ScopeRef
  fields : Dict Member
  methods : Dict Method

structure Instance where
  classRef : ClassRef
  fields : Dict Value

def ClassObject.name (c : ClassObject) : String :=
  c.decl.name.name

def ClassObject.arity (c : ClassObject) : Nat :=
  match c.methods.find? constructorName with
  | some method => method.closure.decl.arity
  | none => 0

/-- Everything that values can share. -/
structure Store where
  scopes : Array Scope
  functions : Array Closure
  classes : Array ClassObject
  instances : Array Instance
  arrays : Array (Array Value)
  maps : Array (Dict Value)

namespace Store

def empty : Store :=
  { scopes := #[], functions := #[], classes := #[], instances := #[], arrays := #[], maps := #[] }

/-! ### Scopes -/

def addScope (store : Store) (scope : Scope) : ScopeRef × Store :=
  (store.scopes.size, { store with scopes := store.scopes.push scope })

def ancestor? (store : Store) (ref : ScopeRef) : Nat → Option ScopeRef
  | 0 => some ref
  | depth + 1 =>
    match store.scopes[ref]? with
    | some { enclosing := some outer, .. } => store.ancestor? outer depth
    | _ => none

def getHere? (store : Store) (ref : ScopeRef) (name : String) : Option Value :=
  match store.scopes[ref]? with
  | some scope => scope.bindings.find? name
  | none => none

def getAt? (store : Store) (ref : ScopeRef) (depth : Nat) (name : String) : Option Value :=
  match store.ancestor? ref depth with
  | some target => store.getHere? target name
  | none => none

def define (store : Store) (ref : ScopeRef) (name : String) (value : Value) : Store :=
  { store with
    scopes := store.scopes.modify ref fun scope =>
      { scope with bindings := scope.bindings.insert name value } }

def holder? (store : Store) (ref : ScopeRef) (depth : Nat) (name : String) : Option ScopeRef :=
  match store.ancestor? ref depth with
  | some target => if (store.getHere? target name).isSome then some target else none
  | none => none

def assignAt? (store : Store) (ref : ScopeRef) (depth : Nat) (name : String) (value : Value) :
    Option Store :=
  match store.holder? ref depth name with
  | some target => some (store.define target name value)
  | none => none

def assignHere? (store : Store) (ref : ScopeRef) (name : String) (value : Value) : Option Store :=
  store.assignAt? ref 0 name value

def globalScope : ScopeRef := 0

/-- The store a program starts with: the globals hold the builtin functions. -/
def initial : Store :=
  let bindings := Dict.ofList (Builtin.all.map fun which => (which.name, Value.builtin which))
  (empty.addScope { bindings, enclosing := none }).2

/-! ### Functions -/

def addFunction (store : Store) (closure : Closure) : FunctionRef × Store :=
  (store.functions.size, { store with functions := store.functions.push closure })

/-- The name under which an instance is known to its own methods. -/
def thisName : String := "this"

/-- The name under which methods know the superclass. -/
def superName : String := "super"

/-- Bind a method to an instance, in a scope of its own. -/
def bindMethod (store : Store) (closure : Closure) (receiver : InstanceRef) : Closure × Store :=
  let bindings := Dict.empty.insert thisName (.object receiver)
  let (scope, store) := store.addScope { bindings, enclosing := some closure.scope }
  ({ closure with scope }, store)

/-! ### Classes -/

/-- The class and its ancestors, nearest first; no chain is longer than there are classes. -/
def chainFrom (store : Store) : Nat → ClassRef → List ClassRef
  | 0, _ => []
  | bound + 1, ref =>
    ref :: match store.classes[ref]? with
      | some { superclass := some parent, .. } => store.chainFrom bound parent
      | _ => []

/-- The class and its ancestors, the root first. -/
def lineage (store : Store) (ref : ClassRef) : List ClassRef :=
  (store.chainFrom store.classes.size ref).reverse

def isSubclass (store : Store) (ref other : ClassRef) : Bool :=
  (store.chainFrom store.classes.size ref).contains other

/-- Put the methods of a class in the place of inherited ones. -/
def ownMethods (owner : ClassRef) (scope : ScopeRef) (inherited : Dict Method)
    (methods : List (MethodDecl Stmt)) : Dict Method :=
  methods.foldl (fun table method =>
    let name := method.function.name.name
    table.insert name
      { member := { visibility := method.visibility, owner }
        closure :=
          { decl := method.function, scope, isInitializer := name == constructorName,
            owner := some owner } }) inherited

def ownFields (owner : ClassRef) (inherited : Dict Member) (fields : List (FieldDecl Expr)) :
    Dict Member :=
  fields.foldl (fun table field =>
    table.insert field.name.name { visibility := field.visibility, owner }) inherited

/-- Add a class declared in `scope` whose methods stand in `methodScope`. -/
def addClass (store : Store) (decl : ClassDecl Expr Stmt) (superclass : Option ClassRef)
    (scope methodScope : ScopeRef) : ClassRef × Store :=
  let ref := store.classes.size
  let parent := superclass.bind fun parent => store.classes[parent]?
  let added : ClassObject :=
    { decl, superclass, scope
      fields := ownFields ref ((parent.map ClassObject.fields).getD ∅) decl.fields
      methods := ownMethods ref methodScope ((parent.map ClassObject.methods).getD ∅)
        decl.methods }
  (ref, { store with classes := store.classes.push added })

/-! ### Instances -/

def addInstance (store : Store) (classRef : ClassRef) : InstanceRef × Store :=
  (store.instances.size,
    { store with instances := store.instances.push { classRef, fields := ∅ } })

def classOf? (store : Store) (ref : InstanceRef) : Option ClassObject :=
  match store.instances[ref]? with
  | some found => store.classes[found.classRef]?
  | none => none

def getField? (store : Store) (ref : InstanceRef) (name : String) : Option Value :=
  match store.instances[ref]? with
  | some found => found.fields.find? name
  | none => none

def setField (store : Store) (ref : InstanceRef) (name : String) (value : Value) : Store :=
  { store with
    instances := store.instances.modify ref fun found =>
      { found with fields := found.fields.insert name value } }

/-! ### Arrays and maps -/

def addArray (store : Store) (items : Array Value) : ArrayRef × Store :=
  (store.arrays.size, { store with arrays := store.arrays.push items })

def items (store : Store) (ref : ArrayRef) : Array Value :=
  store.arrays[ref]?.getD #[]

def setItem (store : Store) (ref : ArrayRef) (slot : Nat) (value : Value) : Store :=
  { store with arrays := store.arrays.modify ref fun items => items.setIfInBounds slot value }

def pushItem (store : Store) (ref : ArrayRef) (value : Value) : Store :=
  { store with arrays := store.arrays.modify ref fun items => items.push value }

def addMap (store : Store) (entries : Dict Value) : MapRef × Store :=
  (store.maps.size, { store with maps := store.maps.push entries })

def entries (store : Store) (ref : MapRef) : Dict Value :=
  store.maps[ref]?.getD ∅

def setEntry (store : Store) (ref : MapRef) (key : String) (value : Value) : Store :=
  { store with maps := store.maps.modify ref fun entries => entries.insert key value }

end Store

end ClassScript
