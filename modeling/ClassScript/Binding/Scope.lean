import ClassScript.Builtin
import ClassScript.Dict
import ClassScript.Syntax
import Std.Data.TreeMap

/-!
What is known about names before a program runs: the scopes around a place in the text, the globals
declared so far, outlines of classes, and the depths at which references find their declarations.
-/

set_option autoImplicit false

namespace ClassScript.Binding

/-- Why a program is refused although it can be read. -/
inductive Fault where
  | undefined (name : String)
  | ownInitializer (name : String)
  | redeclared (name : String)
  | methodTwice (method owner : String)
  | fieldTwice (field owner : String)
  | selfInheritance
  | inheritanceCycle (name : String)
  | nothingToOverride (method owner : String)
  | returnAtTop
  | valueFromInitializer
  | breakOutsideLoop
  | continueOutsideLoop
  | thisOutsideClass
  | superOutsideClass
  | superWithoutSuperclass
  deriving DecidableEq

def Fault.message : Fault → String
  | undefined name => "Undefined variable '" ++ name ++ "'"
  | ownInitializer name => "Can't read local variable '" ++ name ++ "' in its own initializer"
  | redeclared name => "Already a variable named '" ++ name ++ "' in this scope"
  | methodTwice method owner =>
    "Method '" ++ method ++ "' is declared twice in class '" ++ owner ++ "'"
  | fieldTwice field owner => "Field '" ++ field ++ "' is declared twice in class '" ++ owner ++ "'"
  | selfInheritance => "A class can't inherit from itself"
  | inheritanceCycle name => "Inheritance cycle involving class '" ++ name ++ "'"
  | nothingToOverride method owner =>
    "Method '" ++ method ++ "' is marked override but no ancestor of class '" ++ owner ++
      "' declares it"
  | returnAtTop => "Can't return from top-level code"
  | valueFromInitializer => "Can't return a value from an initializer"
  | breakOutsideLoop => "Can't use 'break' outside of a loop"
  | continueOutsideLoop => "Can't use 'continue' outside of a loop"
  | thisOutsideClass => "Can't use 'this' outside of a class method"
  | superOutsideClass => "Can't use 'super' outside of a class method"
  | superWithoutSuperclass => "Can't use 'super' in a class with no superclass"

/-- How many scopes out each reference to a local name finds its declaration. -/
structure Depths where
  table : Std.TreeMap RefId Nat

namespace Depths

def empty : Depths :=
  { table := ∅ }

def find? (depths : Depths) (id : RefId) : Option Nat :=
  depths.table[id]?

def record (depths : Depths) (id : RefId) (depth : Nat) : Depths :=
  { table := depths.table.insert id depth }

def toList (depths : Depths) : List (RefId × Nat) :=
  depths.table.toList

def merge (depths more : Depths) : Depths :=
  more.toList.foldl (fun depths entry => depths.record entry.1 entry.2) depths

end Depths

structure Outline where
  superclass : Option String
  methods : List String

structure Globals where
  names : Dict Unit
  classes : Dict Outline

namespace Globals

def initial : Globals :=
  { names := .ofList (Builtin.all.map fun builtin => (builtin.name, ())), classes := ∅ }

def contains (globals : Globals) (name : String) : Bool :=
  globals.names.contains name

end Globals

structure Scope where
  /-- The names declared so far, each with whether its initial value is complete. -/
  names : Dict Bool
  /-- The classes among them. -/
  classes : Dict Outline

def Scope.empty : Scope :=
  { names := ∅, classes := ∅ }

structure State where
  globals : Globals
  /-- The local scopes, innermost first. -/
  scopes : List Scope
  depths : Depths

namespace State

def start (globals : Globals) : State :=
  { globals, scopes := [], depths := .empty }

def enter (state : State) (names : List String) : State :=
  let scope := { Scope.empty with names := .ofList (names.map fun name => (name, true)) }
  { state with scopes := scope :: state.scopes }

def leave (state : State) : State :=
  { state with scopes := state.scopes.tail }

/-- Declare a name whose initial value is not complete yet. A global may be declared again. -/
def declare (state : State) (name : Identifier) : Except (Located Fault) State :=
  match state.scopes with
  | [] =>
    .ok { state with
      globals := { state.globals with names := state.globals.names.insert name.name () } }
  | scope :: outer =>
    if scope.names.contains name.name then
      .error { value := .redeclared name.name, position := name.position }
    else
      .ok { state with
        scopes := { scope with names := scope.names.insert name.name false } :: outer }

def define (state : State) (name : String) : State :=
  match state.scopes with
  | [] => state
  | scope :: outer =>
    { state with scopes := { scope with names := scope.names.insert name true } :: outer }

/-- Whether the innermost scope declares the name but its initial value is not complete. -/
def isIncomplete (state : State) (name : String) : Bool :=
  match state.scopes with
  | [] => false
  | scope :: _ => scope.names.find? name == some false

def depthIn (name : String) : List Scope → Option Nat
  | [] => none
  | scope :: outer =>
    if scope.names.contains name then some 0 else (depthIn name outer).map (· + 1)

/-- Note the depth of a reference; nothing is noted when no local scope declares the name. -/
def bindLocal (state : State) (id : RefId) (name : String) : Option State :=
  (depthIn name state.scopes).map fun depth =>
    { state with depths := state.depths.record id depth }

def recordClass (state : State) (name : String) (outline : Outline) : State :=
  match state.scopes with
  | [] =>
    { state with
      globals := { state.globals with classes := state.globals.classes.insert name outline } }
  | scope :: outer =>
    { state with
      scopes := { scope with classes := scope.classes.insert name outline } :: outer }

/-- The class that a name refers to; a nearer declaration of something else hides it. -/
def outlineIn (globals : Globals) (name : String) : List Scope → Option Outline
  | [] => globals.classes.find? name
  | scope :: outer =>
    match scope.classes.find? name with
    | some outline => some outline
    | none => if scope.names.contains name then none else outlineIn globals name outer

def outline? (state : State) (name : String) : Option Outline :=
  outlineIn state.globals name state.scopes

def classCount (state : State) : Nat :=
  state.globals.classes.size + (state.scopes.map fun scope => scope.classes.size).foldr (· + ·) 0

end State

end ClassScript.Binding
