import ClassScript.Builtin
import ClassScript.Number
import ClassScript.Syntax

/-!
Values of a running program. Whatever can be shared or changed lives in the store and is held by
its number there, so that two values are the same object exactly when their numbers are equal.
-/

set_option autoImplicit false

namespace ClassScript

abbrev ScopeRef := Nat
abbrev FunctionRef := Nat
abbrev ClassRef := Nat
abbrev InstanceRef := Nat
abbrev ArrayRef := Nat
abbrev MapRef := Nat

inductive Value where
  | nil
  | boolean (value : Bool)
  | number (value : Float)
  | text (value : String)
  | array (ref : ArrayRef)
  | map (ref : MapRef)
  | builtin (which : Builtin)
  | function (ref : FunctionRef)
  | classObject (ref : ClassRef)
  | object (ref : InstanceRef)
  deriving Inhabited

/-- The kinds that programs and messages tell values apart by. -/
inductive Kind where
  | function | classObject | object | array | map | number | text | boolean | nil
  deriving DecidableEq, Repr

def Kind.name : Kind → String
  | function => "function"
  | classObject => "class"
  | object => "instance"
  | array => "array"
  | map => "map"
  | number => "number"
  | text => "string"
  | boolean => "bool"
  | nil => "nil"

namespace Value

def kind : Value → Kind
  | nil => .nil
  | boolean _ => .boolean
  | number _ => .number
  | text _ => .text
  | array _ => .array
  | map _ => .map
  | builtin _ | function _ => .function
  | classObject _ => .classObject
  | object _ => .object

/-- Whether the language takes two values for equal: scalars by value, so that a value that is not
a number differs from itself, and everything else by identity. -/
def equals : Value → Value → Bool
  | nil, nil => true
  | boolean a, boolean b => a == b
  | number a, number b => a == b
  | text a, text b => a == b
  | array a, array b => a == b
  | map a, map b => a == b
  | builtin a, builtin b => a == b
  | function a, function b => a == b
  | classObject a, classObject b => a == b
  | object a, object b => a == b
  | _, _ => false

/-- What a value adds to a text, for the values that can be joined to one. -/
def joinText? : Value → Option String
  | text value => some value
  | number value => some (Number.shown value)
  | boolean value => some (if value then "true" else "false")
  | nil => some "nil"
  | _ => none

def ofLiteral : Literal → Value
  | .number value => number value
  | .text value => text value
  | .boolean value => boolean value
  | .nil => nil

end Value

end ClassScript
