import ClassScript.Text.Quoted
import ClassScript.Value

/-!
Why a running program stops.
-/

set_option autoImplicit false

namespace ClassScript

inductive MemberKind where
  | field
  | method
  | constructor
  deriving DecidableEq

def MemberKind.name : MemberKind → String
  | field => "field"
  | method => "method"
  | constructor => "constructor"

inductive FaultFamily where
  | type | arity | access | reference | arithmetic | stackOverflow
  deriving DecidableEq

def FaultFamily.label : FaultFamily → String
  | type => "TypeError"
  | arity => "ArityError"
  | access => "AccessError"
  | reference => "ReferenceError"
  | arithmetic => "ArithmeticError"
  | stackOverflow => "StackOverflowError"

/-- Why a program stops at a place. -/
inductive RuntimeFault where
  | condition (got : Kind)
  | negation (got : Kind)
  | operands (operator : BinaryOp) (left right : Kind)
  | notCallable (got : Kind)
  | propertyOf (name : String) (got : Kind)
  | fieldOf (got : Kind)
  | superclass (got : Kind)
  | arrayIndex (got : Kind)
  | mapKey (got : Kind)
  | notIndexable (got : Kind)
  | notIndexAssignable (got : Kind)
  | lengthOf (got : Kind)
  | pushTo (got : Kind)
  | arity (expected got : Nat)
  | access (visibility : Visibility) (what : MemberKind) (name owner : String)
  | undefinedVariable (name : String)
  | outOfBounds (index : Float) (length : Nat)
  | undefinedKey (key : String)
  | undefinedProperty (name owner : String)
  | undefinedMethod (name owner : String)
  | thisUnbound
  | superUnbound
  | divisionByZero
  | callDepth (limit : Nat) (name : String)

namespace RuntimeFault

def family : RuntimeFault → FaultFamily
  | condition _ | negation _ | operands _ _ _ | notCallable _ | propertyOf _ _ | fieldOf _
  | superclass _ | arrayIndex _ | mapKey _ | notIndexable _ | notIndexAssignable _ | lengthOf _
  | pushTo _ => .type
  | arity _ _ => .arity
  | access _ _ _ _ => .access
  | undefinedVariable _ | outOfBounds _ _ | undefinedKey _ | undefinedProperty _ _
  | undefinedMethod _ _ | thisUnbound | superUnbound => .reference
  | divisionByZero => .arithmetic
  | callDepth _ _ => .stackOverflow

def wantedOperands : BinaryOp → String
  | .add => "two numbers, or a string and a printable value"
  | .less | .lessEqual | .greater | .greaterEqual => "two numbers or two strings"
  | _ => "two numbers"

def message : RuntimeFault → String
  | condition got => "Condition must be a boolean, got " ++ got.name
  | negation got => "Operand of '-' must be a number, got " ++ got.name
  | operands operator left right =>
    "Operands of '" ++ operator.symbol ++ "' must be " ++ wantedOperands operator ++ ", got " ++
      left.name ++ " and " ++ right.name
  | notCallable got => "Can only call functions and classes, got " ++ got.name
  | propertyOf name got =>
    "Only instances have properties, tried to read '" ++ name ++ "' on " ++ got.name
  | fieldOf got => "Only instances have fields, got " ++ got.name
  | superclass got => "Superclass must be a class, got " ++ got.name
  | arrayIndex got => "Array index must be a number, got " ++ got.name
  | mapKey got => "Map keys must be strings, got " ++ got.name
  | notIndexable got => "Only arrays, maps and strings can be indexed, got " ++ got.name
  | notIndexAssignable got =>
    "Only arrays and maps support index assignment, got " ++ got.name
  | lengthOf got => "len() expects a string, array or map, got " ++ got.name
  | pushTo got => "push() expects an array, got " ++ got.name
  | arity expected got =>
    "Expected " ++ expected.repr ++ " argument(s) but got " ++ got.repr
  | access visibility what name owner =>
    "Cannot access " ++ visibility.keyword ++ " " ++ what.name ++ " '" ++ name ++
      "' of class " ++ owner
  | undefinedVariable name => "Undefined variable '" ++ name ++ "'"
  | outOfBounds index length =>
    "Index " ++ Number.shown index ++ " out of bounds for length " ++ length.repr
  | undefinedKey key => "Undefined key " ++ Text.quoted key
  | undefinedProperty name owner =>
    "Undefined property '" ++ name ++ "' on " ++ owner ++ " instance"
  | undefinedMethod name owner => "Undefined method '" ++ name ++ "' on superclass " ++ owner
  | thisUnbound => "'this' is not bound here"
  | superUnbound => "'super' is not bound here"
  | divisionByZero => "Division by zero"
  | callDepth limit name =>
    "Maximum call depth of " ++ limit.repr ++ " exceeded in '" ++ name ++ "'"

end RuntimeFault

end ClassScript
