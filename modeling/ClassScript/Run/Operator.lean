import ClassScript.Run.Fault

/-!
What operators do to values.
-/

set_option autoImplicit false

namespace ClassScript.Run

/-- Whether a condition holds: booleans as they are, and `nil` does not. -/
def truth : Value → Except RuntimeFault Bool
  | .boolean value => .ok value
  | .nil => .ok false
  | other => .error (.condition other.kind)

def applyUnary (operator : UnaryOp) (operand : Value) : Except RuntimeFault Value :=
  match operator with
  | .not => (truth operand).map fun holds => .boolean !holds
  | .negate =>
    match operand with
    | .number value => .ok (.number (-value))
    | other => .error (.negation other.kind)

/-- Apply an operator other than equality to two numbers. -/
def applyNumbers (operator : BinaryOp) (a b : Float) : Except RuntimeFault Value :=
  match operator with
  | .add => .ok (.number (a + b))
  | .subtract => .ok (.number (a - b))
  | .multiply => .ok (.number (a * b))
  | .divide => if b == 0.0 then .error .divisionByZero else .ok (.number (a / b))
  | .remainder =>
    if b == 0.0 then .error .divisionByZero else .ok (.number (Number.remainder a b))
  | .less => .ok (.boolean (a < b))
  | .lessEqual => .ok (.boolean (a ≤ b))
  | .greater => .ok (.boolean (b < a))
  | .greaterEqual => .ok (.boolean (b ≤ a))
  | .equal => .ok (.boolean (a == b))
  | .notEqual => .ok (.boolean !(a == b))

def compareTexts (operator : BinaryOp) (a b : String) : Option Bool :=
  match operator with
  | .less => some (a < b)
  | .lessEqual => some !(b < a)
  | .greater => some (b < a)
  | .greaterEqual => some !(a < b)
  | _ => none

/-- Join two values to a text, if one of them is a text and the other can be joined to it. -/
def joinValues (left right : Value) : Option String :=
  match left, right with
  | .text _, _ | _, .text _ =>
    match left.joinText?, right.joinText? with
    | some a, some b => some (a ++ b)
    | _, _ => none
  | _, _ => none

def applyBinary (operator : BinaryOp) (left right : Value) : Except RuntimeFault Value :=
  let refused : Except RuntimeFault Value := .error (.operands operator left.kind right.kind)
  match operator with
  | .equal => .ok (.boolean (left.equals right))
  | .notEqual => .ok (.boolean !(left.equals right))
  | _ =>
    match left, right with
    | .number a, .number b => applyNumbers operator a b
    | left, right =>
      match operator with
      | .add =>
        match joinValues left right with
        | some joined => .ok (.text joined)
        | none => refused
      | _ =>
        match left, right with
        | .text a, .text b =>
          match compareTexts operator a b with
          | some holds => .ok (.boolean holds)
          | none => refused
        | _, _ => refused

def decides (operator : LogicalOp) (first : Bool) : Bool :=
  match operator with
  | .or => first
  | .and => !first

end ClassScript.Run
