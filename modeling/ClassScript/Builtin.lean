/-!
The functions that every program starts with.
-/

namespace ClassScript

inductive Builtin where
  | clock
  | len
  | str
  | push
  | typeOf
  deriving DecidableEq, Repr

namespace Builtin

def all : List Builtin := [clock, len, str, push, typeOf]

def name : Builtin → String
  | clock => "clock"
  | len => "len"
  | str => "str"
  | push => "push"
  | typeOf => "type_of"

def arity : Builtin → Nat
  | clock => 0
  | len => 1
  | str => 1
  | push => 2
  | typeOf => 1

end Builtin

end ClassScript
