import ClassScript.Binding.Scope
import ClassScript.Run.Fault
import ClassScript.Settings
import ClassScript.Syntax.Parse
import ClassScript.Token.Lexeme

/-!
Everything that can go wrong with a program, with one wording.
-/

set_option autoImplicit false

namespace ClassScript

inductive Failure where
  | lexical (found : Located LexicalFault)
  | syntactic (found : Located SyntaxFault)
  | binding (found : Located Binding.Fault)
  | runtime (found : Located RuntimeFault)
  | settings (fault : SettingsFault)
  /-- A printed line did not find room. -/
  | output

/-- The stages of the work on a program that failures belong to. -/
inductive FailureCategory where
  | lex | parse | resolve | runtime | io
  deriving DecidableEq

namespace Failure

def category : Failure → FailureCategory
  | lexical _ => .lex
  | syntactic _ => .parse
  | binding _ => .resolve
  | runtime _ => .runtime
  | settings _ | output => .io

def label : Failure → String
  | lexical _ => "LexError"
  | syntactic _ => "ParseError"
  | binding _ => "ResolveError"
  | runtime found => found.value.family.label
  | settings _ => "ConfigError"
  | output => "IoError"

def position? : Failure → Option Position
  | lexical found => some found.position
  | syntactic found => some found.position
  | binding found => some found.position
  | runtime found => some found.position
  | settings _ => none
  | output => none

def message : Failure → String
  | lexical found => found.value.message
  | syntactic found => found.value.message
  | binding found => found.value.message
  | runtime found => found.value.message
  | settings fault => fault.message
  | output => "failed to write whole buffer"

def isStatic : Failure → Bool
  | lexical _ | syntactic _ | binding _ => true
  | runtime _ | settings _ | output => false

def textAt (position : Position) (label message : String) : String :=
  "[line " ++ position.text ++ "] " ++ label ++ ": " ++ message

def text : Failure → String
  | settings fault => "Invalid configuration: " ++ fault.message
  | failure =>
    match failure.position? with
    | some position => textAt position failure.label failure.message
    | none => failure.message

end Failure

end ClassScript
