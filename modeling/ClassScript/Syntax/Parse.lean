import ClassScript.Syntax
import ClassScript.Token

/-!
Reading tokens: where a reader stands, what it replies, and the moves that all grammar rules are
built from. A reply always says where the reader stands afterwards, also after a fault, because
reading may be taken up again from there.
-/

set_option autoImplicit false

namespace ClassScript

inductive SyntaxProblem where
  | expected (what : String)
  | tooManyParameters
  | tooManyArguments
  | secondAccess
  | secondDispatch
  | dispatchOnField
  | invalidTarget
  | nestedTooDeep
  deriving DecidableEq

/-- How many parameters or arguments there may be. -/
def argumentLimit : Nat := 255

def SyntaxProblem.message : SyntaxProblem → String
  | expected what => "Expected " ++ what
  | tooManyParameters => "Cannot have more than 255 parameters"
  | tooManyArguments => "Cannot have more than 255 arguments"
  | secondAccess => "Only one access modifier is allowed"
  | secondDispatch => "A method takes at most one of 'virtual' or 'override'"
  | dispatchOnField => "'virtual' and 'override' apply to methods only"
  | invalidTarget => "Invalid assignment target"
  | nestedTooDeep => "Nested too deep"

structure SyntaxFault where
  /-- The text of the token; the end mark has none. -/
  found : Option String
  problem : SyntaxProblem
  deriving DecidableEq

def SyntaxFault.message (fault : SyntaxFault) : String :=
  (match fault.found with
    | some lexeme => "at '" ++ lexeme ++ "'"
    | none => "at end") ++ ": " ++ fault.problem.message

def Token.isFinish (token : Token) : Bool :=
  match token.kind with
  | .finish => true
  | _ => false

def Token.isTerminal (token : Token) (which : Terminal) : Bool :=
  match token.kind with
  | .terminal found => found = which
  | _ => false

def Token.isIdentifier (token : Token) : Bool :=
  match token.kind with
  | .identifier => true
  | _ => false

def Token.fault (token : Token) (problem : SyntaxProblem) : Located SyntaxFault :=
  { value := { found := if token.isFinish then none else some token.lexeme, problem }
    position := token.position }

namespace Parse

structure State where
  /-- The token passed last; before any token is passed, the first one. -/
  previous : Token
  current : Token
  upcoming : List Token
  /-- The number that the next reference gets. -/
  nextId : RefId

/-- Go past the current token, unless it is the last one or the end mark. -/
def State.advance (state : State) : State :=
  match state.current.isFinish, state.upcoming with
  | false, next :: rest =>
    { state with previous := state.current, current := next, upcoming := rest }
  | _, _ => state

/-- What a reader answers, and where it stands then. -/
inductive Reply (α : Type) where
  | ok (value : α) (state : State)
  | fault (fault : Located SyntaxFault) (state : State)

def Reply.state {α : Type} : Reply α → State
  | ok _ state | fault _ state => state

end Parse

def Parse (α : Type) : Type :=
  Parse.State → Parse.Reply α

namespace Parse

instance : Monad Parse where
  pure value := fun state => .ok value state
  bind reader next := fun state =>
    match reader state with
    | .ok value after => next value after
    | .fault fault after => .fault fault after

def failAt {α : Type} (token : Token) (problem : SyntaxProblem) : Parse α :=
  fun state => .fault (token.fault problem) state

def fail {α : Type} (problem : SyntaxProblem) : Parse α :=
  fun state => .fault (state.current.fault problem) state

def current : Parse Token :=
  fun state => .ok state.current state

def previous : Parse Token :=
  fun state => .ok state.previous state

def atEnd : Parse Bool :=
  fun state => .ok state.current.isFinish state

def check (which : Terminal) : Parse Bool :=
  fun state => .ok (state.current.isTerminal which) state

def checkNextIdentifier : Parse Bool :=
  fun state => .ok (state.upcoming.head?.any Token.isIdentifier) state

def advance : Parse Unit :=
  fun state => .ok () state.advance

/-- Pass the current token if it has the given fixed meaning. -/
def accept (which : Terminal) : Parse Bool :=
  fun state =>
    if state.current.isTerminal which then .ok true state.advance else .ok false state

/-- Pass the current token if the function knows it, and give what the function makes of it. -/
def acceptMap {α : Type} (recognise : Terminal → Option α) : Parse (Option α) :=
  fun state =>
    match state.current.kind with
    | .terminal which =>
      match recognise which with
      | some value => .ok (some value) state.advance
      | none => .ok none state
    | _ => .ok none state

/-- Pass a token that has to have the given fixed meaning. -/
def expect (which : Terminal) (what : String) : Parse Unit :=
  fun state =>
    if state.current.isTerminal which then .ok () state.advance
    else .fault (state.current.fault (.expected what)) state

def identifier (what : String) : Parse Identifier :=
  fun state =>
    if state.current.isIdentifier then
      .ok { name := state.current.lexeme, position := state.current.position } state.advance
    else .fault (state.current.fault (.expected what)) state

/-- A number for a new reference. -/
def freshId : Parse RefId :=
  fun state => .ok state.nextId { state with nextId := state.nextId + 1 }

/-- Try a reader, and stay in place when it has a fault. Running out of depth is passed on. -/
def attempt {α : Type} (reader : Parse α) : Parse (Option α) :=
  fun state =>
    match reader state with
    | .ok value after => .ok (some value) after
    | .fault fault after =>
      if fault.value.problem = .nestedTooDeep then .fault fault after else .ok none state

end Parse

end ClassScript
