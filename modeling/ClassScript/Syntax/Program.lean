import ClassScript.Syntax.Grammar

/-!
Programs read from tokens: as a whole up to the first fault, as a whole with every fault that shows
after the reader has gone on to the next statement, or as a single expression.
-/

set_option autoImplicit false

namespace ClassScript

namespace Parse

def State.ofTokens (tokens : List Token) (firstId : RefId) : State :=
  match tokens with
  | [] =>
    let mark : Token := { kind := .finish, lexeme := "", position := .start }
    { previous := mark, current := mark, upcoming := [], nextId := firstId }
  | first :: rest => { previous := first, current := first, upcoming := rest, nextId := firstId }

/-- A bound on the nesting of grammar rules that the given number of tokens does not reach. -/
def depthBound (tokens : Nat) : Nat :=
  32 * (tokens + 2)

/-- Whether a statement is likely to begin with the token. -/
def beginsStatement (token : Token) : Bool :=
  match token.kind with
  | .terminal .classWord | .terminal .fnWord | .terminal .varWord | .terminal .forWord
  | .terminal .ifWord | .terminal .whileWord | .terminal .printWord | .terminal .returnWord => true
  | _ => false

/-- Go on to a token after a semicolon, a token that begins a statement, or the end mark. -/
def resume (previous current : Token) (upcoming : List Token) (nextId : RefId) : State :=
  if current.isFinish || previous.isTerminal .semicolon || beginsStatement current then
    { previous, current, upcoming, nextId }
  else
    match upcoming with
    | [] => { previous, current, upcoming := [], nextId }
    | next :: rest => resume current next rest nextId

/-- Leave the token of a fault behind and go on to where a statement may begin. -/
def State.synchronize (state : State) : State :=
  let next := state.advance
  resume next.previous next.current next.upcoming next.nextId

/-- What is left of a program with faults. -/
structure Recovered where
  statements : List Stmt
  faults : List (Located SyntaxFault)
  nextId : RefId

/-- Read declarations, going on after each fault; `steps` bounds how many are tried. -/
def recover (depth : Nat) : Nat → State → Recovered
  | 0, state => { statements := [], faults := [], nextId := state.nextId }
  | steps + 1, state =>
    if state.current.isFinish then { statements := [], faults := [], nextId := state.nextId }
    else
      match Grammar.declaration depth state with
      | .ok statement after =>
        let rest := recover depth steps after
        { rest with statements := statement :: rest.statements }
      | .fault fault after =>
        let rest := recover depth steps after.synchronize
        { rest with faults := fault :: rest.faults }

end Parse

def parseProgram (tokens : List Token) (firstId : RefId) : Parse.Reply (List Stmt) :=
  Grammar.declarations (Parse.depthBound tokens.length) (.ofTokens tokens firstId)

def parseRecovering (tokens : List Token) (firstId : RefId) : Parse.Recovered :=
  Parse.recover (Parse.depthBound tokens.length) (tokens.length + 1) (.ofTokens tokens firstId)

def parseExpression (tokens : List Token) (firstId : RefId) : Parse.Reply Expr :=
  Grammar.loneExpression (Parse.depthBound tokens.length) (.ofTokens tokens firstId)

end ClassScript
