import ClassScript.Binding.Resolve
import ClassScript.Failure
import ClassScript.Run.Evaluate
import ClassScript.Syntax.Program
import ClassScript.Token.Scan

/-!
A session: texts are run or evaluated one after the other, and each sees the globals of those before
it. All static checks of a text come before any of it runs, so a text that they refuse leaves no
trace but the numbers of its references.
-/

set_option autoImplicit false

namespace ClassScript

open Run

/-- What a session keeps from one text to the next. -/
structure Session where
  settings : Settings
  /-- What the clock shows when it is read for the n-th time. -/
  clock : Nat → Float
  machine : Machine
  depths : Binding.Depths
  globals : Binding.Globals
  /-- The number of the next reference. -/
  nextId : RefId

/-- How a text ends: with a value, with a failure, or without more steps to go. -/
inductive Reply (α : Type) where
  | done (value : α) (session : Session)
  | failed (failure : Failure) (session : Session)
  | exhausted

namespace Session

def start (settings : Settings) (clock : Nat → Float) (sink : Sink) : Session :=
  { settings, clock
    machine := { frame := .top, store := .initial, sink, ticks := 0 }
    depths := .empty
    globals := .initial
    nextId := 0 }

def rules (session : Session) : Rules :=
  { depths := session.depths, maxDepth := session.settings.maxCallDepth, clock := session.clock }

/-- Read a text as a program. Reference numbers go on only if it can be read. -/
def readProgram (session : Session) (source : String) : Except Failure (List Stmt × Session) :=
  match Token.scan source with
  | .error fault => .error (.lexical fault)
  | .ok tokens =>
    match parseProgram tokens session.nextId with
    | .fault fault _ => .error (.syntactic fault)
    | .ok program state => .ok (program, { session with nextId := state.nextId })

def readExpression (session : Session) (source : String) : Except Failure (Expr × Session) :=
  match Token.scan source with
  | .error fault => .error (.lexical fault)
  | .ok tokens =>
    match parseExpression tokens session.nextId with
    | .fault fault _ => .error (.syntactic fault)
    | .ok expr state => .ok (expr, { session with nextId := state.nextId })

def commit (session : Session) (resolution : Binding.Resolution) : Session :=
  { session with
    globals := resolution.globals
    depths := session.depths.merge resolution.depths }

def stopFailure : Stop → Failure
  | .fault found => .runtime found
  | .sinkFull => .output

def perform {α : Type} (session : Session) (body : Rules → Eval α) : Reply α :=
  match body session.rules session.machine with
  | .done value machine => .done value { session with machine }
  | .stopped reason machine => .failed (stopFailure reason) { session with machine }
  | .exhausted => .exhausted

def atTop (session : Session) : Session :=
  { session with machine := { session.machine with frame := .top } }

/-- Run a text as a program; each of its statements may take that many steps. -/
def execute (steps : Nat) (session : Session) (source : String) : Reply Unit :=
  match session.readProgram source with
  | .error failure => .failed failure session
  | .ok (program, session) =>
    match Binding.resolveProgram session.globals program with
    | .error fault => .failed (.binding fault) session
    | .ok resolution =>
      (session.commit resolution).atTop.perform fun rules => interpret rules steps program

def evaluate (steps : Nat) (session : Session) (source : String) : Reply Value :=
  match session.readExpression source with
  | .error failure => .failed failure session
  | .ok (expr, session) =>
    match Binding.resolveLone session.globals expr with
    | .error fault => .failed (.binding fault) session
    | .ok resolution =>
      (session.commit resolution).perform fun rules => Run.evaluate rules steps expr

def takeLines (session : Session) : List String × Session :=
  (session.machine.sink.lines,
    { session with machine := { session.machine with sink := session.machine.sink.clear } })

structure Report where
  lines : List String
  failure : Option Failure

def run (steps : Nat) (session : Session) (source : String) : Option (Report × Session) :=
  match session.execute steps source with
  | .done _ after =>
    let (lines, after) := after.takeLines
    some ({ lines, failure := none }, after)
  | .failed failure after =>
    let (lines, after) := after.takeLines
    some ({ lines, failure := some failure }, after)
  | .exhausted => none

/-- A number of steps that no program comes to the end of. -/
def ampleSteps : Nat := Nat.pow 2 62

end Session

end ClassScript
