import ClassScript.CommandLine
import ClassScript.Session
import ClassScript.Syntax.Document
import ClassScript.Syntax.Form
import ClassScript.Text.Blank
import ClassScript.Text.Encoding

/-!
What the commands answer: texts for the two output streams and an exit code. Files and standard
input are given as bytes.
-/

set_option autoImplicit false

namespace ClassScript.CommandLine

structure Answer where
  code : Nat
  out : String := ""
  err : String := ""

def succeeded : Nat := 0

def unreadable : Nat := 1

def malformed : Nat := 65

def stopped : Nat := 70

def failureCode (failure : Failure) : Nat :=
  if failure.isStatic then malformed else stopped

structure Trouble where
  context : String
  cause : String

def Trouble.text (trouble : Trouble) : String :=
  "Error: " ++ trouble.context ++ "\n\nCaused by:\n    " ++ trouble.cause ++ "\n"

def Trouble.answer (trouble : Trouble) : Answer :=
  { code := unreadable, err := trouble.text }

def failed (out : String) (failure : Failure) : Answer :=
  { code := failureCode failure, out, err := failure.text ++ "\n" }

def Files : Type :=
  String → Option ByteArray

def noSuchFile : String :=
  "No such file or directory (os error 2)"

def readSource (files : Files) (name : String) : Except Trouble String :=
  match files name with
  | none => .error { context := "Failed to open file " ++ Text.quoted name, cause := noSuchFile }
  | some bytes =>
    match Text.decode bytes with
    | .ok text => .ok text
    | .error fault =>
      .error
        { context := "File " ++ Text.quoted name ++ " is not valid UTF-8"
          cause := fault.message }

def readSettings (files : Files) (name : String) : Except Trouble Settings :=
  let context := "Failed to load configuration " ++ Text.quoted name
  match files name with
  | none => .error { context, cause := noSuchFile }
  | some bytes =>
    let read := match Text.decode bytes with
      | .ok text => Settings.read text
      | .error _ => .error .unreadable
    match read with
    | .ok settings => .ok settings
    | .error fault => .error { context, cause := (Failure.settings fault).text }

/-! ### Texts -/

def tokenLine (asDocument : Bool) (token : Token) : String :=
  if asDocument then token.document.compact else token.listed

def tokenize (source : String) (asDocument : Bool) : Answer :=
  let items := Token.scanAll source
  let lines := items.filterMap fun
    | .ok token => some (tokenLine asDocument token)
    | .error _ => none
  let faults := items.filterMap fun
    | .ok _ => none
    | .error fault => some (Failure.lexical fault).text
  { code := if faults.isEmpty then succeeded else malformed
    out := linesText lines
    err := linesText faults }

def parse (source : String) (asDocument : Bool) : Answer :=
  match Token.scan source with
  | .error fault => failed "" (.lexical fault)
  | .ok tokens =>
    let found := parseRecovering tokens 0
    if found.faults.isEmpty then
      let lines :=
        if asDocument then [(Document.list (Stmt.documents found.statements)).pretty]
        else found.statements.map Stmt.form
      { code := succeeded, out := linesText lines }
    else
      { code := malformed
        err := linesText (found.faults.map fun fault => (Failure.syntactic fault).text) }

/-- The value of a text; no answer when the steps are used up. -/
def evaluate (steps : Nat) (session : Session) (source : String) : Option Answer :=
  match session.evaluate steps source with
  | .done value after =>
    some
      { code := succeeded
        out := linesText (after.takeLines.1 ++ [after.machine.store.shown value]) }
  | .failed failure after => some (failed (linesText after.takeLines.1) failure)
  | .exhausted => none

def run (steps : Nat) (session : Session) (source : String) : Option Answer :=
  match session.run steps source with
  | some ({ lines, failure := none }, _) =>
    some { code := succeeded, out := linesText lines }
  | some ({ lines, failure := some failure }, _) => some (failed (linesText lines) failure)
  | none => none

/-! ### Lines of standard input -/

def prompt : String := "> "

structure Turn where
  out : String := ""
  err : String := ""
  next : Option Session

def withoutMark (line : String) : String :=
  match line.toList.reverse with
  | '\n' :: '\r' :: rest => String.ofList rest.reverse
  | '\n' :: rest => String.ofList rest.reverse
  | _ => line

/-- Run a line, given as bytes with its end mark. Blank lines are passed over. -/
def turn (steps : Nat) (session : Session) (bytes : ByteArray) : Option Turn :=
  match String.fromUTF8? bytes with
  | none =>
    let trouble : Trouble :=
      { context := "Failed to read from stdin", cause := "stream did not contain valid UTF-8" }
    some { err := trouble.text, next := none }
  | some text =>
    let line := withoutMark text
    if line.toList.all Text.isBlank then
      some { out := prompt, next := some session }
    else
      match session.run steps line with
      | none => none
      | some (report, after) =>
        some
          { out := linesText report.lines ++ prompt
            err := linesText (report.failure.map Failure.text).toList
            next := some after }

def linesOf (line : List UInt8) : List UInt8 → List (List UInt8)
  | [] => if line.isEmpty then [] else [line.reverse]
  | 10 :: rest => (10 :: line).reverse :: linesOf [] rest
  | byte :: rest => linesOf (byte :: line) rest

def converse (steps : Nat) (session : Session) : List ByteArray → Option Answer
  | [] => some { code := succeeded, out := "\n" }
  | line :: rest => do
    let step ← turn steps session line
    match step.next with
    | none => some { code := unreadable, out := step.out, err := step.err }
    | some after =>
      let answer ← converse steps after rest
      some { answer with out := step.out ++ answer.out, err := step.err ++ answer.err }

def repl (steps : Nat) (session : Session) (input : ByteArray) : Option Answer := do
  let lines := (linesOf [] input.toList).map fun line => ByteArray.mk line.toArray
  let answer ← converse steps session lines
  some { answer with out := prompt ++ answer.out }

end ClassScript.CommandLine

namespace ClassScript

open CommandLine

def CommandLine.withSource (files : Files) (name : String) (use : String → Option Answer) :
    Option Answer :=
  match readSource files name with
  | .error trouble => some trouble.answer
  | .ok source => use source

def Invocation.readSettings (invocation : Invocation) (files : Files) :
    Except Trouble Settings :=
  match invocation.settings with
  | none => .ok {}
  | some name => CommandLine.readSettings files name

/-- The answer to an invocation; none when the steps are used up. -/
def Invocation.answer (steps : Nat) (clock : Nat → Float) (files : Files) (input : ByteArray)
    (invocation : Invocation) : Option Answer :=
  match invocation.readSettings files with
  | .error trouble => some trouble.answer
  | .ok settings =>
    let session := Session.start settings clock .capturing
    match invocation.command with
    | .tokenize file asDocument =>
      withSource files file fun source => some (tokenize source asDocument)
    | .parse file asDocument =>
      withSource files file fun source => some (parse source asDocument)
    | .evaluate file => withSource files file (evaluate steps session)
    | .run file => withSource files file (run steps session)
    | .repl => repl steps session input

end ClassScript
