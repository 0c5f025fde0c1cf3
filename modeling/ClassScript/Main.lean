import ClassScript.CommandLine.Answer
import Std.Time.DateTime.Timestamp

/-!
The command line program: it reads the files and the lines that a command needs, and prints what the
command answers.
-/

set_option autoImplicit false

namespace ClassScript.Program

def usage : String :=
  "Usage: classscript [--log] [--config FILE] " ++
    "(tokenize [--json] FILE | parse [--json] FILE | evaluate FILE | run FILE | repl)"

def misused : UInt32 := 2

/-- A clock that starts at the given time and moves on a little with each reading. -/
def clockFrom (start : Float) (reading : Nat) : Float :=
  start + reading.toFloat / 1000000.0

def now : IO Float := do
  let time ← Std.Time.Timestamp.now
  pure (Float.ofInt time.toNanosecondsSinceUnixEpoch.toInt / 1000000000.0)

def bytesOf? (name : String) : IO (Option ByteArray) := do
  try
    let bytes ← IO.FS.readBinFile name
    pure (some bytes)
  catch _ => pure none

def load (names : List String) : IO CommandLine.Files := do
  let found ← names.mapM fun name => do
    let bytes ← bytesOf? name
    pure (name, bytes)
  pure fun name => (found.lookup name).bind id

def deliver (answer : CommandLine.Answer) : IO UInt32 := do
  let out ← IO.getStdout
  out.putStr answer.out
  out.flush
  let err ← IO.getStderr
  err.putStr answer.err
  pure answer.code.toUInt32

/-- The bytes up to the next end of a line. -/
partial def readLine (input : IO.FS.Stream) (line : ByteArray) : IO ByteArray := do
  let byte ← input.read 1
  if byte.isEmpty then pure line
  else if byte.toList = [10] then pure (line ++ byte)
  else readLine input (line ++ byte)

/-- Run lines of standard input as they come. -/
partial def converse (session : Session) : IO UInt32 := do
  let line ← readLine (← IO.getStdin) ByteArray.empty
  if line.isEmpty then
    deliver { code := CommandLine.succeeded, out := "\n" }
  else
    match CommandLine.turn Session.ampleSteps session line with
    | none => pure CommandLine.stopped.toUInt32
    | some turn =>
      let _ ← deliver { code := CommandLine.succeeded, out := turn.out, err := turn.err }
      match turn.next with
      | some after => converse after
      | none => pure CommandLine.unreadable.toUInt32

def perform (invocation : Invocation) : IO UInt32 := do
  if invocation.log then
    IO.FS.writeFile "app.log" ""
  let clock := clockFrom (← now)
  let files ← load invocation.files
  match invocation.command, invocation.readSettings files with
  | .repl, .ok settings =>
    let _ ← deliver { code := CommandLine.succeeded, out := CommandLine.prompt }
    converse (.start settings clock .capturing)
  | _, _ =>
    match invocation.answer Session.ampleSteps clock files ByteArray.empty with
    | some answer => deliver answer
    | none => pure CommandLine.stopped.toUInt32

end ClassScript.Program

def main (words : List String) : IO UInt32 := do
  match ClassScript.Invocation.ofWords? words with
  | some invocation => ClassScript.Program.perform invocation
  | none =>
    IO.eprintln ClassScript.Program.usage
    pure ClassScript.Program.misused
