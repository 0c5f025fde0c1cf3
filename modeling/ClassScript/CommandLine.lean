/-!
What a command line asks for: a command, and options that may stand before or after it.
-/

set_option autoImplicit false

namespace ClassScript

inductive Command where
  /-- List the tokens of a file, as lines or as documents. -/
  | tokenize (file : String) (asDocument : Bool)
  /-- Show the tree of a file, as forms or as a document. -/
  | parse (file : String) (asDocument : Bool)
  | evaluate (file : String)
  | run (file : String)
  /-- Run lines of standard input one after the other. -/
  | repl

structure Invocation where
  command : Command
  settings : Option String
  log : Bool

namespace CommandLine

structure Options where
  settings : Option String := none
  log : Bool := false
  json : Bool := false

def Options.setSettings? (options : Options) (file : String) : Option Options :=
  if options.settings.isSome || file.isEmpty then none
  else some { options with settings := some file }

def Options.setLog? (options : Options) : Option Options :=
  if options.log then none else some { options with log := true }

def Options.setJson? (options : Options) : Option Options :=
  if options.json then none else some { options with json := true }

def isOption (word : String) : Bool :=
  match word.toList with
  | '-' :: _ :: _ => true
  | _ => false

def settingsWord? (word : String) : Option String :=
  let mark := "--config=".toList
  if mark.isPrefixOf word.toList then some (String.ofList (word.toList.drop mark.length)) else none

/-- Read options and names up to the end; the names come in the order in which they stand. When
`single` is set, the reader stops behind the first name. -/
def readWords (single json : Bool) (options : Options) (names : List String) :
    List String → Option (Options × List String × List String)
  | [] => some (options, names.reverse, [])
  | "--" :: rest => some (options, names.reverse ++ rest, [])
  | "--log" :: rest => do
    let options ← options.setLog?
    readWords single json options names rest
  | "--config" :: file :: rest => do
    if isOption file then none
    let options ← options.setSettings? file
    readWords single json options names rest
  | word :: rest =>
    if word = "--json" && json then do
      let options ← options.setJson?
      readWords single json options names rest
    else
      match settingsWord? word with
      | some file => do
        let options ← options.setSettings? file
        readWords single json options names rest
      | none =>
        if isOption word then none
        else if single then some (options, (word :: names).reverse, rest)
        else readWords single json options (word :: names) rest

def command? (name : String) (json : Bool) : List String → Option Command
  | [] => if name = "repl" then some .repl else none
  | [file] =>
    if file.isEmpty then none
    else
      match name with
      | "tokenize" => some (.tokenize file json)
      | "parse" => some (.parse file json)
      | "evaluate" => some (.evaluate file)
      | "run" => some (.run file)
      | _ => none
  | _ => none

end CommandLine

/-- Read the words of a command line. Of two files with settings the one behind the command
counts. -/
def Invocation.ofWords? (words : List String) : Option Invocation := do
  let (before, names, rest) ← CommandLine.readWords true false {} [] words
  let [name] := names | none
  let json := name == "tokenize" || name == "parse"
  let (behind, files, _) ← CommandLine.readWords false json {} [] rest
  let command ← CommandLine.command? name behind.json files
  some
    { command
      settings := behind.settings <|> before.settings
      log := before.log || behind.log }

def Invocation.files (invocation : Invocation) : List String :=
  invocation.settings.toList ++
    match invocation.command with
    | .tokenize file _ | .parse file _ | .evaluate file | .run file => [file]
    | .repl => []

end ClassScript
