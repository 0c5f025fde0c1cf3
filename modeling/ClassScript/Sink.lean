/-!
Where printed lines go: they are kept as lines, or written as bytes with a newline after each, into
room that may be limited.
-/

set_option autoImplicit false

namespace ClassScript

inductive Sink where
  | kept (lines : Array String)
  /-- The bytes written so far, and how many more fit; no number means no limit. -/
  | written (bytes : ByteArray) (room : Option Nat)

namespace Sink

def capturing : Sink := .kept #[]

def writing (room : Option Nat) : Sink := .written ByteArray.empty room

/-- Print a line. Whether all of it found room comes with the sink afterwards; what fits stays. -/
def emit (sink : Sink) (line : String) : Bool × Sink :=
  match sink with
  | kept lines => (true, .kept (lines.push line))
  | written bytes none => (true, .written (bytes ++ (line ++ "\n").toUTF8) none)
  | written bytes (some room) =>
    let text := (line ++ "\n").toUTF8
    (text.size ≤ room, .written (bytes ++ text.extract 0 room) (some (room - text.size)))

def lines : Sink → List String
  | kept lines => lines.toList
  | written _ _ => []

def bytes : Sink → ByteArray
  | kept _ => ByteArray.empty
  | written bytes _ => bytes

/-- Take the kept lines out. -/
def clear : Sink → Sink
  | kept _ => capturing
  | written bytes room => .written bytes room

end Sink

/-- Lines as one text, a newline after each. -/
def linesText (lines : List String) : String :=
  String.join (lines.map (· ++ "\n"))

end ClassScript
