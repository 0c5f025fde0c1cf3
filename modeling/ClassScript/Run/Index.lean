import ClassScript.Run.Fault
import ClassScript.Store

/-!
Reading and writing the items of arrays, maps and strings.
-/

set_option autoImplicit false

namespace ClassScript.Run

/-- The slot that an index means in a sequence of the given length. -/
def slot (index : Value) (length : Nat) : Except RuntimeFault Nat :=
  match index with
  | .number value =>
    match Number.natural? value with
    | some n => if n < length then .ok n else .error (.outOfBounds value length)
    | none => .error (.outOfBounds value length)
  | other => .error (.arrayIndex other.kind)

def mapKey (index : Value) : Except RuntimeFault String :=
  match index with
  | .text key => .ok key
  | other => .error (.mapKey other.kind)

def readIndex (store : Store) (object index : Value) : Except RuntimeFault Value :=
  match object with
  | .array ref => do
    let items := store.items ref
    let n ← slot index items.size
    .ok (items[n]?.getD .nil)
  | .map ref => do
    let key ← mapKey index
    match (store.entries ref).find? key with
    | some value => .ok value
    | none => .error (.undefinedKey key)
  | .text text => do
    let characters := text.toList
    let n ← slot index characters.length
    .ok (.text (String.ofList (characters[n]?.toList)))
  | other => .error (.notIndexable other.kind)

/-- A place in a container that a value can be put into. -/
inductive Place where
  | slot (ref : ArrayRef) (n : Nat)
  | key (ref : MapRef) (key : String)

def findPlace (store : Store) (object index : Value) : Except RuntimeFault Place :=
  match object with
  | .array ref => do
    let n ← slot index (store.items ref).size
    .ok (.slot ref n)
  | .map ref => do
    let key ← mapKey index
    .ok (.key ref key)
  | other => .error (.notIndexAssignable other.kind)

def put (store : Store) (place : Place) (value : Value) : Store :=
  match place with
  | .slot ref n => store.setItem ref n value
  | .key ref key => store.setEntry ref key value

/-- The store after the item that an index means has been given a value. -/
def writeIndex (store : Store) (object index value : Value) : Except RuntimeFault Store := do
  let place ← findPlace store object index
  .ok (put store place value)

end ClassScript.Run
