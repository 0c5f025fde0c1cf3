import ClassScript.Binding.Scope
import ClassScript.Run.Fault
import ClassScript.Sink
import ClassScript.Store.Shown

/-!
A running program: where it stands, the store, and what it has printed. Evaluation either finishes
with a value, or stops, or uses up the steps it was given; the machine afterwards comes with the
first two.
-/

set_option autoImplicit false

namespace ClassScript.Run

structure Frame where
  scope : ScopeRef
  /-- The class whose text is being executed. -/
  classRef : Option ClassRef
  /-- How many calls are under way. -/
  depth : Nat

def Frame.top : Frame :=
  { scope := Store.globalScope, classRef := none, depth := 0 }

structure Machine where
  frame : Frame
  store : Store
  sink : Sink
  /-- How many times the clock has been read. -/
  ticks : Nat

/-- What stays the same while a program runs. -/
structure Rules where
  depths : Binding.Depths
  /-- How many calls may be under way at once. -/
  maxDepth : Nat
  /-- What the clock shows when it is read for the n-th time. -/
  clock : Nat → Float

inductive Stop where
  | fault (found : Located RuntimeFault)
  /-- A printed line did not find room. -/
  | sinkFull

inductive Outcome (α : Type) where
  | done (value : α) (machine : Machine)
  | stopped (reason : Stop) (machine : Machine)
  /-- The steps were used up. -/
  | exhausted

/-- An evaluation that yields an `α`. -/
def Eval (α : Type) : Type :=
  Machine → Outcome α

namespace Eval

@[always_inline, inline]
instance : Monad Eval where
  pure value := fun machine => .done value machine
  bind first next := fun machine =>
    match first machine with
    | .done value after => next value after
    | .stopped reason after => .stopped reason after
    | .exhausted => .exhausted

def exhaust {α : Type} : Eval α :=
  fun _ => .exhausted

def fail {α : Type} (position : Position) (fault : RuntimeFault) : Eval α :=
  fun machine => .stopped (.fault { value := fault, position }) machine

def attempt {α : Type} (position : Position) (result : Except RuntimeFault α) : Eval α :=
  match result with
  | .ok value => pure value
  | .error fault => fail position fault

def frame : Eval Frame :=
  fun machine => .done machine.frame machine

def inspect {α : Type} (look : Store → α) : Eval α :=
  fun machine => .done (look machine.store) machine

def change (update : Store → Store) : Eval Unit :=
  fun machine => .done () { machine with store := update machine.store }

def add {α : Type} (extend : Store → α × Store) : Eval α :=
  fun machine =>
    let (value, store) := extend machine.store
    .done value { machine with store }

/-- Stand somewhere else during an evaluation, and come back however it ends. -/
def within {α : Type} (frame : Frame) (body : Eval α) : Eval α :=
  fun machine =>
    let home := machine.frame
    match body { machine with frame } with
    | .done value after => .done value { after with frame := home }
    | .stopped reason after => .stopped reason { after with frame := home }
    | .exhausted => .exhausted

def withinScope {α : Type} (scope : ScopeRef) (body : Eval α) : Eval α :=
  fun machine => within { machine.frame with scope } body machine

def innerScope : Eval ScopeRef := do
  let frame ← frame
  add fun store => store.addScope { bindings := ∅, enclosing := some frame.scope }

def define (name : String) (value : Value) : Eval Unit := do
  let frame ← frame
  change fun store => store.define frame.scope name value

def shown (value : Value) : Eval String :=
  inspect fun store => store.shown value

def emit (line : String) : Eval Unit :=
  fun machine =>
    match machine.sink.emit line with
    | (true, sink) => .done () { machine with sink }
    | (false, sink) => .stopped .sinkFull { machine with sink }

def readClock (rules : Rules) : Eval Float :=
  fun machine => .done (rules.clock machine.ticks) { machine with ticks := machine.ticks + 1 }

end Eval

end ClassScript.Run
