import ClassScript.Proofs.StepMonotonicity

/-!
The jumps of `break` and `continue`. Execution of a body is repeated here with a journal of jumps,
by the addresses that they start from and are caught at.
-/

set_option autoImplicit false

namespace ClassScript

/-- The way to a statement from the outside: in each step the number of a part. -/
abbrev Address := List Nat

namespace Stmt

/-- The part of a statement with a number, and whether it is the body of a loop. -/
def part? : Stmt → Nat → Option (Stmt × Bool)
  | .block body, index => body[index]?.map (·, false)
  | .branch _ whenTrue _, 0 => some (whenTrue, false)
  | .branch _ _ (some whenFalse), 1 => some (whenFalse, false)
  | .loop _ body, 0 => some (body, true)
  | .countedLoop _ _ _ body, 0 => some (body, true)
  | .countedLoop (some initial) _ _ _, 1 => some (initial, false)
  | _, _ => none

theorem part?_block {stmts : List Stmt} {index : Nat} {stmt : Stmt}
    (found : stmts[index]? = some stmt) : (block stmts).part? index = some (stmt, false) := by
  rw [part?, found]
  rfl

/-- The statement at the end of a way, and the address of the innermost loop around it; the way
begins at a statement with an address and a loop around it. -/
def locate : Address → Option Address → Stmt → Address → Option (Stmt × Option Address)
  | _, around, stmt, [] => some (stmt, around)
  | here, around, stmt, index :: way =>
    match stmt.part? index with
    | none => none
    | some (part, looped) =>
      part.locate (here ++ [index]) (if looped then some here else around) way

end Stmt

def locateIn (body : List Stmt) (address : Address) : Option (Stmt × Option Address) :=
  Stmt.locate [] none (.block body) address

/-- The statement has the address in a body, and the loop is the innermost one around it. -/
def StandsAt (body : List Stmt) (here : Address) (loop : Option Address) (stmt : Stmt) : Prop :=
  ∀ way, locateIn body (here ++ way) = stmt.locate here loop way

namespace StandsAt

variable {body : List Stmt} {here : Address} {loop : Option Address} {stmt : Stmt}

theorem whole (body : List Stmt) : StandsAt body [] none (.block body) :=
  fun _ => rfl

theorem located (stands : StandsAt body here loop stmt) :
    locateIn body here = some (stmt, loop) := by
  have found := stands []
  rwa [List.append_nil, Stmt.locate] at found

theorem part (stands : StandsAt body here loop stmt) {index : Nat} {part : Stmt} {looped : Bool}
    (isPart : stmt.part? index = some (part, looped)) :
    StandsAt body (here ++ [index]) (if looped then some here else loop) part := by
  intro way
  have found := stands (index :: way)
  rw [Stmt.locate, isPart] at found
  rwa [List.append_assoc]

theorem plainPart (stands : StandsAt body here loop stmt) {index : Nat} {part : Stmt}
    (isPart : stmt.part? index = some (part, false)) : StandsAt body (here ++ [index]) loop part :=
  stands.part isPart

theorem loopBody (stands : StandsAt body here loop stmt) {index : Nat} {part : Stmt}
    (isPart : stmt.part? index = some (part, true)) :
    StandsAt body (here ++ [index]) (some here) part :=
  stands.part isPart

end StandsAt

/-- The ways to leave a loop's body early: out of the loop, or to its next round. -/
inductive Jump where
  | out
  | next
  deriving DecidableEq

def Stmt.jump? : Stmt → Option Jump
  | .breakLoop _ => some .out
  | .continueLoop _ => some .next
  | _ => none

inductive JumpNote where
  | jumped (jump : Jump) (origin : Address)
  | caught (jump : Jump) (loop : Address)
  deriving DecidableEq

namespace Run

open Eval

/-- An evaluation that keeps a journal of jumps, which stays when it uses up its steps. -/
def Journaled (α : Type) : Type :=
  Machine → List JumpNote × Outcome α

namespace Journaled

variable {α β : Type}

instance : Monad Journaled where
  pure value := fun machine => ([], .done value machine)
  bind first next := fun machine =>
    match first machine with
    | (journal, .done value after) => (journal ++ (next value after).1, (next value after).2)
    | (journal, .stopped reason after) => (journal, .stopped reason after)
    | (journal, .exhausted) => (journal, .exhausted)

def lift (body : Eval α) : Journaled α :=
  fun machine => ([], body machine)

def note (entry : JumpNote) : Journaled Unit :=
  fun machine => ([entry], .done () machine)

def withinScope (scope : ScopeRef) (body : Journaled α) : Journaled α :=
  fun machine =>
    let (journal, outcome) := body { machine with frame := { machine.frame with scope } }
    (journal, outcome.backTo machine.frame)

mutual

def execute (rules : Rules) : Nat → Address → Stmt → Journaled Flow
  | 0, _, _ => lift exhaust
  | steps + 1, here, stmt =>
    match stmt with
    | .block body => do
      let scope ← lift innerScope
      withinScope scope (executeAll rules steps here 0 body)
    | .branch condition whenTrue whenFalse => do
      let value ← lift (evaluate rules steps condition)
      let holds ← lift (attempt condition.position (truth value))
      if holds then
        execute rules steps (here ++ [0]) whenTrue
      else
        executeOptional rules steps (here ++ [1]) whenFalse
    | .loop condition body => repeatLoop rules steps here (some condition) none body
    | .countedLoop initial condition increment body => do
      let scope ← lift innerScope
      withinScope scope (runLoop rules steps here initial condition increment body)
    | .breakLoop _ => do
      note (.jumped .out here)
      pure .broken
    | .continueLoop _ => do
      note (.jumped .next here)
      pure .continued
    | other => lift (Run.execute rules (steps + 1) other)

def executeAll (rules : Rules) : Nat → Address → Nat → List Stmt → Journaled Flow
  | 0, _, _, _ => lift exhaust
  | _ + 1, _, _, [] => pure .normal
  | steps + 1, here, index, stmt :: rest => do
    match ← execute rules steps (here ++ [index]) stmt with
    | .normal => executeAll rules steps here (index + 1) rest
    | flow => pure flow

def executeOptional (rules : Rules) : Nat → Address → Option Stmt → Journaled Flow
  | 0, _, _ => lift exhaust
  | _ + 1, _, none => pure .normal
  | steps + 1, here, some stmt => execute rules steps here stmt

def runLoop (rules : Rules) :
    Nat → Address → Option Stmt → Option Expr → Option Expr → Stmt → Journaled Flow
  | 0, _, _, _, _, _ => lift exhaust
  | steps + 1, here, initial, condition, increment, body => do
    let _ ← executeOptional rules steps (here ++ [1]) initial
    repeatLoop rules steps here condition increment body

def repeatLoop (rules : Rules) :
    Nat → Address → Option Expr → Option Expr → Stmt → Journaled Flow
  | 0, _, _, _, _ => lift exhaust
  | steps + 1, here, condition, increment, body => do
    let holds ← lift (loopCondition rules steps condition)
    if holds then
      match ← execute rules steps (here ++ [0]) body with
      | .broken => do
        note (.caught .out here)
        pure .normal
      | .returned value => pure (.returned value)
      | .normal => do
        let _ ← lift (evaluateOptional rules steps increment)
        repeatLoop rules steps here condition increment body
      | .continued => do
        note (.caught .next here)
        let _ ← lift (evaluateOptional rules steps increment)
        repeatLoop rules steps here condition increment body
    else
      pure .normal

end

/-- Without its journal, the first evaluation is the second. -/
def Erases (journaled : Journaled α) (body : Eval α) : Prop :=
  ∀ machine, (journaled machine).2 = body machine

theorem Erases.bind {journaled : Journaled α} {body : Eval α} {next : α → Journaled β}
    {next' : α → Eval β} (first : Erases journaled body)
    (rest : ∀ value, Erases (next value) (next' value)) :
    Erases (journaled >>= next) (body >>= next') := by
  intro machine
  have same := first machine
  simp only [Bind.bind, ← same]
  rcases journaled machine with ⟨journal, _ | _ | _⟩
  · exact rest _ _
  · rfl
  · rfl

end Journaled

end Run

end ClassScript
