import ClassScript.Session

/-!
A session is asked one text after the other. What it answers falls into the static checks of the
text, which yield code, and the evaluation of that code.
-/

set_option autoImplicit false

namespace ClassScript

open Run

/-- A text that a session is asked to run as a program or to evaluate as a single expression. -/
inductive Input where
  | program (source : String)
  | expression (source : String)

/-- What a text that passes the static checks stands for. -/
inductive Code where
  | program (statements : List Stmt)
  | expression (expr : Expr)

namespace Code

def resolve (globals : Binding.Globals) :
    Code → Except (Located Binding.Fault) Binding.Resolution
  | .program statements => Binding.resolveProgram globals statements
  | .expression expr => Binding.resolveLone globals expr

/-- Where a session stands when it begins to evaluate code. -/
def place : Code → Session → Session
  | .program _, session => session.atTop
  | .expression _, session => session

def run (rules : Rules) (steps : Nat) : Code → Eval (Option Value)
  | .program statements => do
    interpret rules steps statements
    pure none
  | .expression expr => do
    let value ← Run.evaluate rules steps expr
    pure (some value)

end Code

namespace Reply

variable {α β : Type}

def map (change : α → β) : Reply α → Reply β
  | .done value session => .done (change value) session
  | .failed failure session => .failed failure session
  | .exhausted => .exhausted

def session? : Reply α → Option Session
  | .done _ session | .failed _ session => some session
  | .exhausted => none

end Reply

namespace Session

def respond (steps : Nat) (session : Session) : Input → Reply (Option Value)
  | .program source => (session.execute steps source).map fun _ => none
  | .expression source => (session.evaluate steps source).map some

def read (session : Session) : Input → Except Failure (Code × Session)
  | .program source =>
    (session.readProgram source).map fun (program, after) => (.program program, after)
  | .expression source =>
    (session.readExpression source).map fun (expr, after) => (.expression expr, after)

/-- The static checks of an input: its code or what is wrong with it, and the session afterwards. -/
def check (session : Session) (input : Input) : Except Failure Code × Session :=
  match session.read input with
  | .error failure => (.error failure, session)
  | .ok (code, session) =>
    match code.resolve session.globals with
    | .error fault => (.error (.binding fault), session)
    | .ok resolution => (.ok code, code.place (session.commit resolution))

def proceed (steps : Nat) (checked : Except Failure Code × Session) : Reply (Option Value) :=
  match checked with
  | (.error failure, after) => .failed failure after
  | (.ok code, ready) => ready.perform fun rules => code.run rules steps

private theorem perform_map {α β : Type} (session : Session) (body : Rules → Eval α)
    (change : α → β) : (session.perform body).map change =
      session.perform fun rules => body rules >>= fun value => pure (change value) := by
  unfold perform
  simp only [bind]
  cases body session.rules session.machine <;> rfl

theorem respond_eq (steps : Nat) (session : Session) (input : Input) :
    session.respond steps input = proceed steps (session.check input) := by
  cases input with
  | program source =>
    simp only [respond, execute, check, read]
    cases session.readProgram source with
    | error failure => rfl
    | ok read =>
      simp only [Except.map, Code.resolve]
      cases Binding.resolveProgram read.2.globals read.1 with
      | error fault => rfl
      | ok resolution => exact perform_map _ _ _
  | expression source =>
    simp only [respond, evaluate, check, read]
    cases session.readExpression source with
    | error failure => rfl
    | ok read =>
      simp only [Except.map, Code.resolve]
      cases Binding.resolveLone read.2.globals read.1 with
      | error fault => rfl
      | ok resolution => exact perform_map _ _ _

/-- How an input may be answered. -/
inductive Responds (steps : Nat) (session : Session) (input : Input) : Reply (Option Value) → Prop
  | refused {failure : Failure} {after : Session}
    (checked : session.check input = (.error failure, after)) :
    Responds steps session input (.failed failure after)
  | done {code : Code} {ready : Session} {value : Option Value} {machine : Machine}
    (checked : session.check input = (.ok code, ready))
    (ran : code.run ready.rules steps ready.machine = .done value machine) :
    Responds steps session input (.done value { ready with machine })
  | stopped {code : Code} {ready : Session} {reason : Stop} {machine : Machine}
    (checked : session.check input = (.ok code, ready))
    (ran : code.run ready.rules steps ready.machine = .stopped reason machine) :
    Responds steps session input (.failed (stopFailure reason) { ready with machine })
  | exhausted : Responds steps session input .exhausted

theorem responds (steps : Nat) (session : Session) (input : Input) :
    session.Responds steps input (session.respond steps input) := by
  rw [respond_eq]
  cases checked : session.check input with
  | mk found ready =>
    cases found with
    | error failure => exact .refused checked
    | ok code =>
      simp only [proceed, perform]
      cases ran : code.run ready.rules steps ready.machine with
      | done value machine => exact .done checked ran
      | stopped reason machine => exact .stopped checked ran
      | exhausted => exact .exhausted

/-- A change of a session that the static checks neither see nor undo. -/
structure Unseen (change : Session → Session) : Prop where
  nextId : ∀ session, (change session).nextId = session.nextId
  globals : ∀ session, (change session).globals = session.globals
  counted : ∀ (session : Session) (nextId : RefId),
    change { session with nextId } = { change session with nextId }
  placed : ∀ (session : Session) resolution (code : Code),
    change (code.place (session.commit resolution)) =
      code.place ((change session).commit resolution)

variable {change : Session → Session} {failure : Failure} {input : Input} {session : Session}

theorem Unseen.read (unseen : Unseen change) (session : Session) (input : Input) :
    (change session).read input =
      (session.read input).map fun found => (found.1, change found.2) := by
  cases input with
  | program source =>
    simp only [Session.read, readProgram, unseen.nextId]
    cases Token.scan source with
    | error fault => rfl
    | ok tokens =>
      simp only
      cases parseProgram tokens session.nextId with
      | fault fault state => rfl
      | ok program state =>
        simp only [Except.map]
        rw [unseen.counted session state.nextId]
  | expression source =>
    simp only [Session.read, readExpression, unseen.nextId]
    cases Token.scan source with
    | error fault => rfl
    | ok tokens =>
      simp only
      cases parseExpression tokens session.nextId with
      | fault fault state => rfl
      | ok expr state =>
        simp only [Except.map]
        rw [unseen.counted session state.nextId]

theorem Unseen.check (unseen : Unseen change) (session : Session) (input : Input) :
    (change session).check input = ((session.check input).1, change (session.check input).2) := by
  simp only [Session.check, unseen.read]
  cases session.read input with
  | error failure => rfl
  | ok found =>
    obtain ⟨code, after⟩ := found
    simp only [Except.map, unseen.globals]
    cases code.resolve after.globals with
    | error fault => rfl
    | ok resolution => simp only [unseen.placed]

private theorem isStatic_of_read (unreadable : session.read input = .error failure) :
    failure.isStatic := by
  cases input with
  | program source =>
    simp only [read, readProgram] at unreadable
    split at unreadable
    · obtain rfl := Except.error.inj unreadable
      rfl
    · split at unreadable
      · obtain rfl := Except.error.inj unreadable
        rfl
      · simp [Except.map] at unreadable
  | expression source =>
    simp only [read, readExpression] at unreadable
    split at unreadable
    · obtain rfl := Except.error.inj unreadable
      rfl
    · split at unreadable
      · obtain rfl := Except.error.inj unreadable
        rfl
      · simp [Except.map] at unreadable

theorem isStatic_of_check {after : Session}
    (checked : session.check input = (.error failure, after)) : failure.isStatic := by
  unfold check at checked
  split at checked
  · rename_i unreadable
    obtain ⟨same, -⟩ := Prod.mk.inj checked
    exact Except.error.inj same ▸ isStatic_of_read unreadable
  · split at checked
    · obtain ⟨same, -⟩ := Prod.mk.inj checked
      obtain rfl := Except.error.inj same
      rfl
    · simp at checked

private theorem isStatic_stopFailure (reason : Stop) : (stopFailure reason).isStatic = false := by
  cases reason <;> rfl

theorem check_of_static {steps : Nat} {after : Session}
    (failed : session.respond steps input = .failed failure after) (static : failure.isStatic) :
    session.check input = (.error failure, after) := by
  have responds := session.responds steps input
  rw [failed] at responds
  cases responds with
  | refused checked => exact checked
  | stopped checked ran =>
    rw [isStatic_stopFailure] at static
    cases static

end Session

end ClassScript
