import ClassScript.Proofs.Nesting
import ClassScript.Run.Evaluate

/-!
Evaluation that takes notes: what each scope was made for, where each function and each class stands
in a text, and a moment for every expression and statement that is begun or acts.
-/

set_option autoImplicit false

namespace ClassScript.Run

structure Spot where
  nesting : Nesting
  /-- Innermost first, one for each layer of the nesting. -/
  trail : List ScopeRef

namespace Spot

def top : Spot :=
  { nesting := .top, trail := [] }

def enter (spot : Spot) (body : Body) (names : Dict Bool) (scope : ScopeRef) : Spot :=
  { nesting := .inside body names spot.nesting, trail := scope :: spot.trail }

def declare (spot : Spot) (name : String) : Spot :=
  { spot with nesting := spot.nesting.declare name }

def past (spot : Spot) (stmt : Stmt) : Spot :=
  { spot with nesting := spot.nesting.past stmt }

def pastOptional (spot : Spot) (stmt : Option Stmt) : Spot :=
  { spot with nesting := spot.nesting.pastOptional stmt }

end Spot

/-- Whether an expression or a statement is begun, or acts on the values of its operands. -/
inductive Phase where
  | begins
  | acts (operands : List Value)

/-- A moment of a run. -/
structure Moment where
  spot : Spot
  node : Node
  phase : Phase
  /-- How many set-ups of the fields of a class are under way. -/
  pending : Nat
  /-- What each scope of the store was made for. -/
  origins : Array (Option Construct)
  /-- The variables whose declaration has completed, with the scopes that hold them. -/
  completed : List (ScopeRef × String)
  machine : Machine

def Moment.site (moment : Moment) : Site :=
  { nesting := moment.spot.nesting, node := moment.node }

structure ClassNote where
  decl : ClassDecl Expr Stmt
  /-- The place right after the declaration. -/
  spot : Spot
  /-- The scopes that were made for the constructs around the methods. -/
  methodTrail : List ScopeRef

structure Notes where
  /-- What each scope of the store was made for; nothing in the text for that of the globals. -/
  origins : Array (Option Construct)
  /-- The place that the declaration of each function of the store is at. -/
  functions : Array Spot
  classes : Array ClassNote
  /-- The variables whose declaration has completed, with the scopes that hold them. -/
  completed : List (ScopeRef × String)
  /-- The moments, the last one first. -/
  moments : List Moment

namespace Notes

def start : Notes :=
  { origins := #[none], functions := #[], classes := #[], completed := [], moments := [] }

def addOrigin (origin : Option Construct) (notes : Notes) : Notes :=
  { notes with origins := notes.origins.push origin }

def addFunction (spot : Spot) (notes : Notes) : Notes :=
  { notes with functions := notes.functions.push spot }

def addClass (note : ClassNote) (notes : Notes) : Notes :=
  { notes with classes := notes.classes.push note }

def addCompleted (scope : ScopeRef) (name : String) (notes : Notes) : Notes :=
  { notes with completed := (scope, name) :: notes.completed }

/-- The construct that the methods of a class are bound in. -/
def receiver? (notes : Notes) (owner : ClassRef) : Option Construct :=
  notes.classes[owner]?.map fun note => .receiver note.decl

def methodSpot (notes : Notes) (owner : ClassRef) (scope : ScopeRef) : Spot :=
  match notes.classes[owner]? with
  | some note =>
    { nesting := .methods note.decl note.spot.nesting, trail := scope :: note.methodTrail }
  | none => .top

def fieldSpot (notes : Notes) (ref : ClassRef) : Spot :=
  match notes.classes[ref]? with
  | some note => { nesting := .fields note.decl note.spot.nesting, trail := note.spot.trail }
  | none => .top

def functionSpot (notes : Notes) (ref : FunctionRef) : Spot :=
  notes.functions[ref]?.getD .top

end Notes

/-- An evaluation that takes notes, which stay when it uses up its steps. -/
def Traced (α : Type) : Type :=
  Notes → Machine → Notes × Outcome α

namespace Traced

variable {α : Type}

instance : Monad Traced where
  pure value := fun notes machine => (notes, .done value machine)
  bind first next := fun notes machine =>
    match first notes machine with
    | (notes, .done value after) => next value notes after
    | (notes, .stopped reason after) => (notes, .stopped reason after)
    | (notes, .exhausted) => (notes, .exhausted)

def lift (body : Eval α) : Traced α :=
  fun notes machine => (notes, body machine)

theorem lift_bind {β : Type} (body : Eval α) (next : α → Eval β) :
    Traced.lift (body >>= next) = Traced.lift body >>= fun value => Traced.lift (next value) := by
  funext notes machine
  simp only [Traced.lift, bind]
  cases body machine <;> rfl

def noting (update : Notes → Notes) : Traced Unit :=
  fun notes machine => (update notes, .done () machine)

def consult (look : Notes → α) : Traced α :=
  fun notes machine => (notes, .done (look notes) machine)

def mark (pending : Nat) (spot : Spot) (node : Node) (phase : Phase) : Traced Unit :=
  fun notes machine =>
    let moment := { spot, node, phase, pending, origins := notes.origins,
                    completed := notes.completed, machine }
    ({ notes with moments := moment :: notes.moments }, .done () machine)

/-- Stand somewhere else during an evaluation, and come back however it ends. -/
def within (frame : Frame) (body : Traced α) : Traced α :=
  fun notes machine =>
    match body notes { machine with frame } with
    | (notes, .done value after) => (notes, .done value { after with frame := machine.frame })
    | (notes, .stopped reason after) =>
      (notes, .stopped reason { after with frame := machine.frame })
    | (notes, .exhausted) => (notes, .exhausted)

def withinScope (scope : ScopeRef) (body : Traced α) : Traced α :=
  fun notes machine => within { machine.frame with scope } body notes machine

def innerScope (body : Body) : Traced ScopeRef := do
  noting (Notes.addOrigin (some (.body body)))
  lift Eval.innerScope

def bindMethod (method : Method) (receiver : InstanceRef) : Traced Closure := do
  noting fun notes => notes.addOrigin (notes.receiver? method.member.owner)
  lift (Eval.add fun store => store.bindMethod method.closure receiver)

def boundMethod (method : Method) (receiver : InstanceRef) : Traced Value := do
  let closure ← bindMethod method receiver
  noting fun notes => notes.addFunction (notes.methodSpot method.member.owner closure.scope)
  let ref ← lift (Eval.add fun store => store.addFunction closure)
  pure (.function ref)

def readProperty (ref : InstanceRef) (name : Identifier) : Traced Value := do
  let found ← lift (Eval.inspect fun store => store.classOf? ref)
  match ← lift (Eval.inspect fun store => store.getField? ref name.name) with
  | some value =>
    lift (checkField (found.bind fun c => c.fields.find? name.name) name)
    pure value
  | none =>
    match found.bind fun c => c.methods.find? name.name with
    | some method =>
      lift (checkAccess method.member .method name.name name.position)
      boundMethod method ref
    | none =>
      lift (Eval.fail name.position
        (.undefinedProperty name.name ((found.map ClassObject.name).getD "")))

def readSuper (rules : Rules) (id : RefId) (position : Position) (method : Identifier) :
    Traced Value := do
  let frame ← lift Eval.frame
  let found ← lift (Eval.inspect fun store =>
    (rules.depths.find? id).bind fun depth => superPair store frame.scope depth)
  match found with
  | none => lift (Eval.fail position .superUnbound)
  | some (parent, receiver) =>
    match parent.methods.find? method.name with
    | none => lift (Eval.fail method.position (.undefinedMethod method.name parent.name))
    | some found =>
      lift (checkAccess found.member .method method.name method.position)
      boundMethod found receiver

def makeFunction (spot : Spot) (decl : FunctionDecl Stmt) : Traced Value := do
  noting (Notes.addFunction spot)
  lift (Run.makeFunction decl)

def completeVariable (name : String) (value : Value) : Traced Unit := do
  let frame ← lift Eval.frame
  lift (Eval.define name value)
  noting (Notes.addCompleted frame.scope name)

def superclassOf (rules : Rules) (decl : ClassDecl Expr Stmt) : Eval (Option ClassRef) :=
  match decl.superclass with
  | none => pure none
  | some parent => do
    match ← readVariable rules parent.id parent.name with
    | .classObject ref => pure (some ref)
    | other => Eval.fail parent.name.position (.superclass other.kind)

def methodScopeOf (superclass : Option ClassRef) (outer : ScopeRef) : Eval ScopeRef :=
  match superclass with
  | none => pure outer
  | some parent =>
    Eval.add fun store => store.addScope
      { bindings := Dict.empty.insert Store.superName (.classObject parent)
        enclosing := some outer }

def declareClass (rules : Rules) (spot : Spot) (decl : ClassDecl Expr Stmt) : Traced Unit := do
  let frame ← lift Eval.frame
  let superclass ← lift (superclassOf rules decl)
  noting fun notes =>
    if superclass.isSome then notes.addOrigin (some (.superclass decl)) else notes
  let methodScope ← lift (methodScopeOf superclass frame.scope)
  noting (Notes.addClass {
    decl
    spot := spot.past (.classDecl decl)
    methodTrail := if superclass.isSome then methodScope :: spot.trail else spot.trail })
  let ref ← lift (Eval.add fun store => store.addClass decl superclass frame.scope methodScope)
  lift (Eval.define decl.name.name (.classObject ref))

mutual

def evaluate (rules : Rules) : Nat → Nat → Spot → Expr → Traced Value
  | 0, _, _, _ => lift Eval.exhaust
  | steps + 1, pending, spot, expr => do
    mark pending spot (.expr expr) .begins
    match expr with
    | .literal value _ => pure (.ofLiteral value)
    | .unary operator operand position => do
      let value ← evaluate rules steps pending spot operand
      lift (Eval.attempt position (applyUnary operator value))
    | .binary left operator right position => do
      let first ← evaluate rules steps pending spot left
      let second ← evaluate rules steps pending spot right
      lift (Eval.attempt position (applyBinary operator first second))
    | .logical left operator right => do
      let first ← evaluate rules steps pending spot left
      let holds ← lift (Eval.attempt left.position (truth first))
      if decides operator holds then pure first else evaluate rules steps pending spot right
    | .group inner => evaluate rules steps pending spot inner
    | .reference id name => do
      mark pending spot (.expr expr) (.acts [])
      lift (readVariable rules id name)
    | .assign id name value => do
      let value ← evaluate rules steps pending spot value
      mark pending spot (.expr expr) (.acts [value])
      lift (writeVariable rules id name value)
      pure value
    | .call callee position arguments => do
      let callee ← evaluate rules steps pending spot callee
      let arguments ← evaluateAll rules steps pending spot arguments
      mark pending spot (.expr expr) (.acts (callee :: arguments))
      call rules steps pending callee arguments position
    | .property object name => do
      match ← evaluate rules steps pending spot object with
      | .object ref =>
        mark pending spot (.expr expr) (.acts [.object ref])
        readProperty ref name
      | other => lift (Eval.fail name.position (.propertyOf name.name other.kind))
    | .setProperty object name value => do
      match ← evaluate rules steps pending spot object with
      | .object ref =>
        let value ← evaluate rules steps pending spot value
        mark pending spot (.expr expr) (.acts [.object ref, value])
        lift (writeProperty ref name value)
        pure value
      | other => lift (Eval.fail name.position (.fieldOf other.kind))
    | .index object key position => do
      let object ← evaluate rules steps pending spot object
      let key ← evaluate rules steps pending spot key
      let result ← lift (Eval.inspect fun store => readIndex store object key)
      lift (Eval.attempt position result)
    | .setIndex object key value position => do
      let object ← evaluate rules steps pending spot object
      let key ← evaluate rules steps pending spot key
      let value ← evaluate rules steps pending spot value
      lift (assignIndex object key value position)
      pure value
    | .array elements _ => do
      let items ← evaluateAll rules steps pending spot elements
      let ref ← lift (Eval.add fun store => store.addArray items.toArray)
      pure (.array ref)
    | .map entries _ => do
      let entries ← evaluateEntries rules steps pending spot entries ∅
      let ref ← lift (Eval.add fun store => store.addMap entries)
      pure (.map ref)
    | .this id position => do
      mark pending spot (.expr expr) (.acts [])
      lift (readThis rules id position)
    | .super id position method => do
      mark pending spot (.expr expr) (.acts [])
      readSuper rules id position method
    | .lambda decl => makeFunction spot decl

def evaluateAll (rules : Rules) : Nat → Nat → Spot → List Expr → Traced (List Value)
  | 0, _, _, _ => lift Eval.exhaust
  | _ + 1, _, _, [] => pure []
  | steps + 1, pending, spot, expr :: rest => do
    let first ← evaluate rules steps pending spot expr
    let others ← evaluateAll rules steps pending spot rest
    pure (first :: others)

def evaluateShown (rules : Rules) : Nat → Nat → Spot → List Expr → Traced (List String)
  | 0, _, _, _ => lift Eval.exhaust
  | _ + 1, _, _, [] => pure []
  | steps + 1, pending, spot, expr :: rest => do
    let value ← evaluate rules steps pending spot expr
    let first ← lift (Eval.shown value)
    let others ← evaluateShown rules steps pending spot rest
    pure (first :: others)

def evaluateEntries (rules : Rules) :
    Nat → Nat → Spot → List (Expr × Expr) → Dict Value → Traced (Dict Value)
  | 0, _, _, _, _ => lift Eval.exhaust
  | _ + 1, _, _, [], done => pure done
  | steps + 1, pending, spot, (key, value) :: rest, done => do
    let name ← evaluate rules steps pending spot key
    let name ← lift (Eval.attempt key.position (mapKey name))
    let value ← evaluate rules steps pending spot value
    evaluateEntries rules steps pending spot rest (done.insert name value)

def evaluateOptional (rules : Rules) : Nat → Nat → Spot → Option Expr → Traced Value
  | 0, _, _, _ => lift Eval.exhaust
  | _ + 1, _, _, none => pure .nil
  | steps + 1, pending, spot, some expr => evaluate rules steps pending spot expr

def call (rules : Rules) : Nat → Nat → Value → List Value → Position → Traced Value
  | 0, _, _, _, _ => lift Eval.exhaust
  | steps + 1, pending, callee, arguments, position =>
    match callee with
    | .builtin which => do
      lift (checkArity which.arity arguments.length position)
      lift (applyBuiltin rules which arguments position)
    | .function ref => do
      match ← lift (Eval.inspect fun store => store.functions[ref]?) with
      | some closure =>
        let home ← consult fun notes => notes.functionSpot ref
        callClosure rules steps pending home closure arguments position
      | none => lift (Eval.fail position (.notCallable .function))
    | .classObject ref => instantiate rules steps pending ref arguments position
    | other => lift (Eval.fail position (.notCallable other.kind))

def callClosure (rules : Rules) :
    Nat → Nat → Spot → Closure → List Value → Position → Traced Value
  | 0, _, _, _, _, _ => lift Eval.exhaust
  | steps + 1, pending, home, closure, arguments, position => do
    lift (checkArity closure.decl.arity arguments.length position)
    let caller ← lift Eval.frame
    if rules.maxDepth ≤ caller.depth then
      lift (Eval.fail position (.callDepth rules.maxDepth closure.decl.name.name))
    else
      let bindings := bindParameters closure.decl.parameters arguments
      noting (Notes.addOrigin (some (.body (.function closure.decl))))
      let scope ← lift (Eval.add fun store =>
        store.addScope { bindings, enclosing := some closure.scope })
      let inner := home.enter (.function closure.decl) (parameterNames closure.decl.parameters)
        scope
      let flow ← within { scope, classRef := closure.owner, depth := caller.depth + 1 }
        (executeAll rules steps pending inner closure.decl.body)
      lift (callResult closure flow)

def instantiate (rules : Rules) : Nat → Nat → ClassRef → List Value → Position → Traced Value
  | 0, _, _, _, _ => lift Eval.exhaust
  | steps + 1, pending, ref, arguments, position => do
    match ← lift (Eval.inspect fun store => store.classes[ref]?) with
    | none => lift (Eval.fail position (.notCallable .classObject))
    | some made =>
      lift (checkArity made.arity arguments.length position)
      match made.methods.find? constructorName with
      | none =>
        let receiver ← lift (Eval.add fun store => store.addInstance ref)
        let lineage ← lift (Eval.inspect fun store => store.lineage ref)
        setUpLineage rules steps pending lineage receiver
        pure (.object receiver)
      | some constructor =>
        lift (checkAccess constructor.member .constructor constructorName position)
        let receiver ← lift (Eval.add fun store => store.addInstance ref)
        let lineage ← lift (Eval.inspect fun store => store.lineage ref)
        setUpLineage rules steps pending lineage receiver
        let closure ← bindMethod constructor receiver
        let home ← consult fun notes => notes.methodSpot constructor.member.owner closure.scope
        let _ ← callClosure rules steps pending home closure arguments position
        pure (.object receiver)

def setUpLineage (rules : Rules) : Nat → Nat → List ClassRef → InstanceRef → Traced Unit
  | 0, _, _, _ => lift Eval.exhaust
  | _ + 1, _, [], _ => pure ()
  | steps + 1, pending, ref :: rest, receiver => do
    match ← lift (Eval.inspect fun store => store.classes[ref]?) with
    | none => pure ()
    | some found =>
      let caller ← lift Eval.frame
      let spot ← consult fun notes => notes.fieldSpot ref
      within { caller with scope := found.scope, classRef := some ref }
        (setUpFields rules steps (pending + 1) spot found.decl.fields receiver)
    setUpLineage rules steps pending rest receiver

def setUpFields (rules : Rules) :
    Nat → Nat → Spot → List (FieldDecl Expr) → InstanceRef → Traced Unit
  | 0, _, _, _, _ => lift Eval.exhaust
  | _ + 1, _, _, [], _ => pure ()
  | steps + 1, pending, spot, field :: rest, receiver => do
    let value ← evaluateOptional rules steps pending spot field.initial
    lift (Eval.change fun store => store.setField receiver field.name.name value)
    setUpFields rules steps pending spot rest receiver

def execute (rules : Rules) : Nat → Nat → Spot → Stmt → Traced Flow
  | 0, _, _, _ => lift Eval.exhaust
  | steps + 1, pending, spot, stmt => do
    mark pending spot (.stmt stmt) .begins
    match stmt with
    | .expression value => do
      let _ ← evaluate rules steps pending spot value
      pure .normal
    | .print _ values => do
      let texts ← evaluateShown rules steps pending spot values
      lift (Eval.emit (" ".intercalate texts))
      pure .normal
    | .var name _ initial => do
      let value ← evaluateOptional rules steps pending (spot.declare name.name) initial
      completeVariable name.name value
      pure .normal
    | .block body => do
      let scope ← innerScope (.block body)
      withinScope scope (executeAll rules steps pending (spot.enter (.block body) ∅ scope) body)
    | .branch condition whenTrue whenFalse => do
      let value ← evaluate rules steps pending spot condition
      if ← lift (Eval.attempt condition.position (truth value)) then
        execute rules steps pending spot whenTrue
      else
        executeOptional rules steps pending spot whenFalse
    | .loop condition body => repeatLoop rules steps pending spot (some condition) none body
    | .countedLoop initial condition increment body => do
      let construct := Body.countedLoop initial condition increment body
      let scope ← innerScope construct
      withinScope scope
        (runLoop rules steps pending (spot.enter construct ∅ scope) initial condition increment
          body)
    | .function decl => do
      let value ← makeFunction (spot.past (.function decl)) decl
      lift (Eval.define decl.name.name value)
      pure .normal
    | .returnValue _ value => do
      let value ← evaluateOptional rules steps pending spot value
      pure (.returned value)
    | .breakLoop _ => pure .broken
    | .continueLoop _ => pure .continued
    | .classDecl decl => do
      mark pending spot (.stmt stmt) (.acts [])
      declareClass rules spot decl
      pure .normal

def executeAll (rules : Rules) : Nat → Nat → Spot → List Stmt → Traced Flow
  | 0, _, _, _ => lift Eval.exhaust
  | _ + 1, _, _, [] => pure .normal
  | steps + 1, pending, spot, stmt :: rest => do
    match ← execute rules steps pending spot stmt with
    | .normal => executeAll rules steps pending (spot.past stmt) rest
    | flow => pure flow

def executeOptional (rules : Rules) : Nat → Nat → Spot → Option Stmt → Traced Flow
  | 0, _, _, _ => lift Eval.exhaust
  | _ + 1, _, _, none => pure .normal
  | steps + 1, pending, spot, some stmt => execute rules steps pending spot stmt

def runLoop (rules : Rules) :
    Nat → Nat → Spot → Option Stmt → Option Expr → Option Expr → Stmt → Traced Flow
  | 0, _, _, _, _, _, _ => lift Eval.exhaust
  | steps + 1, pending, spot, initial, condition, increment, body => do
    let _ ← executeOptional rules steps pending spot initial
    repeatLoop rules steps pending (spot.pastOptional initial) condition increment body

def repeatLoop (rules : Rules) :
    Nat → Nat → Spot → Option Expr → Option Expr → Stmt → Traced Flow
  | 0, _, _, _, _, _ => lift Eval.exhaust
  | steps + 1, pending, spot, condition, increment, body => do
    let holds ← loopCondition rules steps pending spot condition
    if holds then
      match ← execute rules steps pending spot body with
      | .broken => pure .normal
      | .returned value => pure (.returned value)
      | _ =>
        let _ ← evaluateOptional rules steps pending spot increment
        repeatLoop rules steps pending spot condition increment body
    else
      pure .normal

def loopCondition (rules : Rules) : Nat → Nat → Spot → Option Expr → Traced Bool
  | 0, _, _, _ => lift Eval.exhaust
  | _ + 1, _, _, none => pure true
  | steps + 1, pending, spot, some condition => do
    let value ← evaluate rules steps pending spot condition
    lift (Eval.attempt condition.position (truth value))

end

def interpret (rules : Rules) (steps : Nat) : List Stmt → Traced Unit
  | [] => pure ()
  | stmt :: rest => do
    let _ ← execute rules steps 0 .top stmt
    interpret rules steps rest

/-- Without its notes, the first evaluation is the second. -/
def Erases {α : Type} (traced : Traced α) (body : Eval α) : Prop :=
  ∀ notes machine, (traced notes machine).2 = body machine

namespace Erases

variable {α β : Type} {traced : Traced α} {body : Eval α} {next : α → Traced β}
  {next' : α → Eval β}

theorem pure (value : α) : Erases (Pure.pure value) (Pure.pure value) :=
  fun _ _ => rfl

theorem lift (body : Eval α) : Erases (lift body) body :=
  fun _ _ => rfl

theorem bind (first : Erases traced body) (rest : ∀ value, Erases (next value) (next' value)) :
    Erases (traced >>= next) (body >>= next') := by
  intro notes machine
  have same := first notes machine
  simp only [Bind.bind, ← same]
  rcases traced notes machine with ⟨notes', _ | _ | _⟩
  · exact rest _ _ _
  · rfl
  · rfl

theorem noting {update : Notes → Notes} {next : Unit → Traced α} (rest : Erases (next ()) body) :
    Erases (noting update >>= next) body :=
  fun notes machine => rest (update notes) machine

theorem mark {pending : Nat} {spot : Spot} {node : Node} {phase : Phase} {next : Unit → Traced α}
    (rest : Erases (next ()) body) : Erases (mark pending spot node phase >>= next) body :=
  fun _ machine => rest _ machine

theorem within (frame : Frame) (inside : Erases traced body) :
    Erases (within frame traced) (Eval.within frame body) := by
  intro notes machine
  have same := inside notes { machine with frame }
  simp only [Traced.within, Eval.within, ← same]
  rcases traced notes { machine with frame } with ⟨notes', _ | _ | _⟩ <;> rfl

end Erases

theorem bindMethod_erases (method : Method) (receiver : InstanceRef) :
    Erases (bindMethod method receiver)
      (Eval.add fun store => store.bindMethod method.closure receiver) :=
  .noting (.lift _)

theorem boundMethod_erases (method : Method) (receiver : InstanceRef) :
    Erases (boundMethod method receiver) (Run.boundMethod method receiver) := by
  refine .bind (bindMethod_erases method receiver) fun closure => ?_
  exact .noting (.bind (.lift _) fun ref => .pure _)

theorem readProperty_erases (ref : InstanceRef) (name : Identifier) :
    Erases (readProperty ref name) (Run.readProperty ref name) := by
  refine .bind (.lift _) fun found => .bind (.lift _) fun value => ?_
  cases value with
  | some value => exact .bind (.lift _) fun _ => .pure _
  | none =>
    cases found.bind fun c => c.methods.find? name.name with
    | some method => exact .bind (.lift _) fun _ => boundMethod_erases _ _
    | none => exact .lift _

theorem readSuper_erases (rules : Rules) (id : RefId) (position : Position) (method : Identifier) :
    Erases (readSuper rules id position method) (Run.readSuper rules id position method) := by
  refine .bind (.lift _) fun frame => .bind (.lift _) fun found => ?_
  cases found with
  | none => exact .lift _
  | some pair =>
    obtain ⟨parent, receiver⟩ := pair
    cases lookup : parent.methods.find? method.name with
    | none =>
      simp only [lookup]
      exact .lift _
    | some found =>
      simp only [lookup]
      exact .bind (.lift _) fun _ => boundMethod_erases _ _

theorem makeFunction_erases (spot : Spot) (decl : FunctionDecl Stmt) :
    Erases (makeFunction spot decl) (Run.makeFunction decl) :=
  .noting (.lift _)

theorem declareClass_eq (rules : Rules) (decl : ClassDecl Expr Stmt) :
    Run.declareClass rules decl = (do
      let frame ← Eval.frame
      let superclass ← superclassOf rules decl
      let methodScope ← methodScopeOf superclass frame.scope
      let ref ← Eval.add fun store => store.addClass decl superclass frame.scope methodScope
      Eval.define decl.name.name (.classObject ref)) := by
  funext machine
  unfold Run.declareClass superclassOf
  cases decl.superclass with
  | none => rfl
  | some parent =>
    simp only [bind, Eval.frame]
    cases readVariable rules parent.id parent.name machine with
    | done value after => cases value <;> rfl
    | stopped reason after => rfl
    | exhausted => rfl

end Traced

end ClassScript.Run
