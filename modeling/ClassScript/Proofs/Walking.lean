import ClassScript.Proofs.Renumber

/-!
The walk through a program apart from what it gathers. Main statements: binding references is such a
walk, and two walkers whose moves keep a relation end every walk in that relation.
-/

set_option autoImplicit false

namespace ClassScript

theorem ok_of_bind {ε α β : Type} {first : Except ε α} {next : α → Except ε β} {after : β}
    (accepts : (first >>= next) = .ok after) :
    ∃ middle, first = .ok middle ∧ next middle = .ok after := by
  cases first with
  | error fault => cases accepts
  | ok middle => exact ⟨middle, rfl, accepts⟩

namespace Binding

/-- What a walk does to its state at each kind of place. -/
structure Walker (σ ε : Type) where
  /-- A rule is broken that depends on the place alone. -/
  refuse : Position → Fault → σ → Except ε σ
  /-- The value of a name is read. -/
  read : Place → RefId → Identifier → σ → Except ε σ
  /-- A name is bound otherwise. -/
  bind : Place → RefId → Identifier → σ → Except ε σ
  /-- `this` or `super` is bound. -/
  word : RefId → String → σ → Except ε σ
  enter : List String → σ → σ
  leave : σ → σ
  declare : Identifier → σ → Except ε σ
  define : String → σ → σ
  /-- Whether the place lies in a local scope. -/
  nested : σ → Bool
  declareClass : Place → ClassDecl Expr Stmt → σ → Except ε σ

section Walks

variable {σ ε : Type} (walker : Walker σ ε)

def walkParameters : List Parameter → σ → Except ε σ
  | [], state => .ok state
  | parameter :: rest, state => do
    let state ← walker.declare parameter.name state
    walkParameters rest (walker.define parameter.name.name state)

mutual

def walkExpr (place : Place) : Expr → σ → Except ε σ
  | .literal _ _, state => .ok state
  | .unary _ operand _, state => walkExpr place operand state
  | .binary left _ right _, state => do
    let state ← walkExpr place left state
    walkExpr place right state
  | .logical left _ right, state => do
    let state ← walkExpr place left state
    walkExpr place right state
  | .group inner, state => walkExpr place inner state
  | .reference id name, state => walker.read place id name state
  | .assign id name value, state => do
    let state ← walkExpr place value state
    walker.bind place id name state
  | .call callee _ arguments, state => do
    let state ← walkExpr place callee state
    walkExprs place arguments state
  | .property object _, state => walkExpr place object state
  | .setProperty object _ value, state => do
    let state ← walkExpr place object state
    walkExpr place value state
  | .index object key _, state => do
    let state ← walkExpr place object state
    walkExpr place key state
  | .setIndex object key value _, state => do
    let state ← walkExpr place object state
    let state ← walkExpr place key state
    walkExpr place value state
  | .array elements _, state => walkExprs place elements state
  | .map entries _, state => walkEntries place entries state
  | .this id position, state =>
    match place.classKind with
    | .none => walker.refuse position .thisOutsideClass state
    | _ => walker.word id "this" state
  | .super id position _, state =>
    match place.classKind with
    | .none => walker.refuse position .superOutsideClass state
    | .base => walker.refuse position .superWithoutSuperclass state
    | .derived => walker.word id "super" state
  | .lambda decl, state => walkFunction place .function decl state

def walkExprs (place : Place) : List Expr → σ → Except ε σ
  | [], state => .ok state
  | expr :: rest, state => do
    let state ← walkExpr place expr state
    walkExprs place rest state

def walkEntries (place : Place) : List (Expr × Expr) → σ → Except ε σ
  | [], state => .ok state
  | (key, value) :: rest, state => do
    let state ← walkExpr place key state
    let state ← walkExpr place value state
    walkEntries place rest state

def walkOptional (place : Place) : Option Expr → σ → Except ε σ
  | none, state => .ok state
  | some expr, state => walkExpr place expr state

def walkFunction (place : Place) (kind : FunctionKind) : FunctionDecl Stmt → σ → Except ε σ
  | ⟨_, parameters, _, body⟩, state => do
    let state ← walkParameters walker parameters (walker.enter [] state)
    let state ← walkStmts (place.functionBody kind) body state
    .ok (walker.leave state)

def walkStmt (place : Place) : Stmt → σ → Except ε σ
  | .expression value, state => walkExpr place value state
  | .print _ values, state => walkExprs place values state
  | .var name _ initial, state =>
    match walker.nested state with
    | false => do
      let state ← walkOptional place initial state
      walker.declare name state
    | true => do
      let state ← walker.declare name state
      let state ← walkOptional place initial state
      .ok (walker.define name.name state)
  | .block body, state => do
    let state ← walkStmts place body (walker.enter [] state)
    .ok (walker.leave state)
  | .branch condition whenTrue whenFalse, state => do
    let state ← walkExpr place condition state
    let state ← walkStmt place whenTrue state
    walkOptionalStmt place whenFalse state
  | .loop condition body, state => do
    let state ← walkExpr place condition state
    walkStmt place.loopBody body state
  | .countedLoop initial condition increment body, state => do
    let state ← walkOptionalStmt place initial (walker.enter [] state)
    let state ← walkOptional place condition state
    let state ← walkOptional place increment state
    let state ← walkStmt place.loopBody body state
    .ok (walker.leave state)
  | .function ⟨name, parameters, returns, body⟩, state => do
    let state ← walker.declare name state
    walkFunction place .function ⟨name, parameters, returns, body⟩ (walker.define name.name state)
  | .returnValue keyword value, state =>
    match place.function, value with
    | .none, _ => walker.refuse keyword .returnAtTop state
    | .initializer, some _ => walker.refuse keyword .valueFromInitializer state
    | _, _ => walkOptional place value state
  | .breakLoop keyword, state =>
    if place.inLoop then .ok state else walker.refuse keyword .breakOutsideLoop state
  | .continueLoop keyword, state =>
    if place.inLoop then .ok state else walker.refuse keyword .continueOutsideLoop state
  | .classDecl ⟨name, superclass, fields, methods⟩, state => do
    let state ← walker.declareClass place ⟨name, superclass, fields, methods⟩ state
    let state ← walkFields place fields state
    let derived := superclass.isSome
    let state := if derived then walker.enter ["super"] state else state
    let state ← walkMethods (place.methods derived) methods (walker.enter ["this"] state)
    .ok (if derived then walker.leave (walker.leave state) else walker.leave state)

def walkStmts (place : Place) : List Stmt → σ → Except ε σ
  | [], state => .ok state
  | stmt :: rest, state => do
    let state ← walkStmt place stmt state
    walkStmts place rest state

def walkOptionalStmt (place : Place) : Option Stmt → σ → Except ε σ
  | none, state => .ok state
  | some stmt, state => walkStmt place stmt state

def walkFields (place : Place) : List (FieldDecl Expr) → σ → Except ε σ
  | [], state => .ok state
  | ⟨_, _, _, initial⟩ :: rest, state => do
    let state ← walkOptional place initial state
    walkFields place rest state

def walkMethods (place : Place) : List (MethodDecl Stmt) → σ → Except ε σ
  | [], state => .ok state
  | ⟨_, _, ⟨name, parameters, returns, body⟩⟩ :: rest, state => do
    let state ← walkFunction place (methodKind name.name) ⟨name, parameters, returns, body⟩ state
    walkMethods place rest state

end

end Walks

section Resolver

def Place.within (place : Place) (hoisted : Dict Unit) : Place :=
  { place with hoisted }

def resolver (hoisted : Dict Unit) : Walker State (Located Fault) where
  refuse position fault _ := Binding.refuse position fault
  read place id name state :=
    if state.isIncomplete name.name then Binding.refuse name.position (.ownInitializer name.name)
    else bindName (place.within hoisted) id name state
  bind place := bindName (place.within hoisted)
  word := bindWord
  enter names state := state.enter names
  leave := State.leave
  declare name state := state.declare name
  define name state := state.define name
  nested state := !state.scopes.isEmpty
  declareClass place := Binding.declareClass (place.within hoisted)

variable (hoisted : Dict Unit)

private theorem walkParameters_resolver (parameters : List Parameter) (state : State) :
    walkParameters (resolver hoisted) parameters state = declareParameters parameters state := by
  induction parameters generalizing state with
  | nil => rfl
  | cons parameter rest ih =>
    exact congrArg _ (funext fun declared => ih _)

mutual

theorem walkExpr_resolver (place : Place) : ∀ expr : Expr,
    walkExpr (resolver hoisted) place expr = resolveExpr (place.within hoisted) expr
  | .literal _ _ => by funext state; rw [walkExpr, resolveExpr]
  | .unary _ operand _ | .group inner | .property object _ => by
    funext state; rw [walkExpr, resolveExpr, walkExpr_resolver]
  | .binary left _ right _ | .logical left _ right | .setProperty object _ value
  | .index object key _ => by
    funext state; rw [walkExpr, resolveExpr, walkExpr_resolver, walkExpr_resolver]
  | .reference _ _ | .this _ _ | .super _ _ _ => by funext state; rw [walkExpr, resolveExpr]; rfl
  | .assign _ _ value => by funext state; rw [walkExpr, resolveExpr, walkExpr_resolver]; rfl
  | .call callee _ arguments => by
    funext state; rw [walkExpr, resolveExpr, walkExpr_resolver, walkExprs_resolver]
  | .setIndex object key value _ => by
    funext state
    rw [walkExpr, resolveExpr, walkExpr_resolver, walkExpr_resolver, walkExpr_resolver]
  | .array elements _ => by funext state; rw [walkExpr, resolveExpr, walkExprs_resolver]
  | .map entries _ => by funext state; rw [walkExpr, resolveExpr, walkEntries_resolver]
  | .lambda decl => by funext state; rw [walkExpr, resolveExpr, walkFunction_resolver]

private theorem walkExprs_resolver (place : Place) : ∀ exprs : List Expr,
    walkExprs (resolver hoisted) place exprs = resolveExprs (place.within hoisted) exprs
  | [] => by funext state; rw [walkExprs, resolveExprs]
  | expr :: rest => by
    funext state; rw [walkExprs, resolveExprs, walkExpr_resolver, walkExprs_resolver]

private theorem walkEntries_resolver (place : Place) : ∀ entries : List (Expr × Expr),
    walkEntries (resolver hoisted) place entries = resolveEntries (place.within hoisted) entries
  | [] => by funext state; rw [walkEntries, resolveEntries]
  | (key, value) :: rest => by
    funext state
    rw [walkEntries, resolveEntries, walkExpr_resolver, walkExpr_resolver, walkEntries_resolver]

private theorem walkOptional_resolver (place : Place) : ∀ expr : Option Expr,
    walkOptional (resolver hoisted) place expr = resolveOptional (place.within hoisted) expr
  | none => by funext state; rw [walkOptional, resolveOptional]
  | some expr => by funext state; rw [walkOptional, resolveOptional, walkExpr_resolver]

theorem walkFunction_resolver (place : Place) (kind : FunctionKind) :
    ∀ decl : FunctionDecl Stmt,
    walkFunction (resolver hoisted) place kind decl =
      resolveFunction (place.within hoisted) kind decl
  | ⟨_, parameters, _, body⟩ => by
    funext state
    rw [walkFunction, resolveFunction, walkParameters_resolver, walkStmts_resolver]
    rfl

private theorem walkStmt_resolver (place : Place) : ∀ stmt : Stmt,
    walkStmt (resolver hoisted) place stmt = resolveStmt (place.within hoisted) stmt
  | .expression value => by funext state; rw [walkStmt, resolveStmt, walkExpr_resolver]
  | .print _ values => by funext state; rw [walkStmt, resolveStmt, walkExprs_resolver]
  | .var name _ initial => by
    funext state
    rw [walkStmt, resolveStmt, walkOptional_resolver]
    obtain ⟨globals, scopes, depths⟩ := state
    cases scopes <;> rfl
  | .block body => by
    funext state; rw [walkStmt, resolveStmt, walkStmts_resolver]; rfl
  | .branch condition whenTrue whenFalse => by
    funext state
    rw [walkStmt, resolveStmt, walkExpr_resolver, walkStmt_resolver, walkOptionalStmt_resolver]
  | .loop condition body => by
    funext state; rw [walkStmt, resolveStmt, walkExpr_resolver, walkStmt_resolver]; rfl
  | .countedLoop initial condition increment body => by
    funext state
    rw [walkStmt, resolveStmt, walkOptionalStmt_resolver, walkOptional_resolver,
      walkOptional_resolver, walkStmt_resolver]
    rfl
  | .function ⟨name, parameters, returns, body⟩ => by
    funext state; rw [walkStmt, resolveStmt, walkFunction_resolver]; rfl
  | .returnValue _ value => by
    funext state
    rw [walkStmt.eq_def, resolveStmt.eq_def]
    simp only [walkOptional_resolver]
    rfl
  | .breakLoop _ | .continueLoop _ => by funext state; rw [walkStmt, resolveStmt]; rfl
  | .classDecl ⟨name, superclass, fields, methods⟩ => by
    funext state
    rw [walkStmt, resolveStmt, walkFields_resolver]
    simp only [walkMethods_resolver]
    rfl

theorem walkStmts_resolver (place : Place) : ∀ stmts : List Stmt,
    walkStmts (resolver hoisted) place stmts = resolveStmts (place.within hoisted) stmts
  | [] => by funext state; rw [walkStmts, resolveStmts]
  | stmt :: rest => by
    funext state; rw [walkStmts, resolveStmts, walkStmt_resolver, walkStmts_resolver]

private theorem walkOptionalStmt_resolver (place : Place) : ∀ stmt : Option Stmt,
    walkOptionalStmt (resolver hoisted) place stmt =
      resolveOptionalStmt (place.within hoisted) stmt
  | none => by funext state; rw [walkOptionalStmt, resolveOptionalStmt]
  | some stmt => by funext state; rw [walkOptionalStmt, resolveOptionalStmt, walkStmt_resolver]

private theorem walkFields_resolver (place : Place) : ∀ fields : List (FieldDecl Expr),
    walkFields (resolver hoisted) place fields = resolveFields (place.within hoisted) fields
  | [] => by funext state; rw [walkFields, resolveFields]
  | ⟨_, _, _, initial⟩ :: rest => by
    funext state; rw [walkFields, resolveFields, walkOptional_resolver, walkFields_resolver]

private theorem walkMethods_resolver (place : Place) : ∀ methods : List (MethodDecl Stmt),
    walkMethods (resolver hoisted) place methods = resolveMethods (place.within hoisted) methods
  | [] => by funext state; rw [walkMethods, resolveMethods]
  | ⟨_, _, ⟨name, parameters, returns, body⟩⟩ :: rest => by
    funext state
    rw [walkMethods, resolveMethods, walkFunction_resolver, walkMethods_resolver]

end

end Resolver

section Texts

variable {found : Resolution} {globals : Globals}

theorem resolveProgram_ok {program : List Stmt}
    (accepts : resolveProgram globals program = .ok found) :
    ∃ state, resolveStmts (.top (hoistedNames program)) program (.start globals) = .ok state ∧
      found = { depths := state.depths, globals := state.globals } := by
  obtain ⟨state, walked, same⟩ := ok_of_bind accepts
  exact ⟨state, walked, (Except.ok.inj same).symm⟩

theorem resolveLone_ok {expr : Expr} (accepts : resolveLone globals expr = .ok found) :
    ∃ state, resolveExpr (.top ∅) expr (.start globals) = .ok state ∧
      found = { depths := state.depths, globals := state.globals } := by
  obtain ⟨state, walked, same⟩ := ok_of_bind accepts
  exact ⟨state, walked, (Except.ok.inj same).symm⟩

end Texts

section Names

variable {after state : State} {id : RefId}

private theorem bindLocal_frame {name : String} (bound : state.bindLocal id name = some after) :
    after.globals = state.globals ∧ after.scopes = state.scopes := by
  obtain ⟨depth, -, rfl⟩ := Option.map_eq_some_iff.mp bound
  exact ⟨rfl, rfl⟩

theorem bindName_frame {place : Place} {name : Identifier}
    (bound : bindName place id name state = .ok after) :
    after.globals = state.globals ∧ after.scopes = state.scopes := by
  unfold bindName at bound
  split at bound
  · rename_i found foundLocally
    obtain rfl : found = after := Except.ok.inj bound
    exact bindLocal_frame foundLocally
  · split at bound
    · obtain rfl : state = after := Except.ok.inj bound
      exact ⟨rfl, rfl⟩
    · cases bound

theorem bindWord_frame {word : String} (bound : bindWord id word state = .ok after) :
    after.globals = state.globals ∧ after.scopes = state.scopes := by
  obtain rfl : (state.bindLocal id word).getD state = after := Except.ok.inj bound
  cases found : state.bindLocal id word with
  | none => exact ⟨rfl, rfl⟩
  | some other => exact bindLocal_frame found

end Names

section Classes

def outlineOf (decl : ClassDecl Expr Stmt) : Outline where
  superclass := decl.superclass.map fun parent => parent.name.name
  methods := decl.methods.map fun method => method.function.name.name

/-- What is wrong with a class declaration whatever stands around it. -/
def ownFault? (decl : ClassDecl Expr Stmt) : Option (Located Fault) :=
  match firstRepeated [] (decl.methods.map fun method => method.function.name) with
  | some method => some ⟨.methodTwice method.name decl.name.name, method.position⟩
  | none =>
    match firstRepeated [] (decl.fields.map FieldDecl.name) with
    | some field => some ⟨.fieldTwice field.name decl.name.name, field.position⟩
    | none =>
      match decl.superclass with
      | none => none
      | some parent =>
        if parent.name.name = decl.name.name then some ⟨.selfInheritance, parent.name.position⟩
        else none

def bindParent (place : Place) : Option SuperclassRef → Walk
  | none, state => .ok state
  | some parent, state => bindName place parent.id parent.name state

def settleClass (place : Place) (decl : ClassDecl Expr Stmt) : Walk := fun state => do
  let state ← bindParent place decl.superclass state
  let state ← state.declare decl.name
  checkInheritance decl ((state.define decl.name.name).recordClass decl.name.name (outlineOf decl))

theorem declareClass_eq_settleClass (place : Place) (decl : ClassDecl Expr Stmt) (state : State) :
    declareClass place decl state =
      match ownFault? decl with
      | some fault => .error fault
      | none => settleClass place decl state := by
  obtain ⟨name, superclass, fields, methods⟩ := decl
  simp only [declareClass, ownFault?, settleClass, outlineOf, List.map_map, Function.comp_def]
  cases firstRepeated [] (methods.map fun method => method.function.name) with
  | some method => rfl
  | none =>
    cases firstRepeated [] (fields.map FieldDecl.name) with
    | some field => rfl
    | none =>
      cases superclass with
      | none => rfl
      | some parent =>
        by_cases self : parent.name.name = name.name
        · simp only [self, if_true]
          rfl
        · simp only [self, if_false, bindParent]

structure Introduced (place : Place) (decl : ClassDecl Expr Stmt) (before ready : State) :
    Prop where
  proper : ownFault? decl = none
  declared : ∃ bound declared, bindParent place decl.superclass before = .ok bound ∧
    bound.declare decl.name = .ok declared ∧
    ready = (declared.define decl.name.name).recordClass decl.name.name (outlineOf decl)

variable {after before : State} {decl : ClassDecl Expr Stmt} {place : Place}

private theorem checkInheritance_ok {state : State}
    (accepts : checkInheritance decl state = .ok after) : after = state := by
  unfold checkInheritance at accepts
  simp only [refuse] at accepts
  split at accepts
  · cases accepts
  · exact (Except.ok.inj accepts).symm
  · split at accepts
    · cases accepts
    · exact (Except.ok.inj accepts).symm

theorem Introduced.declareClass_eq {ready : State}
    (introduced : Introduced place decl before ready) :
    declareClass place decl before = checkInheritance decl ready := by
  obtain ⟨proper, bound, declared, binds, declares, rfl⟩ := introduced
  rw [declareClass_eq_settleClass, proper]
  rw [settleClass, binds]
  change (bound.declare decl.name >>= _) = _
  rw [declares]
  rfl

theorem introduced_of_declareClass (accepts : declareClass place decl before = .ok after) :
    Introduced place decl before after := by
  rw [declareClass_eq_settleClass] at accepts
  cases proper : ownFault? decl with
  | some fault => simp [proper] at accepts
  | none =>
    simp only [proper, settleClass] at accepts
    obtain ⟨bound, binds, accepts⟩ := ok_of_bind accepts
    obtain ⟨declared, declares, accepts⟩ := ok_of_bind accepts
    exact ⟨proper, bound, declared, binds, declares, checkInheritance_ok accepts⟩

end Classes

section Looks

variable {first second : State} (classes : second.globals.classes = first.globals.classes)
  (scopes : second.scopes = first.scopes)

include classes scopes

private theorem outline?_congr (name : String) : second.outline? name = first.outline? name := by
  rw [State.outline?, State.outline?, scopes]
  induction first.scopes with
  | nil => rw [State.outlineIn, State.outlineIn, classes]
  | cons scope outer ih => rw [State.outlineIn, State.outlineIn, ih]

theorem ancestry_congr (steps : Nat) (seen : List String) (parent : Option String) :
    ancestry second steps seen parent = ancestry first steps seen parent := by
  induction steps generalizing seen parent with
  | zero => cases parent <;> rfl
  | succ steps ih =>
    cases parent with
    | none => rfl
    | some parent => simp only [ancestry, outline?_congr classes scopes, ih]

theorem classCount_congr : second.classCount = first.classCount := by
  rw [State.classCount, State.classCount, classes, scopes]

end Looks

section Pairs

variable {σ τ ε δ : Type}

inductive Ends (related : σ → τ → Prop) (answers : ε → Except δ τ → Prop) :
    Except ε σ → Except δ τ → Prop where
  | ok {state : σ} {state' : τ} (kept : related state state') :
    Ends related answers (.ok state) (.ok state')
  | error {fault : ε} {ending : Except δ τ} (answer : answers fault ending) :
    Ends related answers (.error fault) ending

theorem Ends.bind {related : σ → τ → Prop} {answers : ε → Except δ τ → Prop} {ending : Except ε σ}
    {ending' : Except δ τ} {next : σ → Except ε σ} {next' : τ → Except δ τ}
    (ends : Ends related answers ending ending')
    (final : ∀ {fault ending}, answers fault ending → ∀ next, answers fault (ending >>= next))
    (continues : ∀ {state state'}, related state state' →
      Ends related answers (next state) (next' state')) :
    Ends related answers (ending >>= next) (ending' >>= next') := by
  cases ends with
  | ok kept => exact continues kept
  | error answer => exact .error (final answer next')

/-- Two walkers keep a relation of their states at every kind of move in places that fit, where the
second one finds other numbers on the references. -/
structure Walker.Keep (change : RefId → RefId) (fits : Nat → Place → Prop)
    (related : Nat → σ → τ → Prop) (answers : ε → Except δ τ → Prop) (walker : Walker σ ε)
    (walker' : Walker τ δ) : Prop where
  /-- An end that answers to a refusal does so whatever would have come next. -/
  final : ∀ {fault ending}, answers fault ending → ∀ next, answers fault (ending >>= next)
  loop : ∀ {level place}, fits level place → fits level place.loopBody
  block : ∀ {level place}, fits level place → fits (level + 1) place
  methodsFit : ∀ {level place}, fits level place → ∀ derived, fits level (place.methods derived)
  body : ∀ (level : Nat) (place : Place) {kind : FunctionKind}, kind ≠ .none →
    fits (level + 1) (place.functionBody kind)
  nested : ∀ {level state state'}, related level state state' →
    walker'.nested state' = walker.nested state
  refuse : ∀ {level state state'}, related level state state' → ∀ position fault,
    Ends (related level) answers (walker.refuse position fault state)
      (walker'.refuse position fault state')
  read : ∀ {level place state state'}, fits level place → related level state state' →
    ∀ id name, Ends (related level) answers (walker.read place id name state)
      (walker'.read place (change id) name state')
  bind : ∀ {level place state state'}, fits level place → related level state state' →
    ∀ id name, Ends (related level) answers (walker.bind place id name state)
      (walker'.bind place (change id) name state')
  word : ∀ {level state state'}, related level state state' → ∀ id word,
    Ends (related level) answers (walker.word id word state)
      (walker'.word (change id) word state')
  enter : ∀ {level state state'}, related level state state' → ∀ names,
    related (level + 1) (walker.enter names state) (walker'.enter names state')
  leave : ∀ {level state state'}, related (level + 1) state state' →
    related level (walker.leave state) (walker'.leave state')
  declare : ∀ {level place state state'}, fits level place → related level state state' →
    ∀ name, Ends (related level) answers (walker.declare name state)
      (walker'.declare name state')
  define : ∀ {level state state'}, related level state state' → ∀ name,
    related level (walker.define name state) (walker'.define name state')
  declareClass : ∀ {level place state state'}, fits level place → related level state state' →
    ∀ decl, Ends (related level) answers (walker.declareClass place decl state)
      (walker'.declareClass place (renumberClass change decl) state')

private theorem methodKind_ne_none (name : String) : methodKind name ≠ .none := by
  unfold methodKind
  split <;> decide

namespace Walker.Keep

variable {change : RefId → RefId} {fits : Nat → Place → Prop} {related : Nat → σ → τ → Prop}
  {answers : ε → Except δ τ → Prop} {walker : Walker σ ε} {walker' : Walker τ δ}

abbrev Along (related : Nat → σ → τ → Prop) (answers : ε → Except δ τ → Prop) (level : Nat)
    (walk : σ → Except ε σ) (walk' : τ → Except δ τ) : Prop :=
  ∀ {state : σ} {state' : τ}, related level state state' →
    Ends (related level) answers (walk state) (walk' state')

section Moves

variable (keep : walker.Keep change fits related answers walker')

include keep

theorem andThen {ending : Except ε σ} {ending' : Except δ τ} {inner level : Nat}
    {next : σ → Except ε σ} {next' : τ → Except δ τ}
    (ends : Ends (related inner) answers ending ending')
    (continues : ∀ {state state'}, related inner state state' →
      Ends (related level) answers (next state) (next' state')) :
    Ends (related level) answers (ending >>= next) (ending' >>= next') := by
  cases ends with
  | ok kept => exact continues kept
  | error answer => exact .error (keep.final answer next')

theorem both {level : Nat} {first second : σ → Except ε σ} {first' second' : τ → Except δ τ}
    (along : Along related answers level first first')
    (next : Along related answers level second second') :
    Along related answers level (fun state => first state >>= second)
      (fun state => first' state >>= second') :=
  fun kept => keep.andThen (along kept) next

theorem parameters {level : Nat} {place : Place} (here : fits level place) :
    ∀ parameters : List Parameter, Along related answers level (walkParameters walker parameters)
      (walkParameters walker' parameters)
  | [] => .ok
  | parameter :: rest => fun kept =>
    keep.andThen (keep.declare here kept parameter.name) fun declared =>
      parameters here rest (keep.define declared parameter.name.name)

end Moves

mutual

theorem expr (keep : walker.Keep change fits related answers walker')
    {level : Nat} {place : Place} (here : fits level place) :
    ∀ expr : Expr, Along related answers level (walkExpr walker place expr)
      (walkExpr walker' place (expr.renumber change))
  | .literal _ _ => .ok
  | .unary _ operand _ | .group operand | .property operand _ => keep.expr here operand
  | .binary left _ right _ | .logical left _ right | .setProperty left _ right
  | .index left right _ => keep.both (keep.expr here left) (keep.expr here right)
  | .reference id name => fun kept => keep.read here kept id name
  | .assign id name value =>
    keep.both (keep.expr here value) fun kept => keep.bind here kept id name
  | .call callee _ arguments => keep.both (keep.expr here callee) (keep.exprs here arguments)
  | .setIndex object key value _ =>
    keep.both (keep.expr here object) (keep.both (keep.expr here key) (keep.expr here value))
  | .array elements _ => keep.exprs here elements
  | .map values _ => keep.entries here values
  | .this id position => by
    intro kept
    rw [Expr.renumber, walkExpr, walkExpr]
    split
    · exact keep.refuse kept position _
    · exact keep.word kept id "this"
  | .super id position _ => by
    intro kept
    rw [Expr.renumber, walkExpr, walkExpr]
    split
    · exact keep.refuse kept position _
    · exact keep.refuse kept position _
    · exact keep.word kept id "super"
  | .lambda decl => keep.function place (by decide) decl

theorem exprs (keep : walker.Keep change fits related answers walker')
    {level : Nat} {place : Place} (here : fits level place) :
    ∀ exprs : List Expr, Along related answers level (walkExprs walker place exprs)
      (walkExprs walker' place (renumberExprs change exprs))
  | [] => .ok
  | first :: rest => keep.both (keep.expr here first) (keep.exprs here rest)

theorem entries (keep : walker.Keep change fits related answers walker')
    {level : Nat} {place : Place} (here : fits level place) :
    ∀ entries : List (Expr × Expr), Along related answers level (walkEntries walker place entries)
      (walkEntries walker' place (renumberEntries change entries))
  | [] => .ok
  | (key, value) :: rest =>
    keep.both (keep.expr here key) (keep.both (keep.expr here value) (keep.entries here rest))

theorem optional (keep : walker.Keep change fits related answers walker')
    {level : Nat} {place : Place} (here : fits level place) :
    ∀ expr : Option Expr, Along related answers level (walkOptional walker place expr)
      (walkOptional walker' place (renumberOptional change expr))
  | none => .ok
  | some value => keep.expr here value

theorem function (keep : walker.Keep change fits related answers walker')
    {level : Nat} (place : Place) {kind : FunctionKind} (isBody : kind ≠ .none) :
    ∀ decl : FunctionDecl Stmt, Along related answers level (walkFunction walker place kind decl)
      (walkFunction walker' place kind (renumberFunction change decl))
  | ⟨_, declared, _, body⟩ => fun kept => by
    have inside := keep.body level place isBody
    exact keep.andThen (keep.parameters inside declared (keep.enter kept [])) fun kept =>
      keep.andThen (keep.stmts inside body kept) fun kept => .ok (keep.leave kept)

theorem stmt (keep : walker.Keep change fits related answers walker')
    {level : Nat} {place : Place} (here : fits level place) :
    ∀ stmt : Stmt, Along related answers level (walkStmt walker place stmt)
      (walkStmt walker' place (stmt.renumber change))
  | .expression value => keep.expr here value
  | .print _ values => keep.exprs here values
  | .var name _ initial => by
    intro kept
    rw [Stmt.renumber, walkStmt, walkStmt, keep.nested kept]
    split
    · exact keep.andThen (keep.optional here initial kept) fun kept => keep.declare here kept name
    · exact keep.andThen (keep.declare here kept name) fun kept =>
        keep.andThen (keep.optional here initial kept) fun kept => .ok (keep.define kept name.name)
  | .block body => fun kept =>
    keep.andThen (keep.stmts (keep.block here) body (keep.enter kept [])) fun kept =>
      .ok (keep.leave kept)
  | .branch condition whenTrue whenFalse =>
    keep.both (keep.expr here condition)
      (keep.both (keep.stmt here whenTrue) (keep.optionalStmt here whenFalse))
  | .loop condition body => keep.both (keep.expr here condition) (keep.stmt (keep.loop here) body)
  | .countedLoop initial condition increment body => fun kept => by
    have inside := keep.block here
    exact keep.andThen (keep.optionalStmt inside initial (keep.enter kept [])) fun kept =>
      keep.andThen (keep.optional inside condition kept) fun kept =>
        keep.andThen (keep.optional inside increment kept) fun kept =>
          keep.andThen (keep.stmt (keep.loop inside) body kept) fun kept => .ok (keep.leave kept)
  | .function ⟨name, declared, returns, body⟩ => by
    intro kept
    rw [Stmt.renumber, walkStmt]
    have walks : Along related answers level _ _ :=
      keep.function place (by decide : FunctionKind.function ≠ .none)
        ⟨name, declared, returns, body⟩
    exact keep.andThen (keep.declare here kept name) fun kept => walks (keep.define kept name.name)
  | .returnValue keyword value => by
    intro kept
    have walks := keep.optional here value kept
    rw [Stmt.renumber, walkStmt.eq_def, walkStmt.eq_def]
    cases value <;> rw [renumberOptional] at walks ⊢ <;> cases place.function
    case none.none | some.none | some.initializer => exact keep.refuse kept keyword _
    all_goals exact walks
  | .breakLoop keyword | .continueLoop keyword => by
    intro kept
    rw [Stmt.renumber, walkStmt, walkStmt]
    split
    · exact .ok kept
    · exact keep.refuse kept keyword _
  | .classDecl ⟨name, superclass, declared, defined⟩ => by
    intro kept
    refine keep.andThen (keep.declareClass here kept ⟨name, superclass, declared, defined⟩)
      fun kept => keep.andThen (keep.fields here declared kept) fun kept => ?_
    have inside := keep.methodsFit (keep.block here) superclass.isSome
    cases superclass with
    | none =>
      exact keep.andThen (keep.methods inside defined (keep.enter kept _)) fun kept =>
        .ok (keep.leave kept)
    | some parent =>
      exact keep.andThen (keep.methods (keep.block inside) defined
        (keep.enter (keep.enter kept _) _)) fun kept => .ok (keep.leave (keep.leave kept))

theorem stmts (keep : walker.Keep change fits related answers walker')
    {level : Nat} {place : Place} (here : fits level place) :
    ∀ stmts : List Stmt, Along related answers level (walkStmts walker place stmts)
      (walkStmts walker' place (renumberStmts change stmts))
  | [] => .ok
  | first :: rest => keep.both (keep.stmt here first) (keep.stmts here rest)

theorem optionalStmt (keep : walker.Keep change fits related answers walker')
    {level : Nat} {place : Place} (here : fits level place) :
    ∀ stmt : Option Stmt, Along related answers level (walkOptionalStmt walker place stmt)
      (walkOptionalStmt walker' place (renumberOptionalStmt change stmt))
  | none => .ok
  | some only => keep.stmt here only

theorem fields (keep : walker.Keep change fits related answers walker')
    {level : Nat} {place : Place} (here : fits level place) :
    ∀ fields : List (FieldDecl Expr), Along related answers level (walkFields walker place fields)
      (walkFields walker' place (renumberFields change fields))
  | [] => .ok
  | ⟨_, _, _, initial⟩ :: rest => keep.both (keep.optional here initial) (keep.fields here rest)

theorem methods (keep : walker.Keep change fits related answers walker')
    {level : Nat} {place : Place} (here : fits level place) :
    ∀ methods : List (MethodDecl Stmt), Along related answers level
      (walkMethods walker place methods)
      (walkMethods walker' place (renumberMethods change methods))
  | [] => .ok
  | ⟨_, _, ⟨name, declared, returns, body⟩⟩ :: rest => by
    have walks : Along related answers level _ _ :=
      keep.function place (methodKind_ne_none name.name) ⟨name, declared, returns, body⟩
    exact keep.both walks (keep.methods here rest)

end

variable {state : σ} {state' : τ}

/-- Walks through one text that keep a relation everywhere. -/
theorem sameStmts (keep : walker.Keep id (fun _ _ => True) related answers walker')
    (place : Place) (stmts : List Stmt) (kept : related 0 state state') :
    Ends (related 0) answers (walkStmts walker place stmts state)
      (walkStmts walker' place stmts state') := by
  have ends : Ends _ _ _ (walkStmts walker' place (renumberStmts id stmts) state') :=
    keep.stmts trivial stmts kept
  rwa [renumber_id_stmts] at ends

theorem sameExpr (keep : walker.Keep id (fun _ _ => True) related answers walker') (place : Place)
    (expr : Expr) (kept : related 0 state state') :
    Ends (related 0) answers (walkExpr walker place expr state)
      (walkExpr walker' place expr state') := by
  have ends : Ends _ _ _ (walkExpr walker' place (expr.renumber id) state') :=
    keep.expr trivial expr kept
  rwa [renumber_id_expr] at ends

end Walker.Keep

end Pairs

end Binding

end ClassScript
