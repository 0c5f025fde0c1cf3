import ClassScript.Proofs.Numbering

/-!
Trees with other numbers on their references.
-/

set_option autoImplicit false

namespace ClassScript

mutual

def Expr.renumber (change : RefId → RefId) : Expr → Expr
  | .literal value position => .literal value position
  | .unary operator operand position => .unary operator (operand.renumber change) position
  | .binary left operator right position =>
    .binary (left.renumber change) operator (right.renumber change) position
  | .logical left operator right => .logical (left.renumber change) operator (right.renumber change)
  | .group inner => .group (inner.renumber change)
  | .reference id name => .reference (change id) name
  | .assign id name value => .assign (change id) name (value.renumber change)
  | .call callee position arguments =>
    .call (callee.renumber change) position (renumberExprs change arguments)
  | .property object name => .property (object.renumber change) name
  | .setProperty object name value =>
    .setProperty (object.renumber change) name (value.renumber change)
  | .index object key position => .index (object.renumber change) (key.renumber change) position
  | .setIndex object key value position =>
    .setIndex (object.renumber change) (key.renumber change) (value.renumber change) position
  | .array elements position => .array (renumberExprs change elements) position
  | .map entries position => .map (renumberEntries change entries) position
  | .this id position => .this (change id) position
  | .super id position method => .super (change id) position method
  | .lambda decl => .lambda (renumberFunction change decl)

def renumberExprs (change : RefId → RefId) : List Expr → List Expr
  | [] => []
  | expr :: rest => expr.renumber change :: renumberExprs change rest

def renumberEntries (change : RefId → RefId) : List (Expr × Expr) → List (Expr × Expr)
  | [] => []
  | (key, value) :: rest =>
    (key.renumber change, value.renumber change) :: renumberEntries change rest

def renumberOptional (change : RefId → RefId) : Option Expr → Option Expr
  | none => none
  | some expr => some (expr.renumber change)

def renumberFunction (change : RefId → RefId) : FunctionDecl Stmt → FunctionDecl Stmt
  | ⟨name, parameters, returns, body⟩ =>
    { name, parameters, returns, body := renumberStmts change body }

def Stmt.renumber (change : RefId → RefId) : Stmt → Stmt
  | .expression value => .expression (value.renumber change)
  | .print keyword values => .print keyword (renumberExprs change values)
  | .var name typeHint initial => .var name typeHint (renumberOptional change initial)
  | .block body => .block (renumberStmts change body)
  | .branch condition whenTrue whenFalse =>
    .branch (condition.renumber change) (whenTrue.renumber change)
      (renumberOptionalStmt change whenFalse)
  | .loop condition body => .loop (condition.renumber change) (body.renumber change)
  | .countedLoop initial condition increment body =>
    .countedLoop (renumberOptionalStmt change initial) (renumberOptional change condition)
      (renumberOptional change increment) (body.renumber change)
  | .function decl => .function (renumberFunction change decl)
  | .returnValue keyword value => .returnValue keyword (renumberOptional change value)
  | .breakLoop keyword => .breakLoop keyword
  | .continueLoop keyword => .continueLoop keyword
  | .classDecl ⟨name, superclass, fields, methods⟩ =>
    .classDecl {
      name
      superclass := superclass.map fun parent => { parent with id := change parent.id }
      fields := renumberFields change fields
      methods := renumberMethods change methods }

def renumberStmts (change : RefId → RefId) : List Stmt → List Stmt
  | [] => []
  | stmt :: rest => stmt.renumber change :: renumberStmts change rest

def renumberOptionalStmt (change : RefId → RefId) : Option Stmt → Option Stmt
  | none => none
  | some stmt => some (stmt.renumber change)

def renumberFields (change : RefId → RefId) : List (FieldDecl Expr) → List (FieldDecl Expr)
  | [] => []
  | ⟨name, visibility, typeHint, initial⟩ :: rest =>
    { name, visibility, typeHint, initial := renumberOptional change initial } ::
      renumberFields change rest

def renumberMethods (change : RefId → RefId) : List (MethodDecl Stmt) → List (MethodDecl Stmt)
  | [] => []
  | ⟨visibility, dispatch, function⟩ :: rest =>
    { visibility, dispatch, function := renumberFunction change function } ::
      renumberMethods change rest

end

def renumberClass (change : RefId → RefId) (decl : ClassDecl Expr Stmt) : ClassDecl Expr Stmt where
  name := decl.name
  superclass := decl.superclass.map fun parent => { parent with id := change parent.id }
  fields := renumberFields change decl.fields
  methods := renumberMethods change decl.methods

section Shape

variable (change : RefId → RefId)

private theorem renumber_classDecl (decl : ClassDecl Expr Stmt) :
    (Stmt.classDecl decl).renumber change = .classDecl (renumberClass change decl) := by
  obtain ⟨name, superclass, fields, methods⟩ := decl
  rw [Stmt.renumber, renumberClass]

@[simp] theorem renumberFunction_name (decl : FunctionDecl Stmt) :
    (renumberFunction change decl).name = decl.name := by
  obtain ⟨name, parameters, returns, body⟩ := decl
  rw [renumberFunction]

@[simp] theorem renumberFunction_parameters (decl : FunctionDecl Stmt) :
    (renumberFunction change decl).parameters = decl.parameters := by
  obtain ⟨name, parameters, returns, body⟩ := decl
  rw [renumberFunction]

@[simp] theorem renumberFunction_body (decl : FunctionDecl Stmt) :
    (renumberFunction change decl).body = renumberStmts change decl.body := by
  obtain ⟨name, parameters, returns, body⟩ := decl
  rw [renumberFunction]

@[simp] theorem renumberFunction_arity (decl : FunctionDecl Stmt) :
    (renumberFunction change decl).arity = decl.arity := by
  simp [FunctionDecl.arity]

theorem renumberFields_eq_map (fields : List (FieldDecl Expr)) :
    renumberFields change fields =
      fields.map fun field => { field with initial := renumberOptional change field.initial } := by
  induction fields with
  | nil => rw [renumberFields, List.map_nil]
  | cons field rest ih => rw [renumberFields, List.map_cons, ih]

theorem renumberMethods_eq_map (methods : List (MethodDecl Stmt)) :
    renumberMethods change methods =
      methods.map fun method =>
        { method with function := renumberFunction change method.function } := by
  induction methods with
  | nil => rw [renumberMethods, List.map_nil]
  | cons method rest ih => rw [renumberMethods, List.map_cons, ih]

@[simp] theorem Expr.position_renumber : ∀ expr : Expr,
    (expr.renumber change).position = expr.position
  | .literal _ _ | .unary _ _ _ | .binary _ _ _ _ | .reference _ _ | .assign _ _ _ | .call _ _ _
  | .property _ _ | .setProperty _ _ _ | .index _ _ _ | .setIndex _ _ _ _ | .array _ _ | .map _ _
  | .this _ _ | .super _ _ _ => by simp only [Expr.renumber, Expr.position]
  | .logical left _ _ | .group left => by
    simp only [Expr.renumber, Expr.position, Expr.position_renumber left]
  | .lambda decl => by simp only [Expr.renumber, Expr.position, renumberFunction_name]

end Shape

def Site.Agree (change change' : RefId → RefId) (site : Site) : Prop :=
  ∀ id depth, site.use? = some (id, depth) → change id = change' id

theorem covered_nil {text : Site → Prop} : Covered text [] :=
  List.forall_mem_nil _

private theorem covered_cons {text : Site → Prop} {site : Site} {sites : List Site} :
    Covered text (site :: sites) ↔ text site ∧ Covered text sites :=
  List.forall_mem_cons

theorem covered_append {text : Site → Prop} {sites more : List Site} :
    Covered text (sites ++ more) ↔ Covered text sites ∧ Covered text more :=
  List.forall_mem_append

/-- Changing nothing leaves a tree, and changes make one tree of it just if they agree on its
numbers. -/
abbrev Renumbers {α : Type} (renumber : (RefId → RefId) → α → α)
    (sites : Nesting → α → List Site) (tree : α) : Prop :=
  renumber id tree = tree ∧ ∀ change change' nesting,
    Covered (Site.Agree change change') (sites nesting tree) ↔
      renumber change tree = renumber change' tree

mutual

theorem renumbers_expr : ∀ expr : Expr, Renumbers Expr.renumber exprSites expr
  | .literal value position | .reference id name | .this id position
  | .super id position method => by
    simp [Renumbers, Expr.renumber, exprSites, covered_cons, covered_nil, Site.Agree, Site.use?]
  | .unary operator operand position | .group operand | .property operand name
  | .assign id name operand => by
    simp [Renumbers, Expr.renumber, exprSites, covered_cons, Site.Agree, Site.use?,
      renumbers_expr operand]
  | .binary left operator right position | .logical left operator right
  | .setProperty left name right | .index left right position => by
    simp [Renumbers, Expr.renumber, exprSites, covered_cons, covered_append, Site.Agree, Site.use?,
      renumbers_expr left, renumbers_expr right]
  | .call callee position arguments => by
    simp [Renumbers, Expr.renumber, exprSites, covered_cons, covered_append, Site.Agree, Site.use?,
      renumbers_expr callee, renumbers_exprs arguments]
  | .setIndex object key value position => by
    simp [Renumbers, Expr.renumber, exprSites, covered_cons, covered_append, Site.Agree, Site.use?,
      renumbers_expr object, renumbers_expr key, renumbers_expr value]
  | .array elements position => by
    simp [Renumbers, Expr.renumber, exprSites, covered_cons, Site.Agree, Site.use?,
      renumbers_exprs elements]
  | .map entries position => by
    simp [Renumbers, Expr.renumber, exprSites, covered_cons, Site.Agree, Site.use?,
      renumbers_entries entries]
  | .lambda decl => by
    simp [Renumbers, Expr.renumber, exprSites, covered_cons, Site.Agree, Site.use?,
      renumbers_function decl]

theorem renumbers_exprs : ∀ exprs : List Expr, Renumbers renumberExprs exprsSites exprs
  | [] => by simp [Renumbers, renumberExprs, exprsSites, covered_nil]
  | expr :: rest => by
    simp [Renumbers, renumberExprs, exprsSites, covered_append, renumbers_expr expr,
      renumbers_exprs rest]

private theorem renumbers_entries : ∀ entries : List (Expr × Expr),
    Renumbers renumberEntries entriesSites entries
  | [] => by simp [Renumbers, renumberEntries, entriesSites, covered_nil]
  | (key, value) :: rest => by
    simp [Renumbers, renumberEntries, entriesSites, covered_append, renumbers_expr key,
      renumbers_expr value, renumbers_entries rest, and_assoc]

theorem renumbers_optional : ∀ expr : Option Expr, Renumbers renumberOptional optionalSites expr
  | none => by simp [Renumbers, renumberOptional, optionalSites, covered_nil]
  | some expr => by simp [Renumbers, renumberOptional, optionalSites, renumbers_expr expr]

theorem renumbers_function : ∀ decl : FunctionDecl Stmt,
    Renumbers renumberFunction functionSites decl
  | ⟨name, parameters, returns, body⟩ => by
    simp [Renumbers, renumberFunction, functionSites, renumbers_stmts body]

theorem renumbers_stmt : ∀ stmt : Stmt, Renumbers Stmt.renumber stmtSites stmt
  | .expression value => by
    simp [Renumbers, Stmt.renumber, stmtSites, covered_cons, Site.Agree, Site.use?,
      renumbers_expr value]
  | .print keyword values => by
    simp [Renumbers, Stmt.renumber, stmtSites, covered_cons, Site.Agree, Site.use?,
      renumbers_exprs values]
  | .var name typeHint value | .returnValue keyword value => by
    simp [Renumbers, Stmt.renumber, stmtSites, covered_cons, Site.Agree, Site.use?,
      renumbers_optional value]
  | .block body => by
    simp [Renumbers, Stmt.renumber, stmtSites, covered_cons, Site.Agree, Site.use?,
      renumbers_stmts body]
  | .branch condition whenTrue whenFalse => by
    simp [Renumbers, Stmt.renumber, stmtSites, covered_cons, covered_append, Site.Agree, Site.use?,
      renumbers_expr condition, renumbers_stmt whenTrue, renumbers_optionalStmt whenFalse]
  | .loop condition body => by
    simp [Renumbers, Stmt.renumber, stmtSites, covered_cons, covered_append, Site.Agree, Site.use?,
      renumbers_expr condition, renumbers_stmt body]
  | .countedLoop initial condition increment body => by
    simp [Renumbers, Stmt.renumber, stmtSites, covered_cons, covered_append, Site.Agree, Site.use?,
      renumbers_optionalStmt initial, renumbers_optional condition, renumbers_optional increment,
      renumbers_stmt body]
  | .function ⟨name, parameters, returns, body⟩ => by
    simp [Renumbers, Stmt.renumber, stmtSites, covered_cons, Site.Agree, Site.use?,
      renumbers_function ⟨name, parameters, returns, body⟩]
  | .breakLoop keyword | .continueLoop keyword => by
    simp [Renumbers, Stmt.renumber, stmtSites, covered_cons, covered_nil, Site.Agree, Site.use?]
  | .classDecl ⟨name, superclass, fields, methods⟩ => by
    cases superclass <;>
      simp [Renumbers, Stmt.renumber, stmtSites, covered_cons, covered_append, Site.Agree,
        Site.use?, renumbers_fields fields, renumbers_methods methods]

theorem renumbers_stmts : ∀ stmts : List Stmt, Renumbers renumberStmts stmtsSites stmts
  | [] => by simp [Renumbers, renumberStmts, stmtsSites, covered_nil]
  | stmt :: rest => by
    simp [Renumbers, renumberStmts, stmtsSites, covered_append, renumbers_stmt stmt,
      renumbers_stmts rest]

theorem renumbers_optionalStmt : ∀ stmt : Option Stmt,
    Renumbers renumberOptionalStmt optionalStmtSites stmt
  | none => by simp [Renumbers, renumberOptionalStmt, optionalStmtSites, covered_nil]
  | some stmt => by simp [Renumbers, renumberOptionalStmt, optionalStmtSites, renumbers_stmt stmt]

theorem renumbers_fields : ∀ fields : List (FieldDecl Expr),
    Renumbers renumberFields fieldsSites fields
  | [] => by simp [Renumbers, renumberFields, fieldsSites, covered_nil]
  | ⟨name, visibility, typeHint, initial⟩ :: rest => by
    simp [Renumbers, renumberFields, fieldsSites, covered_append, renumbers_optional initial,
      renumbers_fields rest]

theorem renumbers_methods : ∀ methods : List (MethodDecl Stmt),
    Renumbers renumberMethods methodsSites methods
  | [] => by simp [Renumbers, renumberMethods, methodsSites, covered_nil]
  | ⟨visibility, dispatch, function⟩ :: rest => by
    simp [Renumbers, renumberMethods, methodsSites, covered_append, renumbers_function function,
      renumbers_methods rest]

end

theorem renumber_id_expr (expr : Expr) : expr.renumber id = expr :=
  (renumbers_expr expr).1

theorem renumber_id_function (decl : FunctionDecl Stmt) : renumberFunction id decl = decl :=
  (renumbers_function decl).1

theorem renumber_id_stmt (stmt : Stmt) : stmt.renumber id = stmt :=
  (renumbers_stmt stmt).1

theorem renumber_id_stmts (stmts : List Stmt) : renumberStmts id stmts = stmts :=
  (renumbers_stmts stmts).1

theorem renumberClass_id (decl : ClassDecl Expr Stmt) : renumberClass id decl = decl :=
  Stmt.classDecl.inj ((renumber_classDecl _ _).symm.trans (renumber_id_stmt _))

end ClassScript
