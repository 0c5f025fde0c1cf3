import ClassScript.Proofs.Walking

/-!
What the static checks say about control flow: `break` and `continue` stand inside loops, and
`return` where it may.
-/

set_option autoImplicit false

namespace ClassScript

open Binding

/-- Whether the body of a function may return a value, or return at all. -/
def Binding.FunctionKind.MayReturn : FunctionKind → Option Expr → Prop
  | .none, _ => False
  | .initializer, value => value.isNone
  | .function, _ | .method, _ => True

mutual

/-- Jumps stand inside loops, and returns are such as the kind of body allows. -/
def StmtConfined (kind : FunctionKind) (inLoop : Bool) : Stmt → Prop
  | .block body => StmtsConfined kind inLoop body
  | .branch _ whenTrue whenFalse =>
    StmtConfined kind inLoop whenTrue ∧ OptionalConfined kind inLoop whenFalse
  | .loop _ body => StmtConfined kind true body
  | .countedLoop initial _ _ body =>
    (∀ stmt, initial = some stmt → stmt.BeginsLoop) ∧ StmtConfined kind true body
  | .returnValue _ value => kind.MayReturn value
  | .breakLoop _ | .continueLoop _ => inLoop = true
  | .expression _ | .print _ _ | .var _ _ _ | .function _ | .classDecl _ => True

def StmtsConfined (kind : FunctionKind) (inLoop : Bool) : List Stmt → Prop
  | [] => True
  | stmt :: rest => StmtConfined kind inLoop stmt ∧ StmtsConfined kind inLoop rest

def OptionalConfined (kind : FunctionKind) (inLoop : Bool) : Option Stmt → Prop
  | none => True
  | some stmt => StmtConfined kind inLoop stmt

end

/-- A refusal ends the walk. -/
def Binding.Walker.Strict {σ ε : Type} (walker : Walker σ ε) : Prop :=
  ∀ position fault state after, walker.refuse position fault state ≠ .ok after

section Walks

variable {σ ε : Type} {walker : Walker σ ε}

mutual

private theorem confined_stmt (strict : walker.Strict) (nesting : Nesting) (place : Place)
    (stmt : Stmt) {state after : σ} (proper : Covered Site.Proper (stmtSites nesting stmt))
    (accepts : walkStmt walker place stmt state = .ok after) :
    StmtConfined place.function place.inLoop stmt := by
  cases stmt with
  | block body =>
    obtain ⟨middle, inside, -⟩ := ok_of_bind accepts
    exact confined_stmts strict _ place body proper.cons.2 inside
  | branch condition whenTrue whenFalse =>
    obtain ⟨second, -, accepts⟩ := ok_of_bind accepts
    obtain ⟨third, first, rest⟩ := ok_of_bind accepts
    obtain ⟨properBoth, properFalse⟩ := proper.cons.2.append
    exact ⟨confined_stmt strict nesting place whenTrue properBoth.append.2 first,
      confined_optionalStmt strict nesting place whenFalse properFalse rest⟩
  | loop condition body =>
    obtain ⟨second, -, inside⟩ := ok_of_bind accepts
    exact confined_stmt strict nesting place.loopBody body proper.cons.2.append.2 inside
  | countedLoop initial condition increment body =>
    obtain ⟨second, -, accepts⟩ := ok_of_bind accepts
    obtain ⟨third, -, accepts⟩ := ok_of_bind accepts
    obtain ⟨fourth, -, accepts⟩ := ok_of_bind accepts
    obtain ⟨last, inside, -⟩ := ok_of_bind accepts
    exact ⟨proper.cons.1.2.2,
      confined_stmt strict _ place.loopBody body proper.cons.2.append.2 inside⟩
  | returnValue keyword value =>
    rw [walkStmt.eq_def] at accepts
    generalize place.function = kind at accepts
    cases kind with
    | none => exact absurd accepts (strict _ _ _ _)
    | initializer =>
      cases value with
      | none => rfl
      | some value => exact absurd accepts (strict _ _ _ _)
    | function => trivial
    | method => trivial
  | breakLoop keyword | continueLoop keyword =>
    rw [walkStmt] at accepts
    rw [StmtConfined]
    by_contra outside
    rw [if_neg outside] at accepts
    exact strict _ _ _ _ accepts
  | _ => simp only [StmtConfined]

theorem confined_stmts (strict : walker.Strict) (nesting : Nesting) (place : Place)
    (stmts : List Stmt) {state after : σ} (proper : Covered Site.Proper (stmtsSites nesting stmts))
    (accepts : walkStmts walker place stmts state = .ok after) :
    StmtsConfined place.function place.inLoop stmts := by
  cases stmts with
  | nil => rw [StmtsConfined]; trivial
  | cons stmt rest =>
    obtain ⟨middle, first, others⟩ := ok_of_bind accepts
    exact ⟨confined_stmt strict nesting place stmt proper.append.1 first,
      confined_stmts strict (nesting.past stmt) place rest proper.append.2 others⟩

private theorem confined_optionalStmt (strict : walker.Strict) (nesting : Nesting) (place : Place)
    (stmt : Option Stmt) {state after : σ}
    (proper : Covered Site.Proper (optionalStmtSites nesting stmt))
    (accepts : walkOptionalStmt walker place stmt state = .ok after) :
    OptionalConfined place.function place.inLoop stmt := by
  cases stmt with
  | none => rw [OptionalConfined]; trivial
  | some stmt =>
    exact confined_stmt strict nesting place stmt proper accepts

end

theorem confined_function (strict : walker.Strict) (nesting : Nesting) (place : Place)
    (kind : FunctionKind) (decl : FunctionDecl Stmt) {state after : σ}
    (proper : Covered Site.Proper (functionSites nesting decl))
    (accepts : walkFunction walker place kind decl state = .ok after) :
    StmtsConfined kind false decl.body := by
  obtain ⟨name, parameters, returns, body⟩ := decl
  obtain ⟨begun, -, accepts⟩ := ok_of_bind accepts
  obtain ⟨last, inside, -⟩ := ok_of_bind accepts
  exact confined_stmts strict _ (place.functionBody kind) body proper inside

theorem confined_methods (strict : walker.Strict) (nesting : Nesting) (place : Place)
    (methods : List (MethodDecl Stmt)) {state after : σ}
    (proper : Covered Site.Proper (methodsSites nesting methods))
    (accepts : walkMethods walker place methods state = .ok after) :
    ∀ method ∈ methods,
      StmtsConfined (methodKind method.function.name.name) false method.function.body := by
  induction methods generalizing state with
  | nil => exact List.forall_mem_nil _
  | cons method rest ih =>
    obtain ⟨visibility, dispatch, ⟨name, parameters, returns, body⟩⟩ := method
    obtain ⟨middle, first, others⟩ := ok_of_bind accepts
    exact List.forall_mem_cons.mpr ⟨confined_function strict nesting place (methodKind name.name)
      ⟨name, parameters, returns, body⟩ proper.append.1 first, ih proper.append.2 others⟩

end Walks

/-- The kind of the body of a function with a name that stands at a place. -/
def Nesting.bodyKind : Nesting → String → FunctionKind
  | .methods _ _, name => methodKind name
  | .top, _ | .inside _ _ _, _ | .fields _ _, _ => .function

def Nesting.functions : Nesting → List (FunctionKind × FunctionDecl Stmt)
  | .top => []
  | .inside (.function decl) _ outer => (outer.bodyKind decl.name.name, decl) :: outer.functions
  | .inside (.block _) _ outer | .inside (.countedLoop _ _ _ _) _ outer => outer.functions
  | .fields _ outer | .methods _ outer => outer.functions

def Node.functions : Node → List (FunctionKind × FunctionDecl Stmt)
  | .expr (.lambda decl) => [(.function, decl)]
  | .stmt (.function decl) => [(.function, decl)]
  | .stmt (.classDecl decl) =>
    decl.methods.map fun method => (methodKind method.function.name.name, method.function)
  | _ => []

def Site.functions (site : Site) : List (FunctionKind × FunctionDecl Stmt) :=
  site.node.functions ++ site.nesting.functions

/-- The bodies of functions are confined, each as its kind says. -/
def Mannered (functions : List (FunctionKind × FunctionDecl Stmt)) : Prop :=
  ∀ kind decl, (kind, decl) ∈ functions → StmtsConfined kind false decl.body

def Site.Mannered (site : Site) : Prop :=
  ClassScript.Mannered site.functions

theorem Mannered.cons {functions : List (FunctionKind × FunctionDecl Stmt)} {kind : FunctionKind}
    {decl : FunctionDecl Stmt} (first : StmtsConfined kind false decl.body)
    (rest : Mannered functions) : Mannered ((kind, decl) :: functions) := by
  intro other found member
  rcases List.mem_cons.mp member with same | member
  · obtain ⟨rfl, rfl⟩ := Prod.mk.inj same
    exact first
  · exact rest other found member

theorem Mannered.append {functions more : List (FunctionKind × FunctionDecl Stmt)}
    (first : Mannered functions) (second : Mannered more) : Mannered (functions ++ more) :=
  fun kind decl member => (List.mem_append.mp member).elim (first kind decl) (second kind decl)

/-- Statements and expressions may stand here: not right among the methods of a class. -/
structure Nesting.Hosts (nesting : Nesting) : Prop where
  mannered : Mannered nesting.functions
  plain : ∀ name, nesting.bodyKind name = .function

theorem hosts_top : Nesting.top.Hosts :=
  ⟨nofun, fun _ => rfl⟩

namespace Nesting.Hosts

variable {nesting : Nesting}

theorem declare (hosts : nesting.Hosts) (name : String) : (nesting.declare name).Hosts := by
  cases nesting with
  | inside body names outer => cases body <;> exact ⟨hosts.mannered, fun _ => rfl⟩
  | _ => exact hosts

theorem define (hosts : nesting.Hosts) (name : String) : (nesting.define name).Hosts := by
  cases nesting with
  | inside body names outer => cases body <;> exact ⟨hosts.mannered, fun _ => rfl⟩
  | _ => exact hosts

theorem past (hosts : nesting.Hosts) (stmt : Stmt) : (nesting.past stmt).Hosts := by
  cases stmt with
  | var name typeHint initial | function decl | classDecl decl => exact (hosts.declare _).define _
  | _ => exact hosts

theorem idle (hosts : nesting.Hosts) {node : Node} (none : node.functions = []) :
    Site.Mannered ⟨nesting, node⟩ :=
  fun kind decl member => hosts.mannered kind decl (by rwa [Site.functions, none] at member)

end Nesting.Hosts

theorem Covered.insert {text : Site → Prop} {site : Site} {sites : List Site} (first : text site)
    (rest : Covered text sites) : Covered text (site :: sites) :=
  List.forall_mem_cons.mpr ⟨first, rest⟩

theorem Covered.both {text : Site → Prop} {sites more : List Site} (first : Covered text sites)
    (second : Covered text more) : Covered text (sites ++ more) :=
  List.forall_mem_append.mpr ⟨first, second⟩

theorem Covered.nil {text : Site → Prop} : Covered text [] :=
  List.forall_mem_nil _

end ClassScript
