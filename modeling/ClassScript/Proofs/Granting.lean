import ClassScript.Proofs.RecordedDepths

/-!
What the static checks know of globals: outside of functions, whatever is not bound to a scope of
the text is among the globals at that place.
-/

set_option autoImplicit false

namespace ClassScript

/-- A statement that runs none of the code that stands in it. -/
def Stmt.Defers : Stmt → Prop
  | .function _ | .classDecl _ => True
  | _ => False

open Binding

structure StmtGranted (names : String → Prop) (depths : Depths) (stmt : Stmt) : Prop where
  all : Covered (Site.Granted (fun name => names name ∨ declaredName? stmt = some name) depths)
    (stmtSites .top stmt)
  itself : Site.Granted names depths ⟨.top, .stmt stmt⟩
  running : ¬stmt.Defers → Covered (Site.Granted names depths) (stmtSites .top stmt)

def ProgramGranted (names : String → Prop) (depths : Depths) : List Stmt → Prop
  | [] => True
  | stmt :: rest => StmtGranted names depths stmt ∧
    ProgramGranted (fun name => names name ∨ declaredName? stmt = some name) depths rest

variable {depths later : Depths} {more names : String → Prop}

theorem StmtGranted.mono {stmt : Stmt} (granted : StmtGranted names depths stmt)
    (larger : ∀ name, names name → more name)
    (noted : ∀ id, later.find? id = none → depths.find? id = none) :
    StmtGranted more later stmt where
  all site member := (granted.all site member).mono (fun name => Or.imp_left (larger name)) noted
  itself := granted.itself.mono larger noted
  running runs site member := (granted.running runs site member).mono larger noted

theorem ProgramGranted.mono {program : List Stmt} (granted : ProgramGranted names depths program)
    (larger : ∀ name, names name → more name)
    (noted : ∀ id, later.find? id = none → depths.find? id = none) :
    ProgramGranted more later program := by
  induction program generalizing names more with
  | nil => trivial
  | cons stmt rest ih =>
    exact ⟨granted.1.mono larger noted, ih granted.2 fun name => Or.imp_left (larger name)⟩

namespace Binding

section Top

private theorem superclass_ne_of_declareClass {place : Place} {decl : ClassDecl Expr Stmt}
    {state after : State} (declares : declareClass place decl state = .ok after)
    {parent : SuperclassRef}
    (inherits : decl.superclass = some parent) : parent.name.name ≠ decl.name.name := by
  intro same
  simp only [declareClass, inherits, if_pos same] at declares
  split at declares
  · cases declares
  split at declares
  · cases declares
  · cases declares

variable {hoisted : Dict Unit} {ledger after : Ledger}

private theorem contains_top {declared : Option String}
    (passes : Passes declared.toList ledger.state after.state) (top : Agrees .top ledger.state)
    (name : String) :
    after.state.globals.contains name ↔
      ledger.state.globals.contains name ∨ declared = some name := by
  rw [passes.names, Option.mem_toList, List.map_eq_nil_iff.mp top]
  simp

theorem Ledger.ok_of_carry {new : Option Entry} {moved : Except (Located Fault) State}
    (carried : ledger.carry new moved = .ok after) : moved = .ok after.state := by
  cases moved with
  | error fault => cases carried
  | ok state =>
    obtain rfl := Except.ok.inj carried
    rfl

private theorem stmtGranted {stmt : Stmt} (top : Agrees .top ledger.state)
    (proper : Covered Site.Proper (stmtSites .top stmt))
    (accepts : walkStmt (bookkeeper hoisted) (.top hoisted) stmt ledger = .ok after) :
    StmtGranted (fun name => ledger.state.globals.contains name) after.state.depths stmt := by
  have walked := walked_stmt hoisted (around_top hoisted) trivial top stmt proper
  rw [accepts] at walked
  obtain ⟨-, seen⟩ := walked
  have all : Covered (Site.Granted (fun name => ledger.state.globals.contains name ∨
      declaredName? stmt = some name) after.state.depths) (stmtSites .top stmt) :=
    fun site member => (seen.granted site member).mono
      (fun name known => (contains_top seen.passes top name).mp known) fun _ noted => noted
  have running : declaredName? stmt = none →
      Covered (Site.Granted (fun name => ledger.state.globals.contains name) after.state.depths)
        (stmtSites .top stmt) := by
    intro idle site member
    refine (all site member).mono (fun name known => ?_) fun _ noted => noted
    simpa [idle] using known
  have itself := all _ (mem_stmtSites_self .top stmt)
  cases stmt with
  | var name typeHint initial =>
    refine ⟨all, fun _ id found refers => by simp [Node.mention?] at refers, fun _ => ?_⟩
    -- The initial value is walked through before the name is declared.
    have flat : (bookkeeper hoisted).nested ledger = false := by
      simp [bookkeeper, resolver, List.map_eq_nil_iff.mp top]
    simp only [walkStmt, flat] at accepts
    obtain ⟨middle, first, declares⟩ := ok_of_bind accepts
    have walks := walked_optional hoisted (around_top hoisted) top initial
      proper.cons.2
    rw [first] at walks
    refine .insert (fun _ id found refers => by simp [Node.mention?] at refers) ?_
    intro site member
    exact (walks.2.passes.grants_back (walks.2.granted site member)).mono (fun _ known => known)
      (passes_declare (Ledger.ok_of_carry declares)).depths
  | function decl =>
    exact ⟨all, fun _ id found refers => by simp [Node.mention?] at refers,
      fun runs => absurd trivial runs⟩
  | classDecl decl =>
    refine ⟨all, ?_, fun runs => absurd trivial runs⟩
    obtain ⟨middle, declares, -⟩ := ok_of_bind accepts
    intro outside id found refers noted
    rcases itself outside id found refers noted with known | own
    · exact known
    · obtain ⟨parent, inherits, same⟩ := Option.map_eq_some_iff.mp refers
      obtain ⟨-, rfl⟩ := Prod.mk.inj same
      exact absurd (Option.some.inj own).symm
        (superclass_ne_of_declareClass (Ledger.ok_of_carry declares) inherits)
  | _ => exact ⟨all, running rfl _ (mem_stmtSites_self .top _), fun _ => running rfl⟩

variable {program : List Stmt}

private theorem programGranted (top : Agrees .top ledger.state)
    (proper : Covered Site.Proper (stmtsSites .top program))
    (accepts : walkStmts (bookkeeper hoisted) (.top hoisted) program ledger = .ok after) :
    ProgramGranted (fun name => ledger.state.globals.contains name) after.state.depths program := by
  induction program generalizing ledger with
  | nil => trivial
  | cons stmt rest ih =>
    rw [stmtsSites] at proper
    obtain ⟨middle, first, others⟩ := ok_of_bind accepts
    have same : Nesting.top.past stmt = .top := by cases stmt <;> rfl
    have walked := walked_stmt hoisted (around_top hoisted) trivial top stmt proper.append.1
    rw [first, same] at walked
    obtain ⟨top', seen⟩ := walked
    rw [same] at proper
    have walks := walked_stmts hoisted (around_top hoisted) trivial top' rest
      proper.append.2
    rw [others] at walks
    refine ⟨(stmtGranted top proper.append.1 first).mono (fun _ known => known)
      walks.2.passes.depths, ?_⟩
    refine (ih top' proper.append.2 others).mono ?_ fun _ noted => noted
    exact fun name known => (contains_top seen.passes top name).mp known

variable {globals : Globals} {resolution : Resolution}

theorem globals_of_resolveProgram (proper : Covered Site.Proper (stmtsSites .top program))
    (accepts : resolveProgram globals program = .ok resolution) :
    (∀ name, resolution.globals.contains name ↔
      globals.contains name ∨ name ∈ program.filterMap declaredName?) ∧
    ProgramGranted (fun name => globals.contains name) resolution.depths program ∧
    Covered (Site.Granted (fun name => resolution.globals.contains name) resolution.depths)
      (stmtsSites .top program) := by
  obtain ⟨ledger, walk, -, rfl, -, seen⟩ := ledger_of_resolveProgram proper accepts
  have top : Agrees .top (Ledger.start globals).state := rfl
  refine ⟨fun name => ?_, programGranted top proper walk, seen.granted⟩
  have known := seen.passes.names name
  simpa only [Ledger.start, State.start, true_and] using known

theorem globals_of_resolveLone {expr : Expr} (proper : Covered Site.Proper (exprSites .top expr))
    (accepts : resolveLone globals expr = .ok resolution) :
    (∀ name, resolution.globals.contains name ↔ globals.contains name) ∧
    Covered (Site.Granted (fun name => globals.contains name) resolution.depths)
      (exprSites .top expr) := by
  obtain ⟨ledger, -, -, rfl, seen⟩ := ledger_of_resolveLone proper accepts
  refine ⟨fun name => ?_, fun site member => seen.passes.grants_back (seen.granted site member)⟩
  simpa [Ledger.start, State.start] using seen.passes.names name

end Top

end Binding

end ClassScript
