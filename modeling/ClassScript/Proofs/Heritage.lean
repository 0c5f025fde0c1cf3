import ClassScript.Proofs.Walking
import Mathlib.Data.List.Forall2

/-!
What the superclass names of classes are bound to. Main statement: the classes that the walk through
a program remembers are those that its lexicon recalls.
-/

set_option autoImplicit false

namespace ClassScript.Binding

inductive Lineage where
  /-- A class without a superclass. -/
  | root (decl : ClassDecl Expr Stmt) (alone : decl.superclass = none)
  /-- A class whose superclass name is bound to a class declaration. -/
  | heir (decl : ClassDecl Expr Stmt) (clause : SuperclassRef)
    (inherits : decl.superclass = some clause) (parent : Lineage)
  /-- A class whose superclass name is bound to something else or to nothing. -/
  | stray (decl : ClassDecl Expr Stmt)

namespace Lineage

def decl : Lineage → ClassDecl Expr Stmt
  | root decl _ | heir decl _ _ _ | stray decl => decl

def ancestors? : Lineage → Option (List (ClassDecl Expr Stmt))
  | root _ _ => some []
  | heir _ _ _ parent => parent.ancestors?.map (parent.decl :: ·)
  | stray _ => none

def clauses : Lineage → List String
  | root _ _ | stray _ => []
  | heir _ clause _ parent => clause.name.name :: parent.clauses

def height : Lineage → Nat
  | root _ _ | stray _ => 0
  | heir _ _ _ parent => parent.height + 1

end Lineage

/-- Declarations of names, latest first; a class comes with its lineage. -/
abbrev Declarations := List (String × Option Lineage)

namespace Declarations

def latest? (name : String) : Declarations → Option (Option Lineage)
  | [] => none
  | (other, entry) :: rest => if name = other then some entry else latest? name rest

/-- The latest class of a name, whatever the name has been declared as since. -/
def latestClass? (name : String) : Declarations → Option Lineage
  | [] => none
  | (other, entry) :: rest =>
    if name = other then entry.or (latestClass? name rest) else latestClass? name rest

def nearest? (name : String) : List Declarations → Option (Option Lineage)
  | [] => none
  | scope :: outer => (latest? name scope).or (nearest? name outer)

end Declarations

structure Lexicon where
  global : Declarations
  /-- The declarations of the local scopes, innermost first. -/
  locals : List Declarations

namespace Lexicon

/-- The class that a name is bound to: the declaration in the nearest scope that declares it, at the
top the latest one. -/
def bound? (lexicon : Lexicon) (name : String) : Option Lineage :=
  (Declarations.nearest? name (lexicon.locals ++ [lexicon.global])).join

/-- The class that a name is taken for when a chain of superclass names is followed. At the top a
class is recalled even if the name has been declared as something else since. -/
def recalled? (lexicon : Lexicon) (name : String) : Option Lineage :=
  match Declarations.nearest? name lexicon.locals with
  | some entry => entry
  | none => lexicon.global.latestClass? name

def declare (lexicon : Lexicon) (name : String) (entry : Option Lineage) : Lexicon :=
  match lexicon.locals with
  | [] => { lexicon with global := (name, entry) :: lexicon.global }
  | scope :: outer => { lexicon with locals := ((name, entry) :: scope) :: outer }

def define (lexicon : Lexicon) (name : String) : Lexicon :=
  match lexicon.locals with
  | [] => lexicon
  | scope :: outer =>
    if (scope.latest? name).isSome then lexicon
    else { lexicon with locals := ((name, none) :: scope) :: outer }

def enter (lexicon : Lexicon) (names : List String) : Lexicon :=
  { lexicon with locals := names.map (·, none) :: lexicon.locals }

def leave (lexicon : Lexicon) : Lexicon :=
  { lexicon with locals := lexicon.locals.tail }

def lineageOf (lexicon : Lexicon) (decl : ClassDecl Expr Stmt) : Lineage :=
  match inherits : decl.superclass with
  | none => .root decl inherits
  | some clause =>
    match lexicon.bound? clause.name.name with
    | some parent => .heir decl clause inherits parent
    | none => .stray decl

def declareClass (lexicon : Lexicon) (decl : ClassDecl Expr Stmt) : Lexicon :=
  lexicon.declare decl.name.name (some (lexicon.lineageOf decl))

@[simp] theorem decl_lineageOf (lexicon : Lexicon) (decl : ClassDecl Expr Stmt) :
    (lexicon.lineageOf decl).decl = decl := by
  unfold lineageOf
  split
  · rfl
  · split <;> rfl

end Lexicon

/-- A class declaration that a walk has come to, and what has been gathered before it. -/
structure Visit where
  place : Place
  decl : ClassDecl Expr Stmt
  state : State
  lexicon : Lexicon

structure Survey where
  state : State
  lexicon : Lexicon
  /-- The class declarations that the walk has come to, latest first. -/
  visits : List Visit

/-- Why such a walk has ended early, and the class declarations it had come to. -/
structure Refusal where
  fault : Located Fault
  visits : List Visit

/-- Go on with what the binding of references makes of the state. -/
def Survey.carry (survey : Survey) (lexicon : Lexicon) :
    Except (Located Fault) State → Except Refusal Survey
  | .ok state => .ok { survey with state, lexicon }
  | .error fault => .error { fault, visits := survey.visits }

def surveyor (hoisted : Dict Unit) : Walker Survey Refusal where
  refuse position fault survey := survey.carry survey.lexicon (Binding.refuse position fault)
  read place id name survey :=
    survey.carry survey.lexicon ((resolver hoisted).read place id name survey.state)
  bind place id name survey :=
    survey.carry survey.lexicon ((resolver hoisted).bind place id name survey.state)
  word id word survey := survey.carry survey.lexicon ((resolver hoisted).word id word survey.state)
  enter names survey :=
    { survey with state := survey.state.enter names, lexicon := survey.lexicon.enter names }
  leave survey := { survey with state := survey.state.leave, lexicon := survey.lexicon.leave }
  declare name survey :=
    survey.carry (survey.lexicon.declare name.name none) (survey.state.declare name)
  define name survey :=
    { survey with state := survey.state.define name, lexicon := survey.lexicon.define name }
  nested survey := (resolver hoisted).nested survey.state
  declareClass place decl survey :=
    let visit : Visit :=
      { place := place.within hoisted, decl, state := survey.state, lexicon := survey.lexicon }
    Survey.carry { survey with visits := visit :: survey.visits }
      (survey.lexicon.declareClass decl)
      (Binding.declareClass (place.within hoisted) decl survey.state)

def surveyProgram (globals : Globals) (declarations : Declarations) (program : List Stmt) :
    Except Refusal Survey :=
  walkStmts (surveyor (hoistedNames program)) (.top (hoistedNames program)) program
    { state := .start globals, lexicon := { global := declarations, locals := [] }, visits := [] }

def surveyVisits : Except Refusal Survey → List Visit
  | .ok survey => survey.visits
  | .error refusal => refusal.visits

def surveyResult : Except Refusal Survey → Except (Located Fault) Resolution
  | .ok survey => .ok { depths := survey.state.depths, globals := survey.state.globals }
  | .error refusal => .error refusal.fault

def surveyLone (globals : Globals) (declarations : Declarations) (expr : Expr) :
    Except Refusal Survey :=
  walkExpr (surveyor ∅) (.top ∅) expr
    { state := .start globals, lexicon := { global := declarations, locals := [] }, visits := [] }

def builtinDeclarations : Declarations :=
  Builtin.all.map fun builtin => (builtin.name, none)

/-- The globals of the texts that have been accepted one after the other, and what they have
declared at the top. -/
inductive History : Globals → Declarations → Prop where
  | start : History .initial builtinDeclarations
  | program {globals : Globals} {declarations : Declarations} {program : List Stmt}
    {found : Resolution} {survey : Survey} (history : History globals declarations)
    (accepted : resolveProgram globals program = .ok found)
    (surveyed : surveyProgram globals declarations program = .ok survey) :
    History found.globals survey.lexicon.global
  | lone {globals : Globals} {declarations : Declarations} {expr : Expr} {found : Resolution}
    {survey : Survey} (history : History globals declarations)
    (accepted : resolveLone globals expr = .ok found)
    (surveyed : surveyLone globals declarations expr = .ok survey) :
    History found.globals survey.lexicon.global

def Lineage.outline (lineage : Lineage) : Outline :=
  outlineOf lineage.decl

structure Scope.Mirrors (scope : Scope) (declarations : Declarations) : Prop where
  names : ∀ name, scope.names.contains name = (declarations.latest? name).isSome
  classes : ∀ name, scope.classes.find? name =
    (declarations.latest? name).join.map Lineage.outline

structure State.Mirrors (state : State) (lexicon : Lexicon) : Prop where
  global : ∀ name, state.globals.classes.find? name =
    (lexicon.global.latestClass? name).map Lineage.outline
  locals : List.Forall₂ Scope.Mirrors state.scopes lexicon.locals

namespace Scope.Mirrors

variable {scope : Scope} {declarations : Declarations}

private theorem declare (mirrors : scope.Mirrors declarations) {name : String}
    (absent : scope.names.contains name = false) (complete : Bool) :
    Scope.Mirrors { scope with names := scope.names.insert name complete }
      ((name, none) :: declarations) where
  names other := by
    rw [Dict.contains_insert, mirrors.names, Declarations.latest?]
    by_cases same : other = name <;> simp [same]
  classes other := by
    have unknown : declarations.latest? name = none := by
      simpa [mirrors.names] using absent
    rw [mirrors.classes, Declarations.latest?]
    by_cases same : other = name
    · subst same
      simp [unknown]
    · simp [same]

private theorem define (mirrors : scope.Mirrors declarations) {name : String}
    (known : scope.names.contains name = true) (complete : Bool) :
    Scope.Mirrors { scope with names := scope.names.insert name complete } declarations where
  names other := by
    rw [Dict.contains_insert, mirrors.names]
    by_cases same : other = name
    · subst same
      simpa [← mirrors.names] using known
    · simp [same]
  classes := mirrors.classes

private theorem declareClass (mirrors : scope.Mirrors declarations) (lineage : Lineage)
    (name : String) : Scope.Mirrors
      { names := (scope.names.insert name false).insert name true
        classes := scope.classes.insert name lineage.outline }
      ((name, some lineage) :: declarations) where
  names other := by
    rw [Dict.contains_insert, Dict.contains_insert, mirrors.names, Declarations.latest?]
    by_cases same : other = name <;> simp [same]
  classes other := by
    rw [Dict.find?_insert, mirrors.classes, Declarations.latest?]
    by_cases same : other = name <;> simp [same]

private theorem enter (names : List String) :
    Scope.Mirrors { Scope.empty with names := .ofList (names.map fun name => (name, true)) }
      (names.map (·, none)) := by
  have latest (name : String) : Declarations.latest? name (names.map (·, none)) =
      if name ∈ names then some none else none := by
    induction names with
    | nil => rfl
    | cons other rest ih =>
      rw [List.map_cons, Declarations.latest?, ih]
      by_cases same : name = other <;> simp [same]
  refine ⟨fun name => ?_, fun name => ?_⟩
  · rw [latest, Bool.eq_iff_iff, Dict.ofList, Dict.contains_insertAll, List.map_map]
    by_cases member : name ∈ names <;> simp [member, Dict.contains, Function.comp_def]
  · rw [latest]
    split <;> rfl

end Scope.Mirrors

namespace State.Mirrors

variable {state after : State} {lexicon : Lexicon}

section

variable (mirrors : state.Mirrors lexicon)

include mirrors

theorem of_frame (frame : after.globals = state.globals ∧ after.scopes = state.scopes) :
    after.Mirrors lexicon :=
  ⟨frame.1 ▸ mirrors.global, frame.2 ▸ mirrors.locals⟩

theorem enter (names : List String) : (state.enter names).Mirrors (lexicon.enter names) :=
  ⟨mirrors.global, .cons (.enter names) mirrors.locals⟩

theorem leave : state.leave.Mirrors lexicon.leave := by
  refine ⟨mirrors.global, ?_⟩
  have locals := mirrors.locals
  rw [State.leave, Lexicon.leave]
  generalize state.scopes = scopes at locals
  generalize lexicon.locals = scopes' at locals
  cases locals with
  | nil => exact .nil
  | cons inner outer => exact outer

theorem declare {name : Identifier} (declares : state.declare name = .ok after) :
    after.Mirrors (lexicon.declare name.name none) := by
  obtain ⟨globals, scopes, depths⟩ := state
  obtain ⟨global, locals⟩ := lexicon
  obtain ⟨classes, scopesMirror⟩ := mirrors
  cases scopesMirror with
  | nil =>
    obtain rfl := Except.ok.inj declares
    refine ⟨fun other => ?_, .nil⟩
    rw [classes]
    simp only [Lexicon.declare, Declarations.latestClass?, Option.none_or, ite_self]
  | @cons scope declarations outer outer' inner outerMirror =>
    simp only [State.declare] at declares
    split at declares
    · cases declares
    · rename_i absent
      obtain rfl := Except.ok.inj declares
      exact ⟨classes, .cons (inner.declare (by simpa using absent) false) outerMirror⟩

theorem define (name : String) : (state.define name).Mirrors (lexicon.define name) := by
  obtain ⟨globals, scopes, depths⟩ := state
  obtain ⟨global, locals⟩ := lexicon
  obtain ⟨classes, scopesMirror⟩ := mirrors
  cases scopesMirror with
  | nil => exact ⟨classes, .nil⟩
  | @cons scope declarations outer outer' inner outerMirror =>
    simp only [State.define, Lexicon.define, ← inner.names]
    split
    · rename_i known
      exact ⟨classes, .cons (inner.define known true) outerMirror⟩
    · rename_i absent
      exact ⟨classes, .cons (inner.declare (by simpa using absent) true) outerMirror⟩

theorem introduced {place : Place} {decl : ClassDecl Expr Stmt}
    (introduced : Introduced place decl state after) :
    after.Mirrors (lexicon.declareClass decl) := by
  obtain ⟨-, bound, declared, binds, declares, rfl⟩ := introduced
  have same : outlineOf decl = (lexicon.lineageOf decl).outline := by
    rw [Lineage.outline, Lexicon.decl_lineageOf]
  have frame : bound.globals = state.globals ∧ bound.scopes = state.scopes := by
    cases clause : decl.superclass with
    | none =>
      rw [clause] at binds
      obtain rfl : state = bound := Except.ok.inj binds
      exact ⟨rfl, rfl⟩
    | some parent =>
      rw [clause] at binds
      exact bindName_frame binds
  replace mirrors := mirrors.of_frame frame
  rw [same, Lexicon.declareClass]
  generalize lexicon.lineageOf decl = lineage
  obtain ⟨globals, scopes, depths⟩ := bound
  obtain ⟨global, locals⟩ := lexicon
  obtain ⟨classes, scopesMirror⟩ := mirrors
  cases scopesMirror with
  | nil =>
    obtain rfl := Except.ok.inj declares
    refine ⟨fun other => ?_, .nil⟩
    simp only [State.define, State.recordClass, Lexicon.declare, Dict.find?_insert,
      Declarations.latestClass?, Option.some_or]
    by_cases here : other = decl.name.name
    · simp [here]
    · simpa [here] using classes other
  | @cons scope declarations outer outer' inner outerMirror =>
    simp only [State.declare] at declares
    split at declares
    · cases declares
    · obtain rfl := Except.ok.inj declares
      exact ⟨classes, .cons (inner.declareClass lineage decl.name.name) outerMirror⟩

/-- The outline that the walk has for a name is that of the class that the lexicon recalls. -/
theorem outline?_eq (name : String) :
    state.outline? name = (lexicon.recalled? name).map Lineage.outline := by
  obtain ⟨globals, scopes, depths⟩ := state
  obtain ⟨global, locals⟩ := lexicon
  obtain ⟨classes, scopesMirror⟩ := mirrors
  unfold State.outline? Lexicon.recalled?
  simp only at classes scopesMirror ⊢
  induction scopesMirror with
  | nil => exact classes name
  | @cons scope declarations outer outer' inner outerMirror ih =>
    rw [State.outlineIn, inner.classes, inner.names, Declarations.nearest?]
    cases declarations.latest? name with
    | none => simpa using ih
    | some entry => cases entry <;> rfl

end

end State.Mirrors

/-- At each of the class declarations the lexicon recalls what the walk remembers. -/
def Faithful (visits : List Visit) : Prop :=
  ∀ visit ∈ visits, visit.state.Mirrors visit.lexicon

structure Survey.Follows (survey : Survey) (state : State) : Prop where
  same : survey.state = state
  mirrors : survey.state.Mirrors survey.lexicon
  faithful : Faithful survey.visits

/-- The binding of references ends with the fault that the survey ends with. -/
def Refusal.Answers (refusal : Refusal) (ending : Except (Located Fault) State) : Prop :=
  ending = .error refusal.fault ∧ Faithful refusal.visits

theorem Survey.ends_carry {survey : Survey} (faithful : Faithful survey.visits)
    {lexicon : Lexicon} {moved : Except (Located Fault) State}
    (mirrors : ∀ after, moved = .ok after → after.Mirrors lexicon) :
    Ends Survey.Follows Refusal.Answers (survey.carry lexicon moved) moved := by
  cases moved with
  | error fault => exact .error ⟨rfl, faithful⟩
  | ok after => exact .ok ⟨rfl, mirrors after rfl, faithful⟩

private theorem keep_survey (hoisted : Dict Unit) :
    (surveyor hoisted).Keep id (fun _ _ => True) (fun _ => Survey.Follows) Refusal.Answers
      (resolver hoisted) where
  final := by
    rintro refusal ending ⟨rfl, faithful⟩ next
    exact ⟨rfl, faithful⟩
  loop _ := trivial
  block _ := trivial
  methodsFit _ _ := trivial
  body _ _ _ _ := trivial
  nested follows := by rw [← follows.same]; rfl
  refuse := by
    rintro _ survey _ ⟨rfl, mirrors, faithful⟩ position fault
    exact .error ⟨rfl, faithful⟩
  read := by
    rintro _ place survey _ _ ⟨rfl, mirrors, faithful⟩ id name
    refine Survey.ends_carry faithful fun after ends => mirrors.of_frame ?_
    simp only [resolver] at ends
    split at ends
    · cases ends
    · exact bindName_frame ends
  bind := by
    rintro _ place survey _ _ ⟨rfl, mirrors, faithful⟩ id name
    exact Survey.ends_carry faithful fun after ends => mirrors.of_frame (bindName_frame ends)
  word := by
    rintro _ survey _ ⟨rfl, mirrors, faithful⟩ id word
    exact Survey.ends_carry faithful fun after ends => mirrors.of_frame (bindWord_frame ends)
  enter := by
    rintro _ survey _ ⟨rfl, mirrors, faithful⟩ names
    exact ⟨rfl, mirrors.enter names, faithful⟩
  leave := by
    rintro _ survey _ ⟨rfl, mirrors, faithful⟩
    exact ⟨rfl, mirrors.leave, faithful⟩
  declare := by
    rintro _ _ survey _ _ ⟨rfl, mirrors, faithful⟩ name
    exact Survey.ends_carry faithful fun after declares => mirrors.declare declares
  define := by
    rintro _ survey _ ⟨rfl, mirrors, faithful⟩ name
    exact ⟨rfl, mirrors.define name, faithful⟩
  declareClass := by
    rintro _ place survey _ _ ⟨rfl, mirrors, faithful⟩ decl
    rw [renumberClass_id]
    refine Survey.ends_carry ?_ fun after accepts =>
      mirrors.introduced (introduced_of_declareClass accepts)
    intro visit member
    rcases List.mem_cons.mp member with rfl | earlier
    · exact mirrors
    · exact faithful visit earlier

section Texts

variable {globals : Globals} {declarations : Declarations}
  (mirrors : (State.start globals).Mirrors { global := declarations, locals := [] })

include mirrors

theorem Survey.follows_start :
    Survey.Follows ⟨.start globals, { global := declarations, locals := [] }, []⟩
      (.start globals) :=
  ⟨rfl, mirrors, fun visit member => by cases member⟩

private theorem surveyProgram_ends (program : List Stmt) :
    Ends Survey.Follows Refusal.Answers (surveyProgram globals declarations program)
      (resolveStmts (.top (hoistedNames program)) program (.start globals)) := by
  have ends := (keep_survey (hoistedNames program)).sameStmts (.top (hoistedNames program)) program
    (Survey.follows_start mirrors)
  rw [walkStmts_resolver] at ends
  exact ends

theorem surveyResult_eq (program : List Stmt) :
    surveyResult (surveyProgram globals declarations program) = resolveProgram globals program := by
  have ends := surveyProgram_ends mirrors program
  unfold resolveProgram
  generalize resolveStmts (.top (hoistedNames program)) program (.start globals) = ending at ends ⊢
  generalize surveyProgram globals declarations program = survey at ends ⊢
  cases ends with
  | ok follows =>
    rw [surveyResult, follows.same]
    rfl
  | error answer =>
    rw [surveyResult, answer.1]
    rfl

theorem faithful_surveyVisits (program : List Stmt) :
    Faithful (surveyVisits (surveyProgram globals declarations program)) := by
  have ends := surveyProgram_ends mirrors program
  generalize resolveStmts (.top (hoistedNames program)) program (.start globals) = ending at ends
  generalize surveyProgram globals declarations program = survey at ends ⊢
  cases ends with
  | ok follows => exact follows.faithful
  | error answer => exact answer.2

private theorem surveyLone_ends (expr : Expr) :
    Ends Survey.Follows Refusal.Answers (surveyLone globals declarations expr)
      (resolveExpr (.top ∅) expr (.start globals)) := by
  have ends := (keep_survey ∅).sameExpr (.top ∅) expr (Survey.follows_start mirrors)
  rw [walkExpr_resolver] at ends
  exact ends

end Texts

private theorem latestClass?_plain (names : List String) (name : String) :
    Declarations.latestClass? name (names.map (·, none)) = none := by
  induction names with
  | nil => rfl
  | cons other rest ih =>
    rw [List.map_cons, Declarations.latestClass?, ih]
    split <;> rfl

/-- After any texts, the classes that are remembered at the top are those that are recalled. -/
theorem History.mirrors {globals : Globals} {declarations : Declarations}
    (history : History globals declarations) :
    (State.start globals).Mirrors { global := declarations, locals := [] } := by
  induction history with
  | start =>
    refine ⟨fun name => ?_, .nil⟩
    have plain := latestClass?_plain (Builtin.all.map Builtin.name) name
    exact (congrArg (Option.map Lineage.outline) plain).symm
  | @program globals declarations program found survey history accepted surveyed ih =>
    have ends := surveyProgram_ends ih program
    obtain ⟨state, walked, rfl⟩ := resolveProgram_ok accepted
    rw [surveyed, walked] at ends
    cases ends with
    | ok follows => exact ⟨follows.same ▸ follows.mirrors.global, .nil⟩
  | @lone globals declarations expr found survey history accepted surveyed ih =>
    have ends := surveyLone_ends ih expr
    obtain ⟨state, walked, rfl⟩ := resolveLone_ok accepted
    rw [surveyed, walked] at ends
    cases ends with
    | ok follows => exact ⟨follows.same ▸ follows.mirrors.global, .nil⟩

end ClassScript.Binding
