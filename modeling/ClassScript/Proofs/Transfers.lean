import ClassScript.Proofs.Journal
import ClassScript.Proofs.Privilege

/-!
Control transfers stay inside: a body that the static checks have accepted ends normally or with a
return, and every jump is caught by the innermost loop around it.
-/

set_option autoImplicit false

namespace ClassScript

open Binding Run

/-- The ways in which a body of a kind may end. -/
def Binding.FunctionKind.Allows : FunctionKind → Flow → Prop
  | _, .normal => True
  | .none, .returned _ => False
  | .initializer, .returned value => value = .nil
  | .function, .returned _ | .method, .returned _ => True
  | _, .broken | _, .continued => False

def Run.Flow.jump? : Flow → Option Jump
  | .broken => some .out
  | .continued => some .next
  | .normal | .returned _ => none

/-- Every jump starts from a statement that makes it, and what is noted next is that the innermost
loop around this statement catches it. -/
inductive Settled (body : List Stmt) : List JumpNote → Prop
  | nil : Settled body []
  | cons {jump : Jump} {origin loop : Address} {stmt : Stmt} {journal : List JumpNote}
    (located : locateIn body origin = some (stmt, some loop)) (leaps : stmt.jump? = some jump)
    (rest : Settled body journal) :
    Settled body (.jumped jump origin :: .caught jump loop :: journal)

variable {body statements : List Stmt} {kind : FunctionKind} {plain : Eval Flow} {stmt : Stmt}
  {index : Nat} {input : Input} {ready session : Session}

private theorem Settled.append {journal more : List JumpNote} (first : Settled body journal)
    (second : Settled body more) : Settled body (journal ++ more) := by
  induction first with
  | nil => exact second
  | cons located leaps rest ih => exact .cons located leaps ih

inductive Leaves (body : List Stmt) (kind : FunctionKind) (around : Option Address) :
    List JumpNote × Outcome Flow → Prop
  | ends {journal : List JumpNote} {flow : Flow} {after : Machine} (settled : Settled body journal)
    (allowed : kind.Allows flow) : Leaves body kind around (journal, .done flow after)
  | jumps {journal : List JumpNote} {flow : Flow} {jump : Jump} {origin loop : Address}
    {stmt : Stmt} {after : Machine} (settled : Settled body journal)
    (underWay : flow.jump? = some jump) (inside : around = some loop)
    (located : locateIn body origin = some (stmt, some loop)) (leaps : stmt.jump? = some jump) :
    Leaves body kind around (journal ++ [.jumped jump origin], .done flow after)
  | stops {journal : List JumpNote} {reason : Stop} {after : Machine}
    (settled : Settled body journal) : Leaves body kind around (journal, .stopped reason after)
  | exhausts {journal : List JumpNote} (settled : Settled body journal) :
    Leaves body kind around (journal, .exhausted)

structure Confines (body : List Stmt) (kind : FunctionKind) (around : Option Address)
    (journaled : Journaled Flow) (plain : Eval Flow) : Prop where
  erases : journaled.Erases plain
  leaves : ∀ machine, Leaves body kind around (journaled machine)

section Moves

variable {α : Type} {body : List Stmt} {kind : FunctionKind} {around : Option Address}

private theorem Leaves.after {journal more : List JumpNote} {outcome : Outcome Flow}
    (settled : Settled body journal) (leaves : Leaves body kind around (more, outcome)) :
    Leaves body kind around (journal ++ more, outcome) := by
  cases leaves with
  | ends rest allowed => exact .ends (settled.append rest) allowed
  | jumps rest underWay inside located leaps =>
    rw [← List.append_assoc]
    exact .jumps (settled.append rest) underWay inside located leaps
  | stops rest => exact .stops (settled.append rest)
  | exhausts rest => exact .exhausts (settled.append rest)

namespace Confines

private theorem pure {flow : Flow} (allowed : kind.Allows flow) :
    Confines body kind around (Pure.pure flow) (Pure.pure flow) :=
  ⟨fun _ => rfl, fun _ => .ends .nil allowed⟩

private theorem lift {plain : Eval Flow}
    (allowed : ∀ machine flow after, plain machine = .done flow after → kind.Allows flow) :
    Confines body kind around (Journaled.lift plain) plain := by
  refine ⟨fun _ => rfl, fun machine => ?_⟩
  show Leaves body kind around ([], plain machine)
  cases ending : plain machine with
  | done flow after => exact .ends .nil (allowed machine flow after ending)
  | stopped reason after => exact .stops .nil
  | exhausted => exact .exhausts .nil

private theorem exhaust : Confines body kind around (Journaled.lift Eval.exhaust) Eval.exhaust :=
  ⟨fun _ => rfl, fun _ => .exhausts .nil⟩

private theorem lift_bind {part : Eval α} {next : α → Journaled Flow} {next' : α → Eval Flow}
    (rest : ∀ value, Confines body kind around (next value) (next' value)) :
    Confines body kind around (Journaled.lift part >>= next) (part >>= next') := by
  refine ⟨.bind (fun _ => rfl) fun value => (rest value).erases, fun machine => ?_⟩
  simp only [Bind.bind, Journaled.lift]
  cases part machine with
  | done value after => exact (rest value).leaves after
  | stopped reason after => exact .stops .nil
  | exhausted => exact .exhausts .nil

variable {journaled : Journaled Flow} {plain : Eval Flow}

private theorem withinScope (scope : ScopeRef)
    (inside : Confines body kind around journaled plain) :
    Confines body kind around (Journaled.withinScope scope journaled)
      (Eval.withinScope scope plain) := by
  refine ⟨fun machine => congrArg (Outcome.backTo machine.frame) (inside.erases _),
    fun machine => ?_⟩
  have leaves := inside.leaves { machine with frame := { machine.frame with scope } }
  simp only [Journaled.withinScope]
  generalize journaled { machine with frame := { machine.frame with scope } } = result at leaves
  cases leaves with
  | ends settled allowed => exact .ends settled allowed
  | jumps settled underWay inside located leaps =>
    exact .jumps settled underWay inside located leaps
  | stops settled => exact .stops settled
  | exhausts settled => exact .exhausts settled

private theorem followed {next : Flow → Journaled Flow} {next' : Flow → Eval Flow}
    (first : Confines body kind around journaled plain)
    (rest : Confines body kind around (next .normal) (next' .normal))
    (passes : ∀ flow, flow ≠ .normal → next flow = Pure.pure flow ∧ next' flow = Pure.pure flow) :
    Confines body kind around (journaled >>= next) (plain >>= next') := by
  constructor
  · refine .bind first.erases fun flow => ?_
    by_cases normal : flow = .normal
    · rw [normal]
      exact rest.erases
    · rw [(passes flow normal).1, (passes flow normal).2]
      exact fun _ => rfl
  intro machine
  simp only [Bind.bind]
  have leaves := first.leaves machine
  generalize journaled machine = result at leaves
  cases leaves with
  | @ends journal flow after settled allowed =>
    by_cases normal : flow = .normal
    · subst normal
      exact .after settled (rest.leaves after)
    · simp only [(passes flow normal).1]
      exact .after settled (.ends .nil allowed)
  | @jumps journal flow jump origin loop stmt after settled underWay inside located leaps =>
    have busy : flow ≠ .normal := by
      rintro rfl
      cases underWay
    simp only [(passes flow busy).1]
    rw [show (Pure.pure flow : Journaled Flow) after = ([], .done flow after) from rfl,
      List.append_nil]
    exact .jumps settled underWay inside located leaps
  | stops settled => exact .stops settled
  | exhausts settled => exact .exhausts settled

/-- A loop catches the jumps that its body leaves over, and goes on or ends. -/
private theorem caught {again : Journaled Flow} {again' : Eval Flow} {here : Address}
    (inside : Confines body kind (some here) journaled plain)
    (goesOn : Confines body kind around again again') :
    Confines body kind around (do
      match ← journaled with
      | .broken => do
        Journaled.note (.caught .out here)
        Pure.pure .normal
      | .returned value => Pure.pure (.returned value)
      | .normal => again
      | .continued => do
        Journaled.note (.caught .next here)
        again) (do
      match ← plain with
      | .broken => Pure.pure .normal
      | .returned value => Pure.pure (.returned value)
      | _ => again') := by
  constructor
  · refine .bind inside.erases fun flow => ?_
    cases flow with
    | broken | returned value => exact fun _ => rfl
    | normal | continued => exact fun machine => goesOn.erases machine
  intro machine
  simp only [Bind.bind]
  have leaves := inside.leaves machine
  generalize journaled machine = result at leaves
  cases leaves with
  | @ends journal flow after settled allowed =>
    cases flow with
    | normal => exact .after settled (goesOn.leaves after)
    | returned value => exact .after settled (.ends .nil allowed)
    | broken => exact absurd allowed (by cases kind <;> exact id)
    | continued => exact absurd allowed (by cases kind <;> exact id)
  | @jumps journal flow jump origin loop stmt after settled underWay inside located leaps =>
    obtain rfl := Option.some.inj inside
    have pair : Settled body (journal ++ [.jumped jump origin] ++ [.caught jump here]) := by
      rw [List.append_assoc]
      exact settled.append (.cons located leaps .nil)
    cases flow with
    | normal => cases underWay
    | returned value => cases underWay
    | broken =>
      obtain rfl := Option.some.inj underWay
      exact .ends pair (by cases kind <;> trivial)
    | continued =>
      obtain rfl := Option.some.inj underWay
      have leaves := Leaves.after pair (goesOn.leaves after)
      rwa [List.append_assoc] at leaves
  | stops settled => exact .stops settled
  | exhausts settled => exact .exhausts settled

end Confines

end Moves

theorem Binding.FunctionKind.allows_normal (kind : FunctionKind) : kind.Allows .normal := by
  cases kind <;> trivial

def EndsNormally (plain : Eval Flow) : Prop :=
  ∀ machine flow after, plain machine = .done flow after → flow = .normal

private theorem EndsNormally.pure : EndsNormally (Pure.pure .normal) := by
  intro machine flow after ends
  cases ends
  rfl

private theorem EndsNormally.bind {α : Type} {first : Eval α} {next : α → Eval Flow}
    (rest : ∀ value, EndsNormally (next value)) : EndsNormally (first >>= next) := by
  intro machine flow after ends
  obtain ⟨value, middle, -, last⟩ := exists_done_of_bind ends
  exact rest value middle flow after last

private theorem EndsNormally.confines {around : Option Address} (ends : EndsNormally plain) :
    Confines body kind around (Journaled.lift plain) plain := by
  refine .lift fun machine flow after done => ?_
  rw [ends machine flow after done]
  exact kind.allows_normal

private theorem allows_returned {rules : Rules} {steps : Nat} {value : Option Expr}
    (mayReturn : kind.MayReturn value) {machine after : Machine} {found : Value}
    (ends : evaluateOptional rules steps value machine = .done found after) :
    kind.Allows (.returned found) := by
  cases kind with
  | none => exact mayReturn
  | initializer =>
    obtain rfl := Option.isNone_iff_eq_none.mp mayReturn
    cases steps with
    | zero => cases ends
    | succ steps =>
      cases ends
      rfl
  | function => trivial
  | method => trivial

private theorem execute_beginsLoop (rules : Rules) (steps : Nat) (here : Address)
    (begins : stmt.BeginsLoop) :
    Journaled.execute rules steps here stmt = Journaled.lift (execute rules steps stmt) := by
  cases steps with
  | zero => rw [Journaled.execute, execute]
  | succ steps =>
    cases stmt with
    | var name typeHint initial => rfl
    | expression value => rfl
    | _ => cases begins

private theorem executeOptional_beginsLoop (rules : Rules) (steps : Nat) (here : Address)
    {initial : Option Stmt} (begins : ∀ stmt, initial = some stmt → stmt.BeginsLoop) :
    Journaled.executeOptional rules steps here initial =
      Journaled.lift (executeOptional rules steps initial) := by
  cases steps with
  | zero => rw [Journaled.executeOptional, executeOptional]
  | succ steps =>
    cases initial with
    | none => rfl
    | some stmt => exact execute_beginsLoop rules steps here (begins stmt rfl)

section Confined

variable {rules : Rules} {body : List Stmt} {kind : FunctionKind}

-- By recursion on the steps: a loop is confined because its body is, with the loop around it.
mutual

private theorem confines_execute (steps : Nat) {here : Address} {around : Option Address}
    {stmt : Stmt} (stands : StandsAt body here around stmt)
    (confined : StmtConfined kind around.isSome stmt) :
    Confines body kind around (Journaled.execute rules steps here stmt)
      (execute rules steps stmt) := by
  match steps with
  | 0 => exact .exhaust
  | steps + 1 =>
  cases stmt with
  | expression value | classDecl decl =>
    refine EndsNormally.confines ?_
    exact .bind fun _ => .pure
  | print keyword values | var name typeHint initial | function decl =>
    refine EndsNormally.confines ?_
    exact .bind fun _ => .bind fun _ => .pure
  | block stmts =>
    refine .lift_bind fun scope => .withinScope scope (confines_executeAll steps ?_ confined)
    intro offset stmt found
    rw [Nat.zero_add]
    exact stands.plainPart (Stmt.part?_block found)
  | branch condition whenTrue whenFalse =>
    refine .lift_bind fun value => .lift_bind fun holds => ?_
    split
    · exact confines_execute steps (stands.plainPart rfl) confined.1
    · refine confines_executeOptional steps ?_ confined.2
      rintro found rfl
      exact stands.plainPart rfl
  | loop condition inner => exact confines_repeatLoop steps (stands.loopBody rfl) confined
  | countedLoop initial condition increment inner =>
    exact .lift_bind fun scope => .withinScope scope
      (confines_runLoop steps confined.1 (stands.loopBody rfl) confined.2)
  | returnValue keyword value =>
    refine .lift fun machine flow after ends => ?_
    obtain ⟨found, middle, first, last⟩ := exists_done_of_bind ends
    cases last
    exact allows_returned confined first
  | breakLoop keyword | continueLoop keyword =>
    obtain ⟨loop, rfl⟩ := Option.isSome_iff_exists.mp confined
    exact ⟨fun _ => rfl, fun _ => .jumps .nil rfl rfl stands.located rfl⟩
termination_by structural steps

private theorem confines_executeAll (steps : Nat) {here : Address} {around : Option Address}
    {index : Nat} {stmts : List Stmt}
    (stand : ∀ (offset : Nat) stmt, stmts[offset]? = some stmt →
      StandsAt body (here ++ [index + offset]) around stmt)
    (confined : StmtsConfined kind around.isSome stmts) :
    Confines body kind around (Journaled.executeAll rules steps here index stmts)
      (executeAll rules steps stmts) := by
  match steps with
  | 0 => exact .exhaust
  | steps + 1 =>
  cases stmts with
  | nil => exact .pure kind.allows_normal
  | cons stmt rest =>
    refine .followed (confines_execute steps (stand 0 stmt rfl) confined.1)
      (confines_executeAll steps ?_ confined.2) ?_
    · intro offset stmt found
      rw [Nat.add_assoc, Nat.add_comm 1]
      exact stand (offset + 1) stmt found
    · intro flow busy
      cases flow with
      | normal => exact absurd rfl busy
      | _ => exact ⟨rfl, rfl⟩
termination_by structural steps

private theorem confines_executeOptional (steps : Nat) {here : Address} {around : Option Address}
    {stmt : Option Stmt} (stand : ∀ found, stmt = some found → StandsAt body here around found)
    (confined : OptionalConfined kind around.isSome stmt) :
    Confines body kind around (Journaled.executeOptional rules steps here stmt)
      (executeOptional rules steps stmt) := by
  match steps with
  | 0 => exact .exhaust
  | steps + 1 =>
  cases stmt with
  | none => exact .pure kind.allows_normal
  | some stmt => exact confines_execute steps (stand stmt rfl) confined
termination_by structural steps

private theorem confines_runLoop (steps : Nat) {here : Address} {around : Option Address}
    {initial : Option Stmt} {condition increment : Option Expr} {inner : Stmt}
    (begins : ∀ stmt, initial = some stmt → stmt.BeginsLoop)
    (stands : StandsAt body (here ++ [0]) (some here) inner)
    (confined : StmtConfined kind true inner) :
    Confines body kind around
      (Journaled.runLoop rules steps here initial condition increment inner)
      (runLoop rules steps initial condition increment inner) := by
  match steps with
  | 0 => exact .exhaust
  | steps + 1 =>
  rw [Journaled.runLoop, executeOptional_beginsLoop rules steps _ begins]
  exact .lift_bind fun _ => confines_repeatLoop steps stands confined
termination_by structural steps

private theorem confines_repeatLoop (steps : Nat) {here : Address} {around : Option Address}
    {condition increment : Option Expr} {inner : Stmt}
    (stands : StandsAt body (here ++ [0]) (some here) inner)
    (confined : StmtConfined kind true inner) :
    Confines body kind around (Journaled.repeatLoop rules steps here condition increment inner)
      (repeatLoop rules steps condition increment inner) := by
  match steps with
  | 0 => exact .exhaust
  | steps + 1 =>
  refine .lift_bind fun holds => ?_
  split
  · refine .caught (confines_execute steps stands confined) ?_
    exact .lift_bind fun _ => confines_repeatLoop steps stands confined
  · exact .pure kind.allows_normal
termination_by structural steps

end

end Confined

/-- An execution inside a body, with its journal: every jump is caught where the text says, and the
execution ends as the kind of body allows. -/
structure Contained (body : List Stmt) (kind : FunctionKind) (journaled : Journaled Flow)
    (plain : Eval Flow) : Prop where
  /-- The journal is one of this execution. -/
  journals : journaled.Erases plain
  settled : ∀ machine, Settled body (journaled machine).1
  allowed : ∀ machine flow after, plain machine = .done flow after → kind.Allows flow

def Binding.FunctionKind.Contains (kind : FunctionKind) (body : List Stmt) : Prop :=
  ∀ rules steps, Contained body kind (Journaled.executeAll rules steps [] 0 body)
    (executeAll rules steps body)

private theorem Confines.contained {journaled : Journaled Flow}
    (confines : Confines body kind none journaled plain) : Contained body kind journaled plain where
  journals := confines.erases
  settled machine := by
    have leaves := confines.leaves machine
    generalize journaled machine = result at leaves
    cases leaves with
    | ends settled allowed => exact settled
    | jumps settled underWay inside located leaps => cases inside
    | stops settled => exact settled
    | exhausts settled => exact settled
  allowed machine flow after ends := by
    have leaves := confines.leaves machine
    have same := (confines.erases machine).trans ends
    generalize journaled machine = result at leaves same
    cases leaves with
    | ends settled allowed =>
      cases same
      exact allowed
    | jumps settled underWay inside located leaps => cases inside
    | stops settled => cases same
    | exhausts settled => cases same

theorem StandsAt.inBody (found : body[index]? = some stmt) : StandsAt body [index] none stmt :=
  (StandsAt.whole body).plainPart (Stmt.part?_block found)

private theorem contains_of_confined (confined : StmtsConfined kind false body) :
    kind.Contains body := by
  intro rules steps
  refine (confines_executeAll steps ?_ confined : Confines body kind none _ _).contained
  intro offset stmt found
  rw [Nat.zero_add]
  exact .inBody found

private theorem confined_of_getElem? {inLoop : Bool} {stmts : List Stmt}
    (confined : StmtsConfined kind inLoop stmts) (found : stmts[index]? = some stmt) :
    StmtConfined kind inLoop stmt := by
  induction stmts generalizing index with
  | nil => cases found
  | cons first rest ih =>
    cases index with
    | zero =>
      obtain rfl := Option.some.inj found
      exact confined.1
    | succ index => exact ih confined.2 found

private theorem contained_of_confined (confined : StmtsConfined kind false body)
    (found : body[index]? = some stmt) (rules : Rules) (steps : Nat) :
    Contained body kind (Journaled.execute rules steps [index] stmt)
      (execute rules steps stmt) :=
  (confines_execute steps (.inBody found) (confined_of_getElem? confined found)).contained

private theorem Session.mannered_of_check {code : Code}
    (checked : session.check input = (.ok code, ready)) : Covered Site.Mannered code.sites := by
  obtain ⟨resolution, limit, resolved, -, tidy, -⟩ := resolves_of_check checked
  cases code with
  | program statements =>
    obtain ⟨ledger, -, -, -, -, seen⟩ := ledger_of_resolveProgram tidy.proper resolved
    exact seen.mannered
  | expression expr =>
    obtain ⟨ledger, -, -, -, seen⟩ := ledger_of_resolveLone tidy.proper resolved
    exact seen.mannered

private theorem Session.confined_of_check
    (checked : session.check input = (.ok (.program statements), ready)) :
    StmtsConfined .none false statements := by
  obtain ⟨resolution, limit, resolved, -, tidy, -⟩ := resolves_of_check checked
  obtain ⟨ledger, walked, -⟩ := ledger_of_resolveProgram tidy.proper resolved
  exact confined_stmts (strict_bookkeeper _) .top _ statements tidy.proper walked

namespace Chronicle

variable {chronicle : Chronicle}

theorem mannered_sitesWith (mannered : Covered Site.Mannered chronicle.sites) (input : Input) :
    Covered Site.Mannered (chronicle.sitesWith input) := by
  cases result : chronicle.session.check input with
  | mk found ready =>
    cases found with
    | error failure => simpa only [sitesWith, result] using mannered
    | ok code =>
      simp only [sitesWith, result]
      exact .both mannered (Session.mannered_of_check result)

/-- All functions of all accepted texts are confined. -/
theorem Reached.mannered (reached : chronicle.Reached) : Covered Site.Mannered chronicle.sites := by
  induction reached with
  | start settings clock sink => exact .nil
  | answered reached answer mannered => exact mannered_sitesWith mannered _
  | takeLines reached mannered => exact mannered

variable {ref : Nat}

theorem Reached.closure_contained (reached : chronicle.Reached) {closure : Closure}
    (stored : chronicle.session.machine.store.functions[ref]? = some closure) :
    ∃ kind : FunctionKind, kind.Contains closure.decl.body := by
  have sites := (reached.sound.coherent.noted_function stored).sites
  obtain ⟨⟨name, parameters, returns, body⟩, scope, isInitializer, owner⟩ := closure
  cases body with
  | nil => exact ⟨.none, contains_of_confined (by rw [StmtsConfined]; trivial)⟩
  | cons stmt rest =>
    -- The first statement of the body is a site inside the function.
    have mannered := reached.mannered _ (sites.append.1 _ (mem_stmtSites_self _ stmt))
    exact ⟨_, contains_of_confined
      (mannered _ _ (List.mem_append_right _ List.mem_cons_self))⟩

theorem Reached.method_contained (reached : chronicle.Reached) {found : ClassObject} {name : String}
    {method : Method} (stored : chronicle.session.machine.store.classes[ref]? = some found)
    (declared : found.methods.find? name = some method) :
    (methodKind name).Contains method.closure.decl.body := by
  have coherent := reached.sound.coherent
  obtain ⟨-, owner, ownerStored, decl, isMethod, rfl, -, same⟩ :=
    coherent.tables.methods ref found name method stored declared
  obtain ⟨note, -, fits⟩ := coherent.noted_class ownerStored
  obtain ⟨nesting, sites⟩ := fits.declared
  have mannered := reached.mannered _ (sites _ (mem_stmtSites_self nesting _))
  rw [← same]
  exact contains_of_confined
    (mannered _ _ (List.mem_append_left _ (List.mem_map.mpr ⟨decl, isMethod, rfl⟩)))

end Chronicle

/-- In whatever a session is asked, control transfers stay inside. A statement of an accepted
program ends normally; a function of an accepted text ends normally or returns, and the constructor
of a class returns nothing but nil; and the innermost loop around a jump catches it. All code that
runs stands in accepted texts, and the same holds of the functions and methods that were kept. -/
theorem transfers_stay_inside {chronicle : Chronicle} (reached : chronicle.Reached) (steps : Nat)
    (input : Input) :
    (∀ statements ready, chronicle.session.check input = (.ok (.program statements), ready) →
      ∀ (index : Nat) stmt, statements[index]? = some stmt → ∀ rules steps,
        Contained statements .none (Journaled.execute rules steps [index] stmt)
          (execute rules steps stmt)) ∧
    (∀ site ∈ chronicle.sitesWith input, ∀ kind decl, (kind, decl) ∈ site.functions →
      kind.Contains decl.body) ∧
    ((chronicle.ask steps input).2 = chronicle.session.respond steps input ∧
      ∀ moment ∈ (chronicle.ask steps input).1.moments,
        moment.site ∈ chronicle.sitesWith input) ∧
    (∀ (ref : Nat) closure, chronicle.session.machine.store.functions[ref]? = some closure →
      ∃ kind : FunctionKind, kind.Contains closure.decl.body) ∧
    (∀ (ref : Nat) found name method,
      chronicle.session.machine.store.classes[ref]? = some found →
      found.methods.find? name = some method →
      (methodKind name).Contains method.closure.decl.body) := by
  refine ⟨?_, ?_, ⟨Chronicle.ask_reply steps chronicle input, ?_⟩, ?_, ?_⟩
  · intro statements ready checked index stmt found rules steps
    exact contained_of_confined (Session.confined_of_check checked) found rules steps
  · intro site isSite kind decl member
    have mannered := Chronicle.mannered_sitesWith reached.mannered input site isSite
    exact contains_of_confined (mannered kind decl member)
  · intro moment isMoment
    exact (reached.sound.moments_sound steps input isMoment).site
  · intro ref closure stored
    exact reached.closure_contained stored
  · intro ref found name method stored declared
    exact reached.method_contained stored declared

def returningText : Input :=
  .program "class A { fn init() { return; } } var a = A();"

def leftLoops : Input :=
  .program "while (true) { for (;;) { break; } break; }"

def Session.accepted? (session : Session) (input : Input) : Option (List Stmt × Session) :=
  match session.check input with
  | (.ok (.program statements), ready) => some (statements, ready)
  | _ => none

private theorem Session.check_of_accepted?
    (accepts : session.accepted? input = some (statements, ready)) :
    session.check input = (.ok (.program statements), ready) := by
  unfold accepted? at accepts
  split at accepts
  · rename_i checked
    cases accepts
    exact checked
  · cases accepts

set_option maxRecDepth 100000 in
/-- In a session that keeps a constructor, each of two loops catches the jump of its own body. -/
theorem loops_catch_their_jumps :
    ∃ chronicle : Chronicle, chronicle.Reached ∧
      (∃ (found : ClassObject) (method : Method),
        chronicle.session.machine.store.classes[0]? = some found ∧
        found.methods.find? "init" = some method ∧ method.closure.decl.body.length = 1 ∧
        FunctionKind.initializer.Contains method.closure.decl.body) ∧
      ∃ statements ready stmt,
        chronicle.session.check leftLoops = (.ok (.program statements), ready) ∧
        statements[0]? = some stmt ∧
        Contained statements .none (Journaled.execute ready.rules 20 [0] stmt)
          (execute ready.rules 20 stmt) ∧
        (Journaled.execute ready.rules 20 [0] stmt ready.machine).1 =
          [.jumped .out [0, 0, 0, 0, 0], .caught .out [0, 0, 0],
            .jumped .out [0, 0, 1], .caught .out [0]] := by
  have computed : ((Session.start {} (fun _ => 0) .capturing).respond 40
      returningText).session?.bind (fun after => do
        let found ← after.machine.store.classes[0]?
        let method ← found.methods.find? "init"
        let accepted ← after.accepted? leftLoops
        let stmt ← accepted.1[0]?
        pure (method.closure.decl.body.length,
          (Journaled.execute accepted.2.rules 20 [0] stmt accepted.2.machine).1)) =
      some (1, [.jumped .out [0, 0, 0, 0, 0], .caught .out [0, 0, 0],
        .jumped .out [0, 0, 1], .caught .out [0]]) := by
    decide +kernel
  obtain ⟨after, answer, computed⟩ := Option.bind_eq_some_iff.mp computed
  obtain ⟨found, stored, computed⟩ := Option.bind_eq_some_iff.mp computed
  obtain ⟨method, declared, computed⟩ := Option.bind_eq_some_iff.mp computed
  obtain ⟨⟨statements, ready⟩, accepts, computed⟩ := Option.bind_eq_some_iff.mp computed
  obtain ⟨stmt, isFirst, computed⟩ := Option.bind_eq_some_iff.mp computed
  obtain ⟨single, journal⟩ := Prod.mk.inj (Option.some.inj computed)
  have checked := Session.check_of_accepted? accepts
  have reached := (Chronicle.Reached.start {} (fun _ => 0) .capturing).answered answer
  obtain ⟨contained, -, -, -, methods⟩ := transfers_stay_inside reached 20 leftLoops
  exact ⟨_, reached, ⟨found, method, stored, declared, single,
      methods 0 found "init" method stored declared⟩,
    statements, ready, stmt, checked, isFirst,
    contained statements ready checked 0 stmt isFirst ready.rules 20, journal⟩

end ClassScript
