import ClassScript.Proofs.Chronicle
import ClassScript.Proofs.Granting

/-!
Globals while a program runs: outside of functions, a variable that is bound to no scope of the text
has a value at every moment.
-/

set_option autoImplicit false

namespace ClassScript.Run

open Binding

/-- The variable that the moment is about, if it stands outside of functions and is bound to no
scope of the text, is a global. -/
def Moment.Supplied (rules : Rules) (moment : Moment) : Prop :=
  moment.site.Granted (Bound moment.machine.store) rules.depths

/-- A site of an accepted text that gets along with the names. -/
def Served (accepted : Site → Prop) (names : String → Prop) (depths : Depths) (site : Site) :
    Prop :=
  accepted site ∧ site.Granted names depths

private theorem moments_of_defers {stmt : Stmt} (defers : stmt.Defers) (rules : Rules)
    (steps pending : Nat) (spot : Spot) (notes : Notes) (machine : Machine) :
    notes.Adds (fun moment => moment.site = ⟨spot.nesting, .stmt stmt⟩ ∧ moment.machine = machine)
      (Traced.execute rules steps pending spot stmt notes machine).1 := by
  cases steps with
  | zero =>
    rw [Traced.execute]
    exact .of_eq rfl
  | succ steps =>
    cases stmt with
    | function decl =>
      have brief : Traced.Brief False (do
          let value ← Traced.makeFunction (spot.past (.function decl)) decl
          Traced.lift (Eval.define decl.name.name value)
          pure Flow.normal) :=
        .bind (brief_makeFunction _ decl) fun _ => .bind (brief_define _ _) fun _ => .pure _
      rw [Traced.execute]
      exact .trans (.cons ⟨rfl, rfl⟩) (.of_eq (brief _ machine).1)
    | classDecl decl =>
      have brief : Traced.Brief False (do
          Traced.declareClass rules spot decl
          pure Flow.normal) :=
        .bind (brief_declareClass rules spot decl) fun _ => .pure _
      rw [Traced.execute]
      exact .trans (.trans (.cons ⟨rfl, rfl⟩) (.cons ⟨rfl, rfl⟩)) (.of_eq (brief _ machine).1)
    | _ => exact defers.elim

theorem Traced.notes_bind_pure {α β : Type} (body : Traced α) (last : α → β) (notes : Notes)
    (machine : Machine) :
    ((body >>= fun value => pure (last value)) notes machine).1 = (body notes machine).1 := by
  simp only [bind]
  generalize body notes machine = ending
  obtain ⟨notes', outcome⟩ := ending
  cases outcome <;> rfl

section Programs

variable {accepted : Site → Prop} {rules : Rules} {notes : Notes} {machine : Machine}

variable {names more : String → Prop} {terms : Terms} {α : Type} {stmt : Stmt} {code : Code}

private theorem served_of_covered {sites : List Site} (covered : Covered accepted sites)
    (granted : Covered (Site.Granted names rules.depths) sites) :
    Covered (Served accepted names rules.depths) sites :=
  fun site member => ⟨covered site member, granted site member⟩

private theorem sound_of_served (sound : rules.Suits accepted) :
    rules.Suits (Served accepted names rules.depths) :=
  fun site served => sound site served.1

theorem Poised.more_names {spot : Spot}
    (poised : Poised (Served accepted names rules.depths) terms notes machine spot)
    (larger : ∀ name, names name → more name) :
    Poised (Served accepted more rules.depths) terms notes machine spot := by
  refine ⟨⟨poised.coherent.mono ?_, poised.tended⟩, poised.standing⟩
  exact fun site served => ⟨served.1, served.2.mono larger fun _ noted => noted⟩

private theorem supplies_of_ends {post : α → Notes → Machine → Prop} {result : Notes × Outcome α}
    (ends : Ends (Served accepted names rules.depths) terms notes machine post result)
    (bound : ∀ name, names name → Bound machine.store name) :
    notes.Adds (Moment.Supplied rules) result.1 := by
  obtain ⟨added, moments, logged, -⟩ := ends
  refine ⟨added, moments, ?_⟩
  intro moment member
  have granted := (logged.live moment member).sound.site.2
  refine granted.mono (fun name known => ?_) fun _ noted => noted
  have bound : Bound (notes.scene machine).store name := bound name known
  exact bound.changed (logged.since moment member)

variable {declared : List String}

section

variable (sound : rules.Suits accepted)
  (granted : StmtGranted (Bound machine.store) rules.depths stmt)
  (covered : Covered accepted (stmtSites .top stmt))
  (poised : Poised (Served accepted (Bound machine.store) rules.depths) (.declaring declared)
    notes machine .top) (allows : Allows (.declaring declared) machine.frame.scope stmt)

include sound granted covered poised allows

private theorem supplies_execute (steps : Nat) :
    notes.Adds (Moment.Supplied rules)
      (Traced.execute rules steps 0 .top stmt notes machine).1 := by
  by_cases defers : stmt.Defers
  · refine (moments_of_defers defers rules steps 0 .top notes machine).mono ?_
    rintro moment ⟨site, same⟩
    rw [Moment.Supplied, site, same]
    exact granted.itself
  · have fares := Steady.execute (sound_of_served sound) steps 0 (Terms.declaring_fair _) poised
      (served_of_covered covered (granted.running defers)) allows
    exact supplies_of_ends fares fun _ known => known

private theorem poised_after {steps : Nat} {notes' : Notes} {flow : Flow} {after : Machine}
    (ends : Traced.execute rules steps 0 .top stmt notes machine = (notes', .done flow after)) :
    (∀ name, Bound machine.store name ∨ declaredName? stmt = some name → Bound after.store name) ∧
      Poised (Served accepted (Bound after.store) rules.depths) (.declaring declared) notes' after
        .top := by
  have larger : Poised (Served accepted (fun name => Bound machine.store name ∨
      declaredName? stmt = some name) rules.depths) (.declaring declared) notes machine .top :=
    poised.more_names fun _ => .inl
  have fares := Steady.execute (sound_of_served sound) steps 0 (Terms.declaring_fair _) larger
    (served_of_covered covered granted.all) allows
  obtain ⟨passed, -, -, isDeclared⟩ := fares.ended ends
  have atTop : machine.frame.scope = Store.globalScope := poised.standing.scope
  rw [atTop] at isDeclared
  have bound : ∀ name, Bound machine.store name ∨ declaredName? stmt = some name →
      Bound after.store name := by
    rintro name (old | own)
    · have old : Bound (notes.scene machine).store name := old
      exact old.changed passed.changed
    · exact isDeclared name own
  exact ⟨bound, (passed.poised larger).more_names bound⟩

end

/-- A program that gets along with the globals and those that it declares in turn has what it needs
at every moment, however far it comes. -/
private theorem supplies_interpret (sound : rules.Suits accepted) (steps : Nat)
    {program : List Stmt} (granted : ProgramGranted (Bound machine.store) rules.depths program)
    (covered : Covered accepted (stmtsSites .top program))
    (listed : ∀ name ∈ program.filterMap declaredName?, name ∈ declared)
    (poised : Poised (Served accepted (Bound machine.store) rules.depths) (.declaring declared)
      notes machine .top) :
    notes.Adds (Moment.Supplied rules)
      (Traced.interpret rules steps program notes machine).1 := by
  induction program generalizing notes machine with
  | nil => exact .of_eq rfl
  | cons stmt rest ih =>
    rw [stmtsSites, past_top] at covered
    obtain ⟨coveredFirst, coveredRest⟩ := covered.append
    obtain ⟨grantedFirst, grantedRest⟩ := granted
    rw [filterMap_declaredName?_cons] at listed
    obtain ⟨listedFirst, listedRest⟩ := List.forall_mem_append.mp listed
    have allows : Allows (.declaring declared) machine.frame.scope stmt :=
      fun name declares _ => listedFirst name (by simp [declares])
    have supplied := supplies_execute sound grantedFirst coveredFirst poised allows steps
    rw [Traced.interpret]
    simp only [bind]
    cases result : Traced.execute rules steps 0 .top stmt notes machine with
    | mk notes' outcome =>
      rw [result] at supplied
      cases outcome with
      | stopped reason after => exact supplied
      | exhausted => exact supplied
      | done flow after =>
        obtain ⟨bound, poised'⟩ := poised_after sound grantedFirst coveredFirst poised allows result
        have granted' : ProgramGranted (Bound after.store) rules.depths rest :=
          grantedRest.mono bound fun _ noted => noted
        exact supplied.trans (ih granted' coveredRest listedRest poised')

def CodeGranted (names : String → Prop) (depths : Depths) : Code → Prop
  | .program statements => ProgramGranted names depths statements
  | .expression expr => Covered (Site.Granted names depths) (exprSites .top expr)

theorem CodeGranted.mono {depths later : Depths} (granted : CodeGranted names depths code)
    (larger : ∀ name, names name → more name)
    (noted : ∀ id, later.find? id = none → depths.find? id = none) :
    CodeGranted more later code := by
  cases code with
  | program statements => exact ProgramGranted.mono granted larger noted
  | expression expr => exact fun site member => (granted site member).mono larger noted

theorem supplies_noted (sound : rules.Suits accepted) (steps : Nat)
    (granted : CodeGranted (Bound machine.store) rules.depths code)
    (covered : Covered accepted code.sites)
    (poised : Poised (Served accepted (Bound machine.store) rules.depths)
      (.declaring code.declared) notes machine .top) :
    notes.Adds (Moment.Supplied rules) (code.noted rules steps notes machine).1 := by
  cases code with
  | program statements =>
    have supplied := supplies_interpret sound steps granted covered (fun _ member => member) poised
    rwa [Code.noted, Traced.notes_bind_pure]
  | expression expr =>
    have fares := Steady.evaluate (sound_of_served sound) steps 0 (Terms.declaring_fair _) poised
      (served_of_covered covered granted)
    rw [Code.noted, Traced.notes_bind_pure]
    exact supplies_of_ends fares fun _ known => known

end Programs

end ClassScript.Run
