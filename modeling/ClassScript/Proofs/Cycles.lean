import ClassScript.Proofs.Overriding
import Mathlib.Logic.Relation

/-!
What the check for inheritance cycles finds. It looks names up again from the place of the class it
is made for, so a local class under the name of one of its ancestors is taken for that ancestor.
-/

set_option autoImplicit false

namespace ClassScript.Binding

namespace Lineage

/-- The classes above a class, nearest first, as far as superclass names are bound to classes. -/
def above : Lineage → List Lineage
  | root _ _ | stray _ => []
  | heir _ _ _ parent => parent :: parent.above

theorem height_lt_of_mem_above {lineage ancestor : Lineage} (member : ancestor ∈ lineage.above) :
    ancestor.height < lineage.height := by
  induction lineage with
  | root decl alone => cases member
  | stray decl => cases member
  | heir decl clause inherits parent ih =>
    rcases List.mem_cons.mp member with rfl | further
    · exact Nat.lt_succ_self _
    · exact Nat.lt_succ_of_lt (ih further)

theorem not_mem_above (lineage : Lineage) : lineage ∉ lineage.above :=
  fun member => Nat.lt_irrefl _ (height_lt_of_mem_above member)

/-- Every superclass name on the way up is recalled as what it is bound to where it stands. -/
def Recalled (lexicon : Lexicon) : Lineage → Prop
  | root _ _ => True
  | heir _ clause _ parent =>
    lexicon.recalled? clause.name.name = some parent ∧ parent.Recalled lexicon
  | stray decl =>
    ∀ clause, decl.superclass = some clause → lexicon.recalled? clause.name.name = none

end Lineage

namespace Lexicon

open Relation

variable {lexicon : Lexicon} {name : String}

def Leads (lexicon : Lexicon) (name next : String) : Prop :=
  ∃ lineage clause, lexicon.recalled? name = some lineage ∧
    lineage.decl.superclass = some clause ∧ clause.name.name = next

/-- Followed from a name, superclass names come to one that they lead back to. -/
def ComesBack (lexicon : Lexicon) (name : String) : Prop :=
  ∃ again, ReflTransGen lexicon.Leads name again ∧ TransGen lexicon.Leads again again

/-- Followed from a name, superclass names come to an end. -/
def ComesToEnd (lexicon : Lexicon) (name : String) : Prop :=
  Acc (fun next name => lexicon.Leads name next) name

private theorem Leads.recalled_isSome {next : String} (leads : lexicon.Leads name next) :
    ∃ lineage, lexicon.recalled? name = some lineage := by
  obtain ⟨lineage, clause, recalled, -⟩ := leads
  exact ⟨lineage, recalled⟩

private theorem ComesBack.of_leads {next : String} (leads : lexicon.Leads name next)
    (back : lexicon.ComesBack next) : lexicon.ComesBack name := by
  obtain ⟨again, way, round⟩ := back
  exact ⟨again, .head leads way, round⟩

private theorem ComesBack.next (back : lexicon.ComesBack name) :
    ∃ next, lexicon.Leads name next ∧ lexicon.ComesBack next := by
  obtain ⟨again, way, round⟩ := back
  rcases ReflTransGen.cases_head way with rfl | ⟨next, leads, rest⟩
  · obtain ⟨next, leads, rest⟩ := TransGen.head'_iff.mp round
    exact ⟨next, leads, name, rest, round⟩
  · exact ⟨next, leads, again, rest, round⟩

private theorem ComesToEnd.not_comesBack (ends : lexicon.ComesToEnd name) :
    ¬lexicon.ComesBack name := by
  induction ends with
  | intro name _ ih =>
    intro back
    obtain ⟨next, leads, backNext⟩ := back.next
    exact ih next leads backNext

theorem comesToEnd_of_unknown (unknown : lexicon.recalled? name = none) :
    lexicon.ComesToEnd name := by
  refine .intro name fun next leads => ?_
  obtain ⟨lineage, recalled⟩ := leads.recalled_isSome
  simp [unknown] at recalled

theorem comesToEnd_of_lineage {lineage : Lineage} (recalled : lexicon.recalled? name = some lineage)
    (ends : ∀ clause, lineage.decl.superclass = some clause → lexicon.ComesToEnd clause.name.name) :
    lexicon.ComesToEnd name := by
  refine .intro name ?_
  rintro next ⟨other, clause, recalled', inherits, rfl⟩
  obtain rfl : lineage = other := Option.some.inj (recalled.symm.trans recalled')
  exact ends clause inherits

theorem comesToEnd_of_recalled {lineage : Lineage} (upheld : lineage.Recalled lexicon)
    (recalled : lexicon.recalled? name = some lineage) : lexicon.ComesToEnd name := by
  induction lineage generalizing name with
  | root decl alone =>
    refine comesToEnd_of_lineage recalled fun clause inherits => ?_
    simp [Lineage.decl, alone] at inherits
  | heir decl clause inherits parent ih =>
    refine comesToEnd_of_lineage recalled fun other inherits' => ?_
    obtain rfl : clause = other := Option.some.inj (inherits.symm.trans inherits')
    exact ih upheld.2 upheld.1
  | stray decl =>
    exact comesToEnd_of_lineage recalled fun clause inherits =>
      comesToEnd_of_unknown (upheld clause inherits)

end Lexicon

section Ancestry

open Relation

variable {state : State} {lexicon : Lexicon} {steps : Nat} {seen : List String} {parent : String}

theorem State.Mirrors.leads_iff (mirrors : state.Mirrors lexicon) {name next : String} :
    lexicon.Leads name next ↔
      ∃ outline, state.outline? name = some outline ∧ outline.superclass = some next := by
  rw [mirrors.outline?_eq]
  constructor
  · rintro ⟨lineage, clause, recalled, inherits, rfl⟩
    exact ⟨lineage.outline, by rw [recalled, Option.map_some],
      by simp [Lineage.outline, outlineOf, inherits]⟩
  · rintro ⟨outline, found, above⟩
    obtain ⟨lineage, recalled, rfl⟩ := Option.map_eq_some_iff.mp found
    obtain ⟨clause, inherits, same⟩ := Option.map_eq_some_iff.mp above
    exact ⟨lineage, clause, recalled, inherits, same⟩

theorem Ancestry.cons_eq_cycle {outline : Outline} {rest : Ancestry}
    (cycle : rest.cons outline = .cycle) : rest = .cycle := by
  cases rest with
  | cycle => rfl
  | known ancestors => cases cycle
  | unknown => cases cycle

private theorem comesBack_of_ancestry (mirrors : state.Mirrors lexicon) (distinct : seen.Nodup)
    (trail : (parent :: seen).Pairwise fun later earlier => TransGen lexicon.Leads earlier later)
    (enough : state.classCount < steps + seen.length)
    (cycle : ancestry state steps seen (some parent) = .cycle) : lexicon.ComesBack parent := by
  obtain ⟨latest, earlier⟩ := List.pairwise_cons.mp trail
  induction steps generalizing seen parent with
  | zero =>
    have few : seen.length ≤ state.classCount := by
      refine State.length_le_classCount distinct fun name member => ?_
      obtain ⟨next, leads, -⟩ := TransGen.head'_iff.mp (latest name member)
      obtain ⟨outline, found, -⟩ := mirrors.leads_iff.mp leads
      exact ⟨outline, found⟩
    omega
  | succ steps ih =>
    rw [ancestry] at cycle
    split at cycle
    · rename_i again
      exact ⟨parent, .refl, latest parent again⟩
    · rename_i fresh
      cases found : state.outline? parent with
      | none => simp [found] at cycle
      | some outline =>
        simp only [found] at cycle
        have cycle' := Ancestry.cons_eq_cycle cycle
        cases above : outline.superclass with
        | none =>
          rw [above] at cycle'
          cases steps <;> cases cycle'
        | some next =>
          rw [above] at cycle'
          have leads : lexicon.Leads parent next := mirrors.leads_iff.mpr ⟨outline, found, above⟩
          have latest' : ∀ name ∈ parent :: seen, TransGen lexicon.Leads name next := by
            intro name member
            rcases List.mem_cons.mp member with rfl | further
            · exact .single leads
            · exact (latest name further).tail leads
          refine .of_leads leads (ih (List.nodup_cons.mpr ⟨fresh, distinct⟩)
            (List.pairwise_cons.mpr ⟨latest', trail⟩) ?_ cycle' latest' trail)
          rw [List.length_cons]
          omega

private theorem comesToEnd_of_ancestry (mirrors : state.Mirrors lexicon)
    (ends : ancestry state steps seen (some parent) ≠ .cycle) : lexicon.ComesToEnd parent := by
  induction steps generalizing seen parent with
  | zero => exact absurd rfl ends
  | succ steps ih =>
    refine .intro parent fun next leads => ?_
    obtain ⟨outline, found, above⟩ := mirrors.leads_iff.mp leads
    have rest : ancestry state steps (parent :: seen) (some next) ≠ .cycle := by
      intro cycle
      refine ends ?_
      rw [ancestry, found]
      split
      · rfl
      · simp only [above, cycle, Ancestry.cons]
    exact ih rest

private theorem checkInheritance_reports_iff {decl : ClassDecl Expr Stmt} :
    (∃ name position, checkInheritance decl state = .error ⟨.inheritanceCycle name, position⟩) ↔
      ancestry state (state.classCount + 1) [decl.name.name]
        (decl.superclass.map fun clause => clause.name.name) = .cycle := by
  have clause : (decl.superclass.map fun parent => parent.name).map Identifier.name =
      decl.superclass.map fun clause => clause.name.name := by
    rw [Option.map_map]
    rfl
  simp only [checkInheritance, clause]
  cases ancestry state (state.classCount + 1) [decl.name.name]
      (decl.superclass.map fun clause => clause.name.name) with
  | cycle => exact iff_of_true ⟨_, _, rfl⟩ rfl
  | unknown => simp
  | known ancestors =>
    cases first : firstUnfounded ancestors decl.methods <;> simp [first, refuse]

private theorem ancestry_eq_cycle_iff {decl : ClassDecl Expr Stmt} {lineage : Lineage}
    (mirrors : state.Mirrors lexicon) (own : lexicon.recalled? decl.name.name = some lineage)
    (same : lineage.decl = decl) :
    ancestry state (state.classCount + 1) [decl.name.name]
      (decl.superclass.map fun clause => clause.name.name) = .cycle ↔
      lexicon.ComesBack decl.name.name := by
  subst same
  cases inherits : lineage.decl.superclass with
  | none =>
    have ends : lexicon.ComesToEnd lineage.decl.name.name :=
      Lexicon.comesToEnd_of_lineage own fun clause inherits' => by simp [inherits] at inherits'
    exact iff_of_false Ancestry.noConfusion ends.not_comesBack
  | some clause =>
    have leads : lexicon.Leads lineage.decl.name.name clause.name.name :=
      ⟨lineage, clause, own, inherits, rfl⟩
    constructor
    · intro cycle
      have trail : [clause.name.name, lineage.decl.name.name].Pairwise
          fun later earlier => TransGen lexicon.Leads earlier later := by
        simpa using TransGen.single leads
      have distinct : [lineage.decl.name.name].Nodup := by simp
      exact .of_leads leads (comesBack_of_ancestry mirrors distinct trail
        (Nat.lt_succ_of_lt (Nat.lt_succ_self _)) cycle)
    · intro back
      by_contra ends
      refine Lexicon.ComesToEnd.not_comesBack ?_ back
      refine Lexicon.comesToEnd_of_lineage own fun other inherits' => ?_
      obtain rfl : clause = other := Option.some.inj (inherits.symm.trans inherits')
      exact comesToEnd_of_ancestry mirrors ends

end Ancestry

def Visit.ReportsCycle (visit : Visit) : Prop :=
  ∃ name position, declareClass visit.place visit.decl visit.state =
    .error ⟨.inheritanceCycle name, position⟩

/-- Whatever else can be wrong with a class comes first. -/
private theorem Visit.ReportsCycle.introduced {visit : Visit} (reports : visit.ReportsCycle) :
    ∃ ready, Introduced visit.place visit.decl visit.state ready := by
  obtain ⟨name, position, refused⟩ := reports
  rw [declareClass_eq_settleClass] at refused
  cases proper : ownFault? visit.decl with
  | some fault =>
    simp only [proper, Except.error.injEq] at refused
    subst refused
    simp only [ownFault?] at proper
    split at proper
    · cases proper
    · split at proper
      · cases proper
      · split at proper
        · cases proper
        · split at proper <;> cases proper
  | none =>
    simp only [proper, settleClass] at refused
    cases binds : bindParent visit.place visit.decl.superclass visit.state with
    | error fault =>
      simp only [binds, bind, Except.bind, Except.error.injEq] at refused
      subst refused
      cases inherits : visit.decl.superclass with
      | none => simp [inherits, bindParent] at binds
      | some clause =>
        simp only [inherits, bindParent, bindName, refuse] at binds
        split at binds
        · cases binds
        · split at binds <;> cases binds
    | ok bound =>
      simp only [binds, bind, Except.bind] at refused
      cases declares : bound.declare visit.decl.name with
      | error fault =>
        simp only [declares, Except.error.injEq] at refused
        subst refused
        unfold State.declare at declares
        split at declares
        · cases declares
        · split at declares <;> cases declares
      | ok declared => exact ⟨_, proper, bound, declared, binds, declares, rfl⟩

theorem Visit.reportsCycle_iff {visit : Visit} (mirrors : visit.state.Mirrors visit.lexicon) :
    visit.ReportsCycle ↔
      (∃ ready, Introduced visit.place visit.decl visit.state ready) ∧
      (visit.lexicon.declareClass visit.decl).ComesBack visit.decl.name.name := by
  have exact_of (ready : State) (introduced : Introduced visit.place visit.decl visit.state ready) :
      visit.ReportsCycle ↔
        (visit.lexicon.declareClass visit.decl).ComesBack visit.decl.name.name := by
    rw [ReportsCycle, introduced.declareClass_eq, checkInheritance_reports_iff]
    exact ancestry_eq_cycle_iff (mirrors.introduced introduced)
      (visit.lexicon.recalled?_declareClass visit.decl) (visit.lexicon.decl_lineageOf visit.decl)
  constructor
  · intro reports
    obtain ⟨ready, introduced⟩ := reports.introduced
    exact ⟨⟨ready, introduced⟩, (exact_of ready introduced).mp reports⟩
  · rintro ⟨⟨ready, introduced⟩, back⟩
    exact (exact_of ready introduced).mpr back

structure Survey.Clear (survey : Survey) (state : State) : Prop where
  same : survey.state = state
  accepted : ∀ visit ∈ survey.visits,
    ∃ after, declareClass visit.place visit.decl visit.state = .ok after

/-- The binding of references ends with the fault of the class that has been refused, if one has. -/
structure Refusal.Explains (refusal : Refusal) (ending : Except (Located Fault) State) : Prop where
  ends : ending = .error refusal.fault
  faults : ∀ visit ∈ refusal.visits, ∀ fault,
    declareClass visit.place visit.decl visit.state = .error fault → fault = refusal.fault

private theorem Survey.Clear.explains {survey : Survey} {state : State} (clear : survey.Clear state)
    (fault : Located Fault) :
    Refusal.Explains { fault, visits := survey.visits } (.error fault) := by
  refine ⟨rfl, fun visit member other refused => ?_⟩
  obtain ⟨after, accepted⟩ := clear.accepted visit member
  rw [accepted] at refused
  cases refused

private theorem Survey.Clear.ends_carry {survey : Survey} {state : State}
    (clear : survey.Clear state) (lexicon : Lexicon) (moved : Except (Located Fault) State) :
    Ends Survey.Clear Refusal.Explains (survey.carry lexicon moved) moved := by
  cases moved with
  | error fault => exact .error (clear.explains fault)
  | ok after => exact .ok ⟨rfl, clear.accepted⟩

private theorem keep_clear (hoisted : Dict Unit) :
    (surveyor hoisted).Keep id (fun _ _ => True) (fun _ => Survey.Clear) Refusal.Explains
      (resolver hoisted) where
  final := by
    intro refusal ending explains next
    exact ⟨by rw [explains.ends]; rfl, explains.faults⟩
  loop _ := trivial
  block _ := trivial
  methodsFit _ _ := trivial
  body _ _ _ _ := trivial
  nested clear := by rw [← clear.same]; rfl
  refuse clear position fault := .error (clear.explains _)
  read _ clear id name := by
    rw [← clear.same]
    exact clear.ends_carry _ _
  bind _ clear id name := by
    rw [← clear.same]
    exact clear.ends_carry _ _
  word clear id word := by
    rw [← clear.same]
    exact clear.ends_carry _ ((resolver hoisted).word id word _)
  enter clear names := ⟨by rw [← clear.same]; rfl, clear.accepted⟩
  leave clear := ⟨by rw [← clear.same]; rfl, clear.accepted⟩
  declare _ clear name := by
    rw [← clear.same]
    exact clear.ends_carry _ _
  define clear name := ⟨by rw [← clear.same]; rfl, clear.accepted⟩
  declareClass := by
    intro _ place survey state _ clear decl
    rw [← clear.same, renumberClass_id]
    change Ends _ _ (Survey.carry _ _ (Binding.declareClass (place.within hoisted) decl _))
      (Binding.declareClass (place.within hoisted) decl survey.state)
    cases moved : Binding.declareClass (place.within hoisted) decl survey.state with
    | error fault =>
      refine .error ⟨rfl, fun visit member other refused => ?_⟩
      rcases List.mem_cons.mp member with rfl | earlier
      · exact Except.error.inj (refused.symm.trans moved)
      · exact (clear.explains fault).faults visit earlier other refused
    | ok after =>
      refine .ok ⟨rfl, fun visit member => ?_⟩
      rcases List.mem_cons.mp member with rfl | earlier
      · exact ⟨after, moved⟩
      · exact clear.accepted visit earlier

private theorem resolveProgram_of_refused {globals : Globals} {declarations : Declarations}
    {program : List Stmt} {visit : Visit}
    (reached : visit ∈ surveyVisits (surveyProgram globals declarations program))
    {fault : Located Fault}
    (refused : declareClass visit.place visit.decl visit.state = .error fault) :
    resolveProgram globals program = .error fault := by
  have clear : Survey.Clear ⟨.start globals, { global := declarations, locals := [] }, []⟩
      (.start globals) := ⟨rfl, fun visit member => by cases member⟩
  have ends : Ends Survey.Clear Refusal.Explains (surveyProgram globals declarations program)
      (resolveStmts (.top (hoistedNames program)) program (.start globals)) := by
    have walks := (keep_clear (hoistedNames program)).sameStmts (.top (hoistedNames program))
      program clear
    rwa [walkStmts_resolver] at walks
  unfold resolveProgram
  generalize resolveStmts (.top (hoistedNames program)) program (.start globals) = ending at ends ⊢
  generalize surveyProgram globals declarations program = survey at ends reached
  cases ends with
  | ok clear =>
    obtain ⟨after, accepted⟩ := clear.accepted visit reached
    rw [accepted] at refused
    cases refused
  | error explains =>
    rw [explains.ends, explains.faults visit reached fault refused]
    rfl

/-- The check for inheritance cycles is a matter of names. The survey of a program, after any texts
that have been accepted, is the walk that binds its references, and a class that it refuses is what
the program is refused for. Take a class that the walk comes to. The declarations above it, each
superclass name bound where it stands, never lead back to the class. Nothing being wrong with the
class otherwise, it is refused for a cycle exactly if superclass names, all of them looked up where
the class is declared, come to one that they lead back to. That is never so if those on the way up
are still recalled as what they are bound to. -/
theorem cycles_are_reported_by_name {globals : Globals} {declarations : Declarations}
    (history : History globals declarations) (program : List Stmt) {visit : Visit}
    (reached : visit ∈ surveyVisits (surveyProgram globals declarations program)) :
    surveyResult (surveyProgram globals declarations program) = resolveProgram globals program ∧
    (∀ fault, declareClass visit.place visit.decl visit.state = .error fault →
      resolveProgram globals program = .error fault) ∧
    visit.lexicon.lineageOf visit.decl ∉ (visit.lexicon.lineageOf visit.decl).above ∧
    (visit.ReportsCycle ↔
      (∃ ready, Introduced visit.place visit.decl visit.state ready) ∧
      (visit.lexicon.declareClass visit.decl).ComesBack visit.decl.name.name) ∧
    ((visit.lexicon.lineageOf visit.decl).Recalled (visit.lexicon.declareClass visit.decl) →
      ¬visit.ReportsCycle) := by
  have mirrors := faithful_surveyVisits history.mirrors program visit reached
  refine ⟨surveyResult_eq history.mirrors program,
    fun fault refused => resolveProgram_of_refused reached refused, Lineage.not_mem_above _,
    Visit.reportsCycle_iff mirrors, fun upheld reports => ?_⟩
  have ends := Lexicon.comesToEnd_of_recalled upheld
    (visit.lexicon.recalled?_declareClass visit.decl)
  exact ends.not_comesBack ((Visit.reportsCycle_iff mirrors).mp reports).2

def shadowingProgram : List Stmt :=
  [classWith "A" none .plain "m",
    classWith "B" (some ⟨0, { name := "A", position := .start }⟩) .plain "n",
    .block [classWith "A" (some ⟨1, { name := "B", position := .start }⟩) .plain "k"]]

private theorem shadowingProgram_visits :
    0 < (surveyVisits (surveyProgram .initial builtinDeclarations shadowingProgram)).length := by
  decide +kernel

def shadowingVisit : Visit :=
  (surveyVisits (surveyProgram .initial builtinDeclarations shadowingProgram)).get
    ⟨0, shadowingProgram_visits⟩

private theorem shadowingVisit_reports : shadowingVisit.ReportsCycle :=
  ⟨"A", .start, rfl⟩

/-- The class in the block is refused for names that come back, and the program for the class. -/
theorem shadowing_class_is_reported_by_name :
    shadowingVisit.ReportsCycle ∧
    (shadowingVisit.lexicon.declareClass shadowingVisit.decl).ComesBack "A" ∧
    resolveProgram .initial shadowingProgram =
      .error { value := .inheritanceCycle "A", position := .start } := by
  have reached : shadowingVisit ∈
      surveyVisits (surveyProgram .initial builtinDeclarations shadowingProgram) :=
    List.get_mem _ _
  obtain ⟨-, refused, -, reported, -⟩ :=
    cycles_are_reported_by_name .start shadowingProgram reached
  exact ⟨shadowingVisit_reports, (reported.mp shadowingVisit_reports).2, refused _ rfl⟩

/-- The class in the block has two classes above it, neither of which is the class itself, and yet
it is refused for an inheritance cycle: the name of the upper one is taken for its own. -/
theorem shadowed_ancestor_is_reported_as_cycle :
    ∃ visit ∈ surveyVisits (surveyProgram .initial builtinDeclarations shadowingProgram),
      visit.lexicon.locals ≠ [] ∧
      (∃ clause, visit.decl.superclass = some clause ∧ clause.name.name ≠ visit.decl.name.name) ∧
      (visit.lexicon.lineageOf visit.decl).above.length = 2 ∧
      visit.lexicon.lineageOf visit.decl ∉ (visit.lexicon.lineageOf visit.decl).above ∧
      visit.ReportsCycle := by
  refine ⟨shadowingVisit, List.get_mem _ _, ?_, ?_, rfl, Lineage.not_mem_above _,
    shadowingVisit_reports⟩
  · exact List.cons_ne_nil _ _
  · exact ⟨_, rfl, by decide⟩

end ClassScript.Binding
