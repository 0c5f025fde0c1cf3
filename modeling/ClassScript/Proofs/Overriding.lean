import ClassScript.Proofs.Heritage
import Mathlib.Data.List.Perm.Subperm

/-!
What a method that is marked as overriding has to override. The check goes wrong only where a
superclass name is recalled as another class than it is bound to.
-/

set_option autoImplicit false

namespace ClassScript.Binding

/-- Every superclass name on the way up is recalled as the class that it is bound to where it
stands. -/
def Lineage.Steady (lexicon : Lexicon) : Lineage → Prop
  | .heir _ clause _ parent =>
    lexicon.recalled? clause.name.name = some parent ∧ parent.Steady lexicon
  | _ => True

theorem Lexicon.recalled?_declareClass (lexicon : Lexicon) (decl : ClassDecl Expr Stmt) :
    (lexicon.declareClass decl).recalled? decl.name.name = some (lexicon.lineageOf decl) := by
  rw [declareClass]
  generalize lexicon.lineageOf decl = lineage
  obtain ⟨global, locals⟩ := lexicon
  cases locals with
  | nil => simp [declare, recalled?, Declarations.nearest?, Declarations.latestClass?]
  | cons scope outer => simp [declare, recalled?, Declarations.nearest?, Declarations.latest?]

namespace Lineage.Steady

variable {lexicon : Lexicon} {lineage : Lineage}

private theorem recalled_lower (steady : lineage.Steady lexicon) {name : String}
    (member : name ∈ lineage.clauses) :
    ∃ ancestor, lexicon.recalled? name = some ancestor ∧ ancestor.height < lineage.height := by
  induction lineage with
  | root decl alone => cases member
  | stray decl => cases member
  | heir decl clause inherits parent ih =>
    rcases List.mem_cons.mp member with rfl | above
    · exact ⟨parent, steady.1, Nat.lt_succ_self _⟩
    · obtain ⟨ancestor, recalled, lower⟩ := ih steady.2 above
      exact ⟨ancestor, recalled, Nat.lt_succ_of_lt lower⟩

private theorem nodup_clauses (steady : lineage.Steady lexicon) : lineage.clauses.Nodup := by
  induction lineage with
  | root decl alone => exact List.nodup_nil
  | stray decl => exact List.nodup_nil
  | heir decl clause inherits parent ih =>
    refine List.nodup_cons.mpr ⟨fun again => ?_, ih steady.2⟩
    obtain ⟨ancestor, recalled, lower⟩ := recalled_lower steady.2 again
    obtain rfl : parent = ancestor := Option.some.inj (steady.1.symm.trans recalled)
    exact Nat.lt_irrefl _ lower

/-- The names of ancestors are followed to all of them, given enough steps. -/
private theorem ancestry_eq (steady : lineage.Steady lexicon) {state : State}
    (mirrors : state.Mirrors lexicon) {ancestors : List (ClassDecl Expr Stmt)}
    (known : lineage.ancestors? = some ancestors) {steps : Nat} {seen : List String}
    (enough : lineage.clauses.length ≤ steps) (fresh : ∀ name ∈ lineage.clauses, name ∉ seen) :
    ancestry state steps seen lineage.outline.superclass = .known (ancestors.map outlineOf) := by
  induction lineage generalizing ancestors steps seen with
  | root decl alone =>
    obtain rfl : [] = ancestors := Option.some.inj known
    have none : (Lineage.root decl alone).outline.superclass = none := by
      simp [outline, outlineOf, Lineage.decl, alone]
    rw [none]
    cases steps <;> rfl
  | stray decl => simp [ancestors?] at known
  | heir decl clause inherits parent ih =>
    obtain ⟨above, known', rfl⟩ := Option.map_eq_some_iff.mp known
    have name : (Lineage.heir decl clause inherits parent).outline.superclass =
        some clause.name.name := by
      simp [outline, outlineOf, Lineage.decl, inherits]
    obtain ⟨steps, rfl⟩ : ∃ fewer, steps = fewer + 1 :=
      Nat.exists_eq_add_one_of_ne_zero fun none => by simp [none, clauses] at enough
    have unseen : clause.name.name ∉ seen := fresh _ List.mem_cons_self
    have recalled : state.outline? clause.name.name = some parent.outline := by
      rw [mirrors.outline?_eq, steady.1, Option.map_some]
    have rest : ancestry state steps (clause.name.name :: seen) parent.outline.superclass =
        .known (above.map outlineOf) := by
      refine ih steady.2 known' (Nat.le_of_succ_le_succ enough) ?_
      intro other member
      refine List.not_mem_cons_of_ne_of_not_mem ?_ (fresh other (List.mem_cons_of_mem _ member))
      rintro rfl
      exact (List.nodup_cons.mp (nodup_clauses steady)).1 member
    rw [name, ancestry, if_neg unseen, recalled]
    simp only [rest]
    rfl

end Lineage.Steady

private theorem mem_keys_of_find? {α : Type} {dict : Dict α} {key : String} {value : α}
    (found : dict.find? key = some value) : key ∈ dict.keys := by
  unfold Dict.find? at found
  unfold Dict.keys
  generalize dict.entries = entries at found ⊢
  induction entries with
  | nil => simp [Dict.lookup] at found
  | cons head rest ih =>
    rw [Dict.lookup] at found
    split at found
    · rename_i same
      exact same ▸ List.mem_cons_self
    · exact List.mem_cons_of_mem _ (ih found)

def State.classNames (state : State) : List String :=
  state.globals.classes.keys ++ state.scopes.flatMap fun scope => scope.classes.keys

theorem State.length_classNames (state : State) : state.classNames.length = state.classCount := by
  simp [classNames, classCount, Dict.keys, Dict.size, List.length_flatMap, List.sum_eq_foldr]

variable {state : State} {ancestors : List Outline} {methods : List (MethodDecl Stmt)}

theorem State.mem_classNames {name : String} {outline : Outline}
    (found : state.outline? name = some outline) : name ∈ state.classNames := by
  unfold State.outline? at found
  unfold State.classNames
  generalize state.scopes = scopes at found ⊢
  induction scopes with
  | nil => exact List.mem_append_left _ (mem_keys_of_find? found)
  | cons scope outer ih =>
    rw [State.outlineIn] at found
    cases here : scope.classes.find? name with
    | some other =>
      have member := mem_keys_of_find? here
      simp [member]
    | none =>
      simp only [here] at found
      split at found
      · cases found
      · have member := ih found
        simp only [List.mem_append, List.flatMap_cons] at member ⊢
        exact member.imp_right .inr

theorem State.length_le_classCount {names : List String} (distinct : names.Nodup)
    (remembered : ∀ name ∈ names, ∃ outline, state.outline? name = some outline) :
    names.length ≤ state.classCount := by
  rw [← state.length_classNames]
  refine (distinct.subperm fun name member => ?_).length_le
  obtain ⟨outline, found⟩ := remembered name member
  exact State.mem_classNames found

def Declares (decl : ClassDecl Expr Stmt) (name : String) : Prop :=
  ∃ method ∈ decl.methods, method.function.name.name = name

private theorem mem_methods_outlineOf {decl : ClassDecl Expr Stmt} {name : String} :
    name ∈ (outlineOf decl).methods ↔ Declares decl name := by
  simp only [outlineOf, List.mem_map, Declares]

private theorem firstUnfounded_eq_none_iff :
    firstUnfounded ancestors methods = none ↔ ∀ method ∈ methods, method.dispatch = .override →
      ∃ ancestor ∈ ancestors, method.function.name.name ∈ ancestor.methods := by
  induction methods with
  | nil => simp [firstUnfounded]
  | cons method rest ih =>
    rw [firstUnfounded, List.forall_mem_cons, ← ih]
    by_cases marked : method.dispatch = .override
    · by_cases founded :
        ∃ ancestor ∈ ancestors, method.function.name.name ∈ ancestor.methods
      · have listed : ancestors.any (fun outline =>
            decide (method.function.name.name ∈ outline.methods)) = true := by
          simpa using founded
        simp [marked, founded, listed]
      · have listed : ancestors.any (fun outline =>
            decide (method.function.name.name ∈ outline.methods)) = false := by
          simpa using founded
        simp [marked, founded, listed]
    · simp [marked]

private theorem firstUnfounded_eq_some {name : Identifier}
    (first : firstUnfounded ancestors methods = some name) :
    ∃ before method after, methods = before ++ method :: after ∧
      firstUnfounded ancestors before = none ∧ method.dispatch = .override ∧
      method.function.name = name ∧ ∀ ancestor ∈ ancestors, name.name ∉ ancestor.methods := by
  induction methods with
  | nil => simp [firstUnfounded] at first
  | cons method rest ih =>
    rw [firstUnfounded] at first
    split at first
    · rename_i unfounded
      obtain rfl : method.function.name = name := Option.some.inj first
      exact ⟨[], method, rest, rfl, rfl, by simpa using unfounded⟩
    · rename_i founded
      obtain ⟨before, other, after, rfl, none, facts⟩ := ih first
      refine ⟨method :: before, other, after, rfl, ?_, facts⟩
      rw [firstUnfounded, if_neg founded, none]

section Check

variable {visit : Visit} {ancestors : List (ClassDecl Expr Stmt)}

/-- The class has these ancestors, and all superclass names on the way up are still recalled as
those once the class is declared. -/
structure Visit.Steady (visit : Visit) (ancestors : List (ClassDecl Expr Stmt)) : Prop where
  known : (visit.lexicon.lineageOf visit.decl).ancestors? = some ancestors
  steady : (visit.lexicon.lineageOf visit.decl).Steady (visit.lexicon.declareClass visit.decl)

private theorem Visit.Steady.checkInheritance_eq (steady : visit.Steady ancestors)
    (mirrors : visit.state.Mirrors visit.lexicon) {ready : State}
    (introduced : Introduced visit.place visit.decl visit.state ready) :
    checkInheritance visit.decl ready =
      match firstUnfounded (ancestors.map outlineOf) visit.decl.methods with
      | some method =>
        refuse method.position (.nothingToOverride method.name visit.decl.name.name)
      | none => .ok ready := by
  have readyMirrors := mirrors.introduced introduced
  have enough : (visit.lexicon.lineageOf visit.decl).clauses.length ≤ ready.classCount + 1 := by
    refine Nat.le_succ_of_le (State.length_le_classCount steady.steady.nodup_clauses ?_)
    intro name member
    obtain ⟨ancestor, recalled, -⟩ := steady.steady.recalled_lower member
    exact ⟨ancestor.outline, by rw [readyMirrors.outline?_eq, recalled, Option.map_some]⟩
  -- The class itself has more superclasses than any of its ancestors, so its name is another.
  have fresh : ∀ name ∈ (visit.lexicon.lineageOf visit.decl).clauses,
      name ∉ [visit.decl.name.name] := by
    intro name member own
    obtain rfl := List.mem_singleton.mp own
    obtain ⟨ancestor, recalled, lower⟩ := steady.steady.recalled_lower member
    rw [Lexicon.recalled?_declareClass] at recalled
    obtain rfl := Option.some.inj recalled
    exact Nat.lt_irrefl _ lower
  have followed := steady.steady.ancestry_eq readyMirrors steady.known enough fresh
  have clause : (visit.lexicon.lineageOf visit.decl).outline.superclass =
      (visit.decl.superclass.map fun parent => parent.name).map Identifier.name := by
    simp [Lineage.outline, outlineOf, Function.comp_def]
  rw [clause] at followed
  unfold checkInheritance
  cases found : firstUnfounded (ancestors.map outlineOf) visit.decl.methods <;>
    simp only [followed, found]

end Check

/-- The override check is exact where superclass names stay what they are. The survey of a program,
after any texts that have been accepted, is the walk that binds its references. Take a class that
the walk comes to, all of whose superclass names on the way up are bound to classes, and are
recalled as those from where the class is declared. Nothing being wrong with the class otherwise,
it is accepted exactly if each of its methods that is marked as overriding is declared by one of its
ancestors, and refused for the first of them that none of its ancestors declares. -/
theorem override_check_is_exact {globals : Globals} {declarations : Declarations}
    (history : History globals declarations) (program : List Stmt) {visit : Visit}
    (reached : visit ∈ surveyVisits (surveyProgram globals declarations program))
    {ancestors : List (ClassDecl Expr Stmt)} (steady : visit.Steady ancestors) :
    surveyResult (surveyProgram globals declarations program) = resolveProgram globals program ∧
    ((∃ after, declareClass visit.place visit.decl visit.state = .ok after) ↔
      (∃ ready, Introduced visit.place visit.decl visit.state ready) ∧
      ∀ method ∈ visit.decl.methods, method.dispatch = .override →
        ∃ ancestor ∈ ancestors, Declares ancestor method.function.name.name) ∧
    ∀ ready fault, Introduced visit.place visit.decl visit.state ready →
      declareClass visit.place visit.decl visit.state = .error fault →
      ∃ before method rest, visit.decl.methods = before ++ method :: rest ∧
        (∀ earlier ∈ before, earlier.dispatch = .override →
          ∃ ancestor ∈ ancestors, Declares ancestor earlier.function.name.name) ∧
        method.dispatch = .override ∧
        (∀ ancestor ∈ ancestors, ¬Declares ancestor method.function.name.name) ∧
        fault = { value := .nothingToOverride method.function.name.name visit.decl.name.name,
                  position := method.function.name.position } := by
  have mirrors := faithful_surveyVisits history.mirrors program visit reached
  have founded (methods : List (MethodDecl Stmt)) :
      firstUnfounded (ancestors.map outlineOf) methods = none ↔
        ∀ method ∈ methods, method.dispatch = .override →
          ∃ ancestor ∈ ancestors, Declares ancestor method.function.name.name := by
    simp only [firstUnfounded_eq_none_iff, List.mem_map, exists_exists_and_eq_and,
      mem_methods_outlineOf]
  refine ⟨surveyResult_eq history.mirrors program, ⟨?_, ?_⟩, ?_⟩
  · rintro ⟨after, accepts⟩
    have introduced := introduced_of_declareClass accepts
    refine ⟨⟨after, introduced⟩, (founded _).mp ?_⟩
    rw [introduced.declareClass_eq, steady.checkInheritance_eq mirrors introduced] at accepts
    cases first : firstUnfounded (ancestors.map outlineOf) visit.decl.methods with
    | none => rfl
    | some method => simp [first, refuse] at accepts
  · rintro ⟨⟨ready, introduced⟩, overrides⟩
    refine ⟨ready, ?_⟩
    rw [introduced.declareClass_eq, steady.checkInheritance_eq mirrors introduced,
      (founded _).mpr overrides]
  · intro ready fault introduced refused
    rw [introduced.declareClass_eq, steady.checkInheritance_eq mirrors introduced] at refused
    cases first : firstUnfounded (ancestors.map outlineOf) visit.decl.methods with
    | none => simp [first] at refused
    | some name =>
      simp only [first, refuse, Except.error.injEq] at refused
      obtain ⟨before, method, rest, split, none, marked, rfl, absent⟩ :=
        firstUnfounded_eq_some first
      refine ⟨before, method, rest, split, (founded before).mp none, marked, ?_, refused.symm⟩
      intro ancestor isAncestor declares
      exact absent _ (List.mem_map_of_mem isAncestor) (mem_methods_outlineOf.mpr declares)

def classWith (name : String) (superclass : Option SuperclassRef) (dispatch : Dispatch)
    (method : String) : Stmt :=
  .classDecl
    { name := { name, position := .start }
      superclass
      fields := []
      methods := [{
        visibility := .everyone
        dispatch
        function := { name := { name := method, position := .start }, parameters := [],
                      returns := none, body := [] } }] }

def nestedProgram : List Stmt :=
  [classWith "A" none .plain "m",
    .block [classWith "B" (some ⟨0, { name := "A", position := .start }⟩) .plain "n",
      classWith "C" (some ⟨1, { name := "B", position := .start }⟩) .override "m"]]

private theorem nestedProgram_visits :
    0 < (surveyVisits (surveyProgram .initial builtinDeclarations nestedProgram)).length := by
  decide +kernel

def heirVisit : Visit :=
  (surveyVisits (surveyProgram .initial builtinDeclarations nestedProgram)).get
    ⟨0, nestedProgram_visits⟩

def heirAncestors : List (ClassDecl Expr Stmt) :=
  (heirVisit.lexicon.lineageOf heirVisit.decl).ancestors?.getD []

/-- The heir in the block has two ancestors, and the check of its method is exact. -/
theorem nested_heir_is_checked_exactly :
    heirVisit.Steady heirAncestors ∧ heirAncestors.length = 2 ∧
    ((∃ after, declareClass heirVisit.place heirVisit.decl heirVisit.state = .ok after) ↔
      (∃ ready, Introduced heirVisit.place heirVisit.decl heirVisit.state ready) ∧
      ∀ method ∈ heirVisit.decl.methods, method.dispatch = .override →
        ∃ ancestor ∈ heirAncestors, Declares ancestor method.function.name.name) := by
  have steady : heirVisit.Steady heirAncestors := ⟨rfl, rfl, rfl, trivial⟩
  exact ⟨steady, rfl,
    (override_check_is_exact .start nestedProgram (List.get_mem _ _) steady).2.1⟩

def redeclaredProgram : List Stmt :=
  [classWith "A" none .plain "m",
    classWith "B" (some ⟨0, { name := "A", position := .start }⟩) .plain "n",
    classWith "A" none .plain "k",
    classWith "C" (some ⟨1, { name := "B", position := .start }⟩) .override "m"]

private theorem redeclaredProgram_visits :
    0 < (surveyVisits (surveyProgram .initial builtinDeclarations redeclaredProgram)).length := by
  decide +kernel

def missedVisit : Visit :=
  (surveyVisits (surveyProgram .initial builtinDeclarations redeclaredProgram)).get
    ⟨0, redeclaredProgram_visits⟩

/-- The method of the last class is declared by an ancestor, and yet the class is refused for it:
the name of that ancestor is recalled as the class that has been declared since. -/
theorem redeclared_ancestor_is_missed :
    ∃ visit ∈ surveyVisits (surveyProgram .initial builtinDeclarations redeclaredProgram),
      ∃ ancestors, (visit.lexicon.lineageOf visit.decl).ancestors? = some ancestors ∧
        (∃ ancestor ∈ ancestors, Declares ancestor "m") ∧
        (∃ ready, Introduced visit.place visit.decl visit.state ready) ∧
        declareClass visit.place visit.decl visit.state =
          .error { value := .nothingToOverride "m" "C", position := .start } := by
  refine ⟨missedVisit, List.get_mem _ _, _, rfl, ?_, ?_, rfl⟩
  · exact ⟨_, List.mem_cons_of_mem _ List.mem_cons_self, _, List.mem_cons_self, rfl⟩
  · exact ⟨_, rfl, _, _, rfl, rfl, rfl⟩

end ClassScript.Binding
