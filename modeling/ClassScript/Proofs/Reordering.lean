import ClassScript.Proofs.SplitPrograms
import Mathlib.Logic.Equiv.Basic

/-!
Function declarations in another order. Main statement: if some functions with different names begin
a program, the order of them does not matter.
-/

set_option autoImplicit false

namespace ClassScript

open Run

theorem Dict.ext_contains {first second : Dict Unit}
    (same : ∀ name, first.contains name ↔ second.contains name) : first = second := by
  refine Dict.ext_find? fun name => ?_
  have both : (first.find? name).isSome = (second.find? name).isSome :=
    Bool.eq_iff_iff.mpr (same name)
  cases held : first.find? name <;> cases held' : second.find? name <;>
    simp only [held, held', Option.isSome_none, Option.isSome_some, reduceCtorEq] at both ⊢

namespace Binding

def Globals.declaring (globals : Globals) (name : String) : Globals :=
  { globals with names := globals.names.insert name () }

def Globals.declaringAll (globals : Globals) (functions : List (FunctionDecl Stmt)) : Globals :=
  functions.foldl (fun globals decl => globals.declaring decl.name.name) globals

/-- Inside functions, both globals make the same names visible. -/
structure Globals.Seem (hoisted : Dict Unit) (globals globals' : Globals) : Prop where
  classes : globals'.classes = globals.classes
  names : ∀ name, globals'.contains name ∨ hoisted.contains name ↔
    globals.contains name ∨ hoisted.contains name

section Functions

variable {hoisted : Dict Unit} {globals globals' : Globals}

theorem Globals.contains_declaring (globals : Globals) (name other : String) :
    (globals.declaring name).contains other ↔ other = name ∨ globals.contains other := by
  simp [contains, declaring, Dict.contains_insert]

private theorem Globals.Seem.declaring (seem : globals.Seem hoisted globals') {name : String}
    (early : hoisted.contains name) : globals.Seem hoisted (globals'.declaring name) := by
  refine ⟨seem.classes, fun other => ?_⟩
  rw [contains_declaring, ← seem.names other]
  constructor
  · rintro ((rfl | known) | known)
    · exact .inr early
    · exact .inl known
    · exact .inr known
  · rintro (known | known)
    · exact .inl (.inr known)
    · exact .inr known

def View.inside (seem : globals.Seem hoisted globals') : View True hoisted hoisted where
  fits level place := 0 < level ∧ place.function ≠ .none
  known first second := first = globals ∧ second = globals'
  loop here := here
  block here := ⟨Nat.succ_pos _, here.2⟩
  methods here _ := here
  body _ _ _ isBody := ⟨Nat.succ_pos _, isBody⟩
  classes := by
    rintro _ _ ⟨rfl, rfl⟩
    exact seem.classes
  even here := absurd here.1 (Nat.lt_irrefl 0)
  sees := by
    rintro level place ⟨-, inside⟩ _ _ ⟨rfl, rfl⟩ name visible
    simpa [Visible, inside] using (seem.names name).mpr (by simpa [Visible, inside] using visible)
  exact := by
    rintro - level place ⟨-, inside⟩ _ _ ⟨rfl, rfl⟩ name visible
    simpa [Visible, inside] using (seem.names name).mp (by simpa [Visible, inside] using visible)

private theorem resolveFunction_alike (seem : globals.Seem hoisted globals')
    (decl : FunctionDecl Stmt) (depths : Depths) :
    (View.inside seem).EndsAlike id depths 0
      (resolveFunction (.top hoisted) .function decl ⟨globals, [], .empty⟩)
      (resolveFunction (.top hoisted) .function decl ⟨globals', [], depths⟩) := by
  have alike : State.Alike (View.inside seem) id depths 0 ⟨globals, [], .empty⟩
      ⟨globals', [], depths⟩ :=
    ⟨⟨rfl, rfl⟩, rfl, rfl, fun id => by simp⟩
  have ends := (keep_alike (View.inside seem) Function.injective_id depths).function (.top hoisted)
    (by decide : FunctionKind.function ≠ .none) decl alike
  rwa [renumber_id_function, walkFunction_resolver] at ends

def Accepted (hoisted : Dict Unit) (globals : Globals) (decl : FunctionDecl Stmt) : Prop :=
  ∃ after, resolveFunction (.top hoisted) .function decl ⟨globals, [], .empty⟩ = .ok after

variable {decl : FunctionDecl Stmt} {after : State} {depths : Depths}

private theorem resolveFunction_of_accepted (seem : globals.Seem hoisted globals')
    (accepted : Accepted hoisted globals decl) (depths : Depths) :
    ∃ later, resolveFunction (.top hoisted) .function decl ⟨globals', [], depths⟩ =
      .ok ⟨globals', [], later⟩ := by
  obtain ⟨after, walked⟩ := accepted
  have ends := resolveFunction_alike seem decl depths
  rw [walked] at ends
  generalize resolveFunction (.top hoisted) .function decl ⟨globals', [], depths⟩ = ending at ends ⊢
  cases ends with
  | @ok _ after' alike =>
    obtain ⟨same, scopes, later⟩ := after'
    obtain rfl : same = globals' := alike.globals.2
    obtain rfl : scopes = [] := alike.scopes.trans (List.length_eq_zero_iff.mp alike.height)
    exact ⟨later, rfl⟩

private theorem accepted_of_resolveFunction (seem : globals.Seem hoisted globals')
    (walked : resolveFunction (.top hoisted) .function decl ⟨globals', [], depths⟩ = .ok after) :
    Accepted hoisted globals decl := by
  have ends := resolveFunction_alike seem decl depths
  rw [walked] at ends
  unfold Accepted
  generalize resolveFunction (.top hoisted) .function decl ⟨globals, [], .empty⟩ = ending at ends ⊢
  cases ends with
  | ok alike => exact ⟨_, rfl⟩
  | error refused => cases refused trivial

private theorem resolveStmt_function (decl : FunctionDecl Stmt) (globals : Globals)
    (depths : Depths) : resolveStmt (.top hoisted) (.function decl) ⟨globals, [], depths⟩ =
      resolveFunction (.top hoisted) .function decl
        ⟨globals.declaring decl.name.name, [], depths⟩ := by
  rfl

variable {functions : List (FunctionDecl Stmt)}

private theorem resolveStmts_of_accepted (seem : globals.Seem hoisted globals')
    (early : ∀ decl ∈ functions, hoisted.contains decl.name.name)
    (accepted : ∀ decl ∈ functions, Accepted hoisted globals decl) (depths : Depths) :
    ∃ later, resolveStmts (.top hoisted) (functions.map .function) ⟨globals', [], depths⟩ =
      .ok ⟨globals'.declaringAll functions, [], later⟩ := by
  induction functions generalizing globals' depths with
  | nil =>
    exact ⟨depths, rfl⟩
  | cons decl rest ih =>
    have seem := seem.declaring (early decl List.mem_cons_self)
    obtain ⟨middle, walked⟩ :=
      resolveFunction_of_accepted seem (accepted decl List.mem_cons_self) depths
    rw [List.map_cons, resolveStmts, resolveStmt_function, walked]
    exact ih seem (fun other member => early other (List.mem_cons_of_mem _ member))
      (fun other member => accepted other (List.mem_cons_of_mem _ member)) middle

private theorem accepted_of_resolveStmts (seem : globals.Seem hoisted globals')
    (early : ∀ decl ∈ functions, hoisted.contains decl.name.name)
    (walked : resolveStmts (.top hoisted) (functions.map .function) ⟨globals', [], depths⟩ =
      .ok after) : ∀ decl ∈ functions, Accepted hoisted globals decl := by
  induction functions generalizing globals' depths with
  | nil => simp
  | cons decl rest ih =>
    have seem := seem.declaring (early decl List.mem_cons_self)
    rw [List.map_cons, resolveStmts, resolveStmt_function] at walked
    cases first : resolveFunction (.top hoisted) .function decl
        ⟨globals'.declaring decl.name.name, [], depths⟩ with
    | error fault =>
      rw [first] at walked
      cases walked
    | ok middle =>
      have accepted := accepted_of_resolveFunction seem first
      obtain ⟨later, same⟩ := resolveFunction_of_accepted seem accepted depths
      rw [same] at walked
      intro other member
      rcases List.mem_cons.mp member with rfl | member
      · exact accepted
      · exact ih seem (fun other member => early other (List.mem_cons_of_mem _ member)) walked other
          member

end Functions

variable {globals : Globals} {program : List Stmt}

private theorem resolveStmts_depths {hoisted : Dict Unit} {depths : Depths} {after : State}
    (walked : resolveStmts (.top hoisted) program ⟨globals, [], depths⟩ = .ok after)
    (other : Depths) :
    ∃ after', resolveStmts (.top hoisted) program ⟨globals, [], other⟩ = .ok after' ∧
      after'.globals = after.globals := by
  have ends (depths : Depths) : (View.plain hoisted).EndsAlike id depths 0
      (resolveStmts (.top hoisted) program ⟨globals, [], .empty⟩)
      (resolveStmts (.top hoisted) program ⟨globals, [], depths⟩) := by
    have here : (View.plain hoisted).fits 0 (.top hoisted) := trivial
    have alike : State.Alike (View.plain hoisted) id depths 0 ⟨globals, [], .empty⟩
        ⟨globals, [], depths⟩ :=
      ⟨rfl, rfl, rfl, fun id => by simp⟩
    have ends := (keep_alike _ Function.injective_id depths).stmts here program alike
    rwa [renumber_id_stmts, walkStmts_resolver] at ends
  have first := ends depths
  have second := ends other
  rw [walked] at first
  generalize resolveStmts (.top hoisted) program ⟨globals, [], .empty⟩ = plain at first second
  generalize resolveStmts (.top hoisted) program ⟨globals, [], other⟩ = ending at second ⊢
  cases first with
  | error refused => cases refused trivial
  | ok alike =>
    cases second with
    | ok alike' => exact ⟨_, rfl, Eq.trans alike'.globals (Eq.symm alike.globals)⟩

section Programs

variable {functions functions' : List (FunctionDecl Stmt)}

theorem Globals.contains_declaringAll (globals : Globals) (functions : List (FunctionDecl Stmt))
    (name : String) :
    (globals.declaringAll functions).contains name ↔
      globals.contains name ∨ ∃ decl ∈ functions, decl.name.name = name := by
  induction functions generalizing globals with
  | nil => simp [declaringAll]
  | cons decl rest ih =>
    refine (ih (globals.declaring decl.name.name)).trans ?_
    rw [contains_declaring]
    simp only [List.mem_cons, exists_eq_or_imp]
    tauto

theorem Globals.classes_declaringAll (globals : Globals) (functions : List (FunctionDecl Stmt)) :
    (globals.declaringAll functions).classes = globals.classes := by
  induction functions generalizing globals with
  | nil => rfl
  | cons decl rest ih => exact ih (globals.declaring decl.name.name)

theorem Globals.declaringAll_of_perm (globals : Globals) (permuted : functions.Perm functions') :
    globals.declaringAll functions' = globals.declaringAll functions := by
  have names :
      (globals.declaringAll functions').names = (globals.declaringAll functions).names := by
    refine Dict.ext_contains fun name => ?_
    refine (globals.contains_declaringAll functions' name).trans ?_
    refine Iff.trans ?_ (globals.contains_declaringAll functions name).symm
    simp only [permuted.mem_iff]
  have classes : (globals.declaringAll functions').classes =
      (globals.declaringAll functions).classes := by
    rw [classes_declaringAll, classes_declaringAll]
  exact congrArg₂ Globals.mk names classes

private theorem hoistedNames_of_perm {program program' : List Stmt}
    (permuted : program.Perm program') : hoistedNames program' = hoistedNames program := by
  refine Dict.ext_contains fun name => ?_
  rw [contains_hoistedNames, contains_hoistedNames]
  exact (permuted.filterMap declaredName?).mem_iff.symm

/-- If a program that begins with functions is accepted, it is accepted with the functions in any
order, and declares the same globals. -/
private theorem resolveProgram_of_perm {globals : Globals} {rest : List Stmt} {found : Resolution}
    (permuted : functions.Perm functions')
    (accepts : resolveProgram globals (functions.map .function ++ rest) = .ok found) :
    ∃ found', resolveProgram globals (functions'.map .function ++ rest) = .ok found' ∧
      found'.globals = found.globals := by
  obtain ⟨last, walked, rfl⟩ := resolveProgram_ok accepts
  have programs := (permuted.map Stmt.function).append_right rest
  generalize isHoisted : hoistedNames (functions.map .function ++ rest) = hoisted at walked
  have early : ∀ decl ∈ functions, hoisted.contains decl.name.name := by
    intro decl member
    rw [← isHoisted, contains_hoistedNames]
    refine List.mem_filterMap.mpr ⟨.function decl, ?_, rfl⟩
    exact List.mem_append_left _ (List.mem_map_of_mem member)
  have early' : ∀ decl ∈ functions', hoisted.contains decl.name.name :=
    fun decl member => early decl (permuted.mem_iff.mpr member)
  have seem : globals.Seem hoisted globals := ⟨rfl, fun _ => Iff.rfl⟩
  rw [resolveStmts_append] at walked
  cases first : resolveStmts (.top hoisted) (functions.map .function) (.start globals) with
  | error fault =>
    rw [first] at walked
    cases walked
  | ok middle =>
    have accepted := accepted_of_resolveStmts seem early first
    obtain ⟨depths, walks⟩ := resolveStmts_of_accepted seem early accepted .empty
    obtain ⟨depths', walks'⟩ := resolveStmts_of_accepted seem early'
      (fun decl member => accepted decl (permuted.mem_iff.mpr member)) .empty
    have same : middle = ⟨globals.declaringAll functions, [], depths⟩ :=
      Except.ok.inj (first.symm.trans walks)
    rw [first, same] at walked
    obtain ⟨last', walked', sameGlobals⟩ := resolveStmts_depths walked depths'
    refine ⟨{ depths := last'.depths, globals := last'.globals }, ?_, sameGlobals⟩
    have walks' : resolveStmts (.top hoisted) (functions'.map .function) (.start globals) = _ :=
      walks'
    rw [resolveProgram, hoistedNames_of_perm programs, isHoisted, resolveStmts_append, walks',
      globals.declaringAll_of_perm permuted]
    change (resolveStmts (.top hoisted) rest _ >>= _) = _
    rw [walked']
    rfl

end Programs

private theorem find?_resolveProgram {first limit : Nat} {found : Resolution}
    (tidy : Tidy first limit (stmtsSites .top program))
    (accepts : resolveProgram globals program = .ok found) (id : RefId) (depth : Nat) :
    found.depths.find? id = some depth ↔
      ∃ site ∈ stmtsSites .top program, site.use? = some (id, some depth) := by
  constructor
  · intro noted
    obtain ⟨ledger, -, kept, rfl, -, seen⟩ := ledger_of_resolveProgram tidy.proper accepts
    have entered := seen.entered.entries.mem_iff.mp (kept.origin id depth noted)
    simpa [Ledger.start] using entered
  · rintro ⟨site, member, used⟩
    exact ((sound_of_resolveProgram tidy accepts).1 site member).recorded id (some depth) used

end Binding

variable {program : List Stmt} {labels : Relabeling} {machine : Machine}

private theorem mem_stmtsSites_top {site : Site} :
    site ∈ stmtsSites .top program ↔ ∃ stmt ∈ program, site ∈ stmtSites .top stmt := by
  induction program with
  | nil => simp [stmtsSites]
  | cons stmt rest ih =>
    rw [stmtsSites, past_top, List.mem_append, ih]
    simp

theorem Tidy.of_perm {first limit : Nat} {program' : List Stmt}
    (tidy : Tidy first limit (stmtsSites .top program)) (permuted : program.Perm program') :
    Tidy first limit (stmtsSites .top program') := by
  have back (site : Site) (member : site ∈ stmtsSites .top program') :
      site ∈ stmtsSites .top program := by
    obtain ⟨stmt, isStmt, member⟩ := mem_stmtsSites_top.mp member
    exact mem_stmtsSites_top.mpr ⟨stmt, permuted.mem_iff.mpr isStmt, member⟩
  exact ⟨fun site member => tidy.proper site (back site member),
    fun site member => tidy.range site (back site member),
    fun site member other member' => tidy.alike site (back site member) other (back other member')⟩

namespace Run

def Machine.closure (machine : Machine) (decl : FunctionDecl Stmt) : Closure where
  decl
  scope := machine.frame.scope
  isInitializer := false
  owner := machine.frame.classRef

def Machine.declaring (machine : Machine) (decl : FunctionDecl Stmt) : Machine :=
  { machine with
    store := (machine.store.addFunction (machine.closure decl)).2.define machine.frame.scope
      decl.name.name (.function machine.store.functions.size) }

theorem AllKnown.declaring {machine : Machine} (known : AllKnown machine.store)
    (decl : FunctionDecl Stmt) : AllKnown (machine.declaring decl).store := by
  have added : AllKnown (machine.store.addFunction (machine.closure decl)).2 := fun value holds =>
    (known value (holds_of_same holds rfl rfl rfl rfl)).grow (grows_addFunction #[] _ _)
  refine added.of_new ?_ rfl rfl fun value holds => holds_define holds
  simp [Known, Store.addFunction]

end Run

def Relabeling.swapping (size : Nat) : Relabeling where
  ids := id
  functions := Equiv.swap size (size + 1)
  apart := (Equiv.swap size (size + 1)).injective
  boundary := size + 2
  fixed _ above :=
    Equiv.swap_apply_of_ne_of_ne (Nat.ne_of_gt (Nat.lt_of_succ_lt above)) (Nat.ne_of_gt above)

section Swapping

variable {size : Nat}

private theorem swapping_lt {ref : Nat} (below : ref < size) :
    (Relabeling.swapping size).functions ref = ref :=
  Equiv.swap_apply_of_ne_of_ne (Nat.ne_of_lt below) (Nat.ne_of_lt (Nat.lt_succ_of_lt below))

variable {store : Store}

private theorem value_swapping {value : Value} (known : Known store value) :
    (Relabeling.swapping store.functions.size).value value = value := by
  cases value with
  | function ref => exact congrArg Value.function (swapping_lt known)
  | _ => rfl

private theorem closure_swapping : (Relabeling.swapping size).closure = id :=
  Relabeling.closure_same

private theorem classObject_swapping : (Relabeling.swapping size).classObject = id :=
  Relabeling.classObject_same

private theorem scopes_swapping (known : AllKnown store) :
    store.scopes.map (Relabeling.swapping store.functions.size).scope = store.scopes := by
  refine Array.ext (by simp) fun ref inside inside' => ?_
  rw [Array.getElem_map, Relabeling.scope]
  have same := store.scopes[ref].bindings.map_eq_self fun name value bound => by
    have held : store.getHere? ref name = some value := by
      simpa only [Store.getHere?, Array.getElem?_eq_getElem inside'] using bound
    exact value_swapping (known value (.scope held))
  rw [same]

private theorem instances_swapping (known : AllKnown store) :
    store.instances.map (Relabeling.swapping store.functions.size).object = store.instances := by
  refine Array.ext (by simp) fun ref inside inside' => ?_
  rw [Array.getElem_map, Relabeling.object]
  have same := store.instances[ref].fields.map_eq_self fun name value bound => by
    have held : store.getField? ref name = some value := by
      simpa only [Store.getField?, Array.getElem?_eq_getElem inside'] using bound
    exact value_swapping (known value (.field held))
  rw [same]

private theorem arrays_swapping (known : AllKnown store) :
    store.arrays.map (Array.map (Relabeling.swapping store.functions.size).value) =
      store.arrays := by
  refine Array.ext (by simp) fun ref inside inside' => ?_
  rw [Array.getElem_map]
  refine Array.ext (by simp) fun slot within within' => ?_
  have held : (store.items ref)[slot]? = some store.arrays[ref][slot] := by
    simp [Store.items, Array.getElem?_eq_getElem inside', within']
  rw [Array.getElem_map]
  exact value_swapping (known _ (.item held))

private theorem maps_swapping (known : AllKnown store) :
    store.maps.map (Dict.map (Relabeling.swapping store.functions.size).value) = store.maps := by
  refine Array.ext (by simp) fun ref inside inside' => ?_
  rw [Array.getElem_map]
  refine store.maps[ref].map_eq_self fun key value bound => ?_
  have held : (store.entries ref).find? key = some value := by
    simpa only [Store.entries, Array.getElem?_eq_getElem inside', Option.getD_some] using bound
  exact value_swapping (known value (.entry held))

private theorem storeAlike_swapping (known : AllKnown store) (first second : Closure) :
    StoreAlike (.swapping store.functions.size) ((store.addFunction first).2.addFunction second).2
      ((store.addFunction second).2.addFunction first).2 where
  scopes := (scopes_swapping known).symm
  functions_size := by simp [Store.addFunction]
  functions ref := by
    rw [closure_swapping, Option.map_id_apply]
    simp only [Store.addFunction, Array.getElem?_push, Array.size_push]
    by_cases old : ref < store.functions.size
    · rw [swapping_lt old, if_neg (by omega), if_neg (by omega), if_neg (by omega),
        if_neg (by omega)]
    by_cases isFirst : ref = store.functions.size
    · subst isFirst
      have moved : (Relabeling.swapping store.functions.size).functions store.functions.size =
          store.functions.size + 1 := Equiv.swap_apply_left _ _
      rw [moved]
      simp
    by_cases isSecond : ref = store.functions.size + 1
    · subst isSecond
      have moved : (Relabeling.swapping store.functions.size).functions
          (store.functions.size + 1) = store.functions.size := Equiv.swap_apply_right _ _
      rw [moved]
      simp
    · have stays : (Relabeling.swapping store.functions.size).functions ref = ref :=
        Equiv.swap_apply_of_ne_of_ne isFirst isSecond
      rw [stays, if_neg isSecond, if_neg isFirst, if_neg isSecond, if_neg isFirst]
  settled := by simp [Store.addFunction, Relabeling.swapping]
  classes := by rw [classObject_swapping, Array.map_id]; rfl
  instances := (instances_swapping known).symm
  arrays := (arrays_swapping known).symm
  maps := (maps_swapping known).symm

private theorem define_comm (store : Store) (ref : ScopeRef) {name name' : String}
    (apart : name ≠ name') (value value' : Value) :
    (store.define ref name value).define ref name' value' =
      (store.define ref name' value').define ref name value := by
  have insert (bindings : Dict Value) : (bindings.insert name value).insert name' value' =
      (bindings.insert name' value').insert name value := by
    refine Dict.ext_find? fun key => ?_
    simp only [Dict.find?_insert]
    by_cases isFirst : key = name
    · simp [isFirst, apart]
    · simp [isFirst]
  simp only [Store.define, modify_modify, insert]

private theorem machineAlike_swapping {machine : Machine} (known : AllKnown machine.store)
    {first second : FunctionDecl Stmt} (apart : first.name.name ≠ second.name.name) :
    MachineAlike (.swapping machine.store.functions.size)
      ((machine.declaring first).declaring second)
      ((machine.declaring second).declaring first) := by
  refine ⟨rfl, ?_, rfl, rfl⟩
  have made := storeAlike_swapping known (machine.closure first) (machine.closure second)
  have named := (made.define machine.frame.scope first.name.name
    (.function machine.store.functions.size)).define machine.frame.scope second.name.name
    (.function (machine.store.functions.size + 1))
  have moved : (Relabeling.swapping machine.store.functions.size).value
      (.function machine.store.functions.size) = .function (machine.store.functions.size + 1) :=
    congrArg Value.function (Equiv.swap_apply_left _ _)
  have moved' : (Relabeling.swapping machine.store.functions.size).value
      (.function (machine.store.functions.size + 1)) = .function machine.store.functions.size :=
    congrArg Value.function (Equiv.swap_apply_right _ _)
  rw [moved, moved', define_comm _ _ apart (.function (machine.store.functions.size + 1))
    (.function machine.store.functions.size)] at named
  have sizes (decl : FunctionDecl Stmt) :
      (machine.declaring decl).store.functions.size = machine.store.functions.size + 1 := by
    simp [Machine.declaring, Store.define, Store.addFunction]
  simp only [Machine.declaring] at sizes ⊢
  rw [sizes, sizes]
  exact named

end Swapping

def Run.Outcome.shown {α : Type} (outcome : Outcome α) : Option (Option Failure × Sink) :=
  outcome.ending.map fun ending => (ending.1, ending.2.sink)

theorem Run.OutcomeAlike.shown {α : Type} {f : α → α} {outcome outcome' : Outcome α}
    (alike : OutcomeAlike labels f outcome outcome') : outcome'.shown = outcome.shown := by
  cases outcome <;> cases outcome' <;> try exact alike.elim
  case done.done => simp only [Outcome.shown, Outcome.ending, Option.map_some, alike.2.sink]
  case stopped.stopped =>
    simp only [Outcome.shown, Outcome.ending, Option.map_some, alike.1, alike.2.sink]
  case exhausted.exhausted => rfl

private theorem Code.shown_run (rules : Rules) (steps : Nat) (program : List Stmt)
    (machine : Machine) : ((Code.program program).run rules steps machine).shown =
      (interpret rules steps program machine).shown := by
  simp only [run, bind]
  cases interpret rules steps program machine <;> rfl

private theorem shown_of_alike (still : labels.ids = id) {rules rules' : Rules}
    (alike : RulesAlike labels.ids rules rules') (steps : Nat) (program : List Stmt)
    {machine' : Machine} (machines : MachineAlike labels machine machine') :
    (interpret rules' steps program machine').shown =
      (interpret rules steps program machine).shown := by
  have shown := ((Code.program program).follows_run alike steps machines).shown
  rw [still, Code.renumber_id, Code.shown_run, Code.shown_run] at shown
  exact shown

private theorem interpret_zero (rules : Rules) (stmt : Stmt) (rest : List Stmt)
    (machine : Machine) : interpret rules 0 (stmt :: rest) machine = .exhausted := by
  rw [interpret]
  rfl

/-- Functions with different names lead to the same in any order. -/
private theorem shown_of_perm (rules : Rules) (steps : Nat) (rest : List Stmt)
    {functions functions' : List (FunctionDecl Stmt)} (permuted : functions.Perm functions')
    (apart : (functions.map fun decl => decl.name.name).Nodup) (known : AllKnown machine.store) :
    (interpret rules steps (functions'.map .function ++ rest) machine).shown =
      (interpret rules steps (functions.map .function ++ rest) machine).shown := by
  induction permuted generalizing machine with
  | nil => rfl
  | cons decl permuted ih =>
    cases steps with
    | zero => simp only [List.map_cons, List.cons_append, interpret_zero]
    | succ steps =>
      exact ih (List.nodup_cons.mp apart).2 (known.declaring decl)
  | swap first second others =>
    cases steps with
    | zero => simp only [List.map_cons, List.cons_append, interpret_zero]
    | succ steps =>
      have different : second.name.name ≠ first.name.name := by
        intro same
        simp [same] at apart
      have same : RulesAlike id rules rules := ⟨fun _ => rfl, rfl, rfl⟩
      exact shown_of_alike rfl same _ _ (machineAlike_swapping known different)
  | trans permuted permuted' ih ih' =>
    have apart' := (permuted.map fun decl => decl.name.name).nodup_iff.mp apart
    exact (ih' apart' known).trans (ih apart known)

def Reply.shown {α : Type} (reply : Reply α) : Option (Option Failure × Sink) :=
  reply.ending.map fun ending => (ending.1, ending.2.sink)

/-- The order of function declarations does not matter. In every state of a session, let a program
begin with functions that have different names, with references numbered as reading numbers them.
The static checks accept it exactly if they accept it with the functions in another order. They find
the same depths and the same globals. With any number of steps both programs print the same, and
both end, or both fail for the same reason. -/
theorem function_order_does_not_matter {chronicle : Chronicle} (reached : chronicle.Reached)
    {functions functions' : List (FunctionDecl Stmt)} (permuted : functions.Perm functions')
    (apart : (functions.map fun decl => decl.name.name).Nodup) {rest : List Stmt}
    {first limit : Nat}
    (tidy : Tidy first limit (stmtsSites .top (functions.map .function ++ rest))) :
    let check functions :=
      Binding.resolveProgram chronicle.session.globals (functions.map .function ++ rest)
    ((∃ found, check functions = .ok found) ↔ ∃ found, check functions' = .ok found) ∧
    ∀ found found', check functions = .ok found → check functions' = .ok found' →
      found'.globals = found.globals ∧
      (∀ id, found'.depths.find? id = found.depths.find? id) ∧
      ∀ steps,
        (chronicle.session.runChecked steps (functions'.map .function ++ rest) found').shown =
          (chronicle.session.runChecked steps (functions.map .function ++ rest) found).shown := by
  intro check
  have programs := (permuted.map Stmt.function).append_right rest
  refine ⟨⟨?_, ?_⟩, ?_⟩
  · rintro ⟨found, accepts⟩
    obtain ⟨found', accepts', -⟩ := Binding.resolveProgram_of_perm permuted accepts
    exact ⟨found', accepts'⟩
  · rintro ⟨found, accepts⟩
    obtain ⟨found', accepts', -⟩ := Binding.resolveProgram_of_perm permuted.symm accepts
    exact ⟨found', accepts'⟩
  intro found found' accepts accepts'
  have depths (id : RefId) : found'.depths.find? id = found.depths.find? id := by
    refine Option.ext fun depth => ?_
    have before := Binding.find?_resolveProgram tidy accepts id depth
    have after := Binding.find?_resolveProgram (tidy.of_perm programs) accepts' id depth
    simp only [mem_stmtsSites_top] at before after
    rw [after, before]
    simp only [programs.mem_iff]
  refine ⟨?_, depths, fun steps => ?_⟩
  · obtain ⟨other, accepted, same⟩ := Binding.resolveProgram_of_perm permuted accepts
    obtain rfl := Except.ok.inj (accepts'.symm.trans accepted)
    exact same
  · have rules : RulesAlike id (chronicle.session.commit found).rules
        (chronicle.session.commit found').rules := by
      refine ⟨fun number => ?_, rfl, rfl⟩
      simp only [id, Session.rules, Session.commit, Binding.Depths.find?_merge, depths]
    have begins : MachineAlike .same chronicle.session.atTop.machine
        chronicle.session.atTop.machine := ⟨rfl, .refl _, rfl, rfl⟩
    have known : AllKnown chronicle.session.atTop.machine.store := reached.sound.coherent.known
    simp only [Reply.shown, Session.ending_runChecked]
    refine (shown_of_perm _ steps rest permuted apart known).trans ?_
    exact shown_of_alike rfl rules steps _ begins

def leadingFunctions : List Stmt → List (FunctionDecl Stmt) × List Stmt
  | .function decl :: rest => (decl :: (leadingFunctions rest).1, (leadingFunctions rest).2)
  | program => ([], program)

private theorem leadingFunctions_append (program : List Stmt) :
    (leadingFunctions program).1.map .function ++ (leadingFunctions program).2 = program := by
  induction program with
  | nil => rfl
  | cons stmt rest ih =>
    cases stmt with
    | function decl => exact congrArg (Stmt.function decl :: ·) ih
    | _ => rfl

def parityText : String :=
  "fn even(n) { if (n == 0) { return true; } return odd(n - 1); }" ++
    "fn odd(n) { if (n == 0) { return false; } return even(n - 1); } print even(3);"

def parityRead : List Stmt × Session :=
  (freshSession.readProgram parityText).toOption.getD ([], freshSession)

def parityFunctions : List (FunctionDecl Stmt) :=
  (leadingFunctions parityRead.1).1

def parityRest : List Stmt :=
  (leadingFunctions parityRead.1).2

/-- What is found in the program with its functions in some order. -/
def parityFound (functions : List (FunctionDecl Stmt)) : Binding.Resolution :=
  (Binding.resolveProgram freshSession.globals
    (functions.map .function ++ parityRest)).toOption.getD ⟨.empty, .initial⟩

/-- Two functions that call each other, in both orders. -/
theorem even_and_odd_in_both_orders :
    parityFunctions.map (fun decl => decl.name.name) = ["even", "odd"] ∧
    ((freshSession.runChecked 60 (parityFunctions.map .function ++ parityRest)
      (parityFound parityFunctions)).shown.map fun shown => shown.2.lines) = some ["false"] ∧
    (parityFound parityFunctions.reverse).globals = (parityFound parityFunctions).globals ∧
    (∀ id, (parityFound parityFunctions.reverse).depths.find? id =
      (parityFound parityFunctions).depths.find? id) ∧
    ∀ steps,
      (freshSession.runChecked steps (parityFunctions.reverse.map .function ++ parityRest)
        (parityFound parityFunctions.reverse)).shown =
      (freshSession.runChecked steps (parityFunctions.map .function ++ parityRest)
        (parityFound parityFunctions)).shown := by
  have reached : (Chronicle.start {} (fun _ => 0) .capturing).Reached := .start {} (fun _ => 0) _
  -- One evaluation, so that the text is read once.
  have found : (freshSession.readProgram parityText).toBool = true ∧
      (parityFunctions.map (fun decl => decl.name.name) = ["even", "odd"] ∧
      ((freshSession.runChecked 60 (parityFunctions.map .function ++ parityRest)
        (parityFound parityFunctions)).shown.map fun shown => shown.2.lines) = some ["false"]) ∧
      (Binding.resolveProgram freshSession.globals
        (parityFunctions.map .function ++ parityRest)).toBool = true ∧
      (Binding.resolveProgram freshSession.globals
        (parityFunctions.reverse.map .function ++ parityRest)).toBool = true := by
    decide +kernel
  obtain ⟨reads, ⟨names, shows⟩, accepts, accepts'⟩ := found
  have reads : freshSession.readProgram parityText = .ok parityRead := eq_ok_of_toBool _ reads
  obtain ⟨limit, -, -, tidy⟩ := Session.tidy_of_readProgram reads
  have tidy : Tidy freshSession.nextId limit (stmtsSites .top parityRead.1) := tidy
  rw [← leadingFunctions_append parityRead.1] at tidy
  have apart : (parityFunctions.map fun decl => decl.name.name).Nodup := by
    rw [names]
    decide
  exact ⟨names, shows, (function_order_does_not_matter reached
    parityFunctions.reverse_perm.symm apart tidy).2 _ _ (eq_ok_of_toBool _ accepts)
      (eq_ok_of_toBool _ accepts')⟩

end ClassScript
