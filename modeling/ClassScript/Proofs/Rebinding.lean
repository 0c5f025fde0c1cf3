import ClassScript.Proofs.Ledger

/-!
Walks through a text that see almost the same: the second one is not refused where the first one is
not, and notes every depth under the new number.
-/

set_option autoImplicit false

namespace ClassScript.Binding

/-- A name can be used at a place: it is a global, or a function may use it early. -/
def Visible (hoisted : Dict Unit) (place : Place) (globals : Globals) (name : String) : Prop :=
  (globals.contains name || (place.function ≠ .none && hoisted.contains name)) = true

section Names

variable {hoisted : Dict Unit} {place : Place} {id : RefId} {name : Identifier} {state : State}

private theorem bindName_of_visible (outside : state.bindLocal id name.name = none)
    (visible : Visible hoisted place state.globals name.name) :
    bindName (place.within hoisted) id name state = .ok state := by
  rw [bindName, outside]
  exact if_pos visible

private theorem bindName_of_hidden (outside : state.bindLocal id name.name = none)
    (hidden : ¬Visible hoisted place state.globals name.name) :
    bindName (place.within hoisted) id name state =
      refuse name.position (.undefined name.name) := by
  rw [bindName, outside]
  exact if_neg hidden

end Names

/-- What two walks see of globals and of names at the top. If the view is strict, neither walk sees
more than the other. -/
structure View (strict : Prop) (hoisted wide : Dict Unit) where
  /-- The places that the walks come to, with the number of scopes around each. -/
  fits : Nat → Place → Prop
  /-- The globals that the walks may have. -/
  known : Globals → Globals → Prop
  loop : ∀ {level place}, fits level place → fits level place.loopBody
  block : ∀ {level place}, fits level place → fits (level + 1) place
  methods : ∀ {level place}, fits level place → ∀ derived, fits level (place.methods derived)
  body : ∀ (level : Nat) (place : Place) {kind : FunctionKind}, kind ≠ .none →
    fits (level + 1) (place.functionBody kind)
  classes : ∀ {globals globals'}, known globals globals' → globals'.classes = globals.classes
  /-- Where globals are declared, both walks have the same. -/
  even : ∀ {place}, fits 0 place → ∀ {globals globals'}, known globals globals' ↔ globals' = globals
  sees : ∀ {level place}, fits level place → ∀ {globals globals'}, known globals globals' →
    ∀ name, Visible hoisted place globals name → Visible wide place globals' name
  exact : strict → ∀ {level place}, fits level place → ∀ {globals globals'},
    known globals globals' → ∀ name, Visible wide place globals' name →
      Visible hoisted place globals name

def View.even_of {strict : Prop} {hoisted wide : Dict Unit}
    (more : ∀ name, hoisted.contains name → wide.contains name)
    (less : strict → ∀ name, wide.contains name → hoisted.contains name) :
    View strict hoisted wide where
  fits _ _ := True
  known globals globals' := globals' = globals
  loop _ := trivial
  block _ := trivial
  methods _ _ := trivial
  body _ _ _ _ := trivial
  classes same := congrArg Globals.classes same
  even _ := Iff.rfl
  sees _ _ _ same name visible := by
    subst same
    simp only [Visible, Bool.or_eq_true, Bool.and_eq_true] at visible ⊢
    exact visible.imp_right fun ⟨inside, early⟩ => ⟨inside, more name early⟩
  exact isStrict _ _ _ _ _ same name visible := by
    subst same
    simp only [Visible, Bool.or_eq_true, Bool.and_eq_true] at visible ⊢
    exact visible.imp_right fun ⟨inside, early⟩ => ⟨inside, less isStrict name early⟩

section Alike

variable {strict : Prop} {hoisted wide : Dict Unit}

/-- Two states alike but for the numbers of noted depths, for depths that had been noted before, and
for globals that the view allows. -/
structure State.Alike (view : View strict hoisted wide) (change : RefId → RefId) (before : Depths)
    (level : Nat) (first second : State) : Prop where
  globals : view.known first.globals second.globals
  height : first.scopes.length = level
  scopes : second.scopes = first.scopes
  depths : ∀ id,
    second.depths.find? (change id) = (first.depths.find? id).or (before.find? id)

abbrev View.EndsAlike (view : View strict hoisted wide) (change : RefId → RefId) (before : Depths)
    (level : Nat) : Except (Located Fault) State → Except (Located Fault) State → Prop :=
  Ends (State.Alike view change before level) fun fault ending => strict → ending = .error fault

variable {view : View strict hoisted wide} {change : RefId → RefId} {before : Depths} {level : Nat}
  {place : Place} {first second : State}

private theorem final_of_strict {fault : Located Fault} {ending : Except (Located Fault) State}
    (same : strict → ending = .error fault) (next : Walk) :
    strict → (ending >>= next) = .error fault := by
  intro isStrict
  rw [same isStrict]
  rfl

namespace State.Alike

theorem enter (alike : first.Alike view change before level second) (names : List String) :
    (first.enter names).Alike view change before (level + 1) (second.enter names) where
  globals := alike.globals
  height := congrArg (· + 1) alike.height
  scopes := by simp only [State.enter, alike.scopes]
  depths := alike.depths

theorem leave (alike : first.Alike view change before (level + 1) second) :
    first.leave.Alike view change before level second.leave where
  globals := alike.globals
  height := by rw [State.leave, List.length_tail, alike.height, Nat.add_sub_cancel]
  scopes := by simp only [State.leave, alike.scopes]
  depths := alike.depths

section

variable (alike : first.Alike view change before level second)

include alike

theorem declare (here : view.fits level place) (name : Identifier) :
    view.EndsAlike change before level (first.declare name) (second.declare name) := by
  obtain ⟨globals, height, scopes, depths⟩ := alike
  unfold State.declare
  rw [scopes]
  cases around : first.scopes with
  | nil =>
    obtain rfl : 0 = level := by rw [← height, around, List.length_nil]
    have same := (view.even here).mp globals
    refine .ok ⟨(view.even here).mpr ?_, rfl, rfl, depths⟩
    rw [same]
  | cons scope outer =>
    simp only
    split
    · exact .error fun _ => rfl
    · exact .ok ⟨globals, by rw [← height, around]; rfl, rfl, depths⟩

theorem define (name : String) :
    (first.define name).Alike view change before level (second.define name) := by
  obtain ⟨globals, height, scopes, depths⟩ := alike
  unfold State.define
  rw [scopes]
  cases around : first.scopes with
  | nil => exact ⟨globals, height, scopes, depths⟩
  | cons scope outer => exact ⟨globals, by rw [← height, around]; rfl, rfl, depths⟩

theorem recordClass (here : view.fits level place) (name : String) (outline : Outline) :
    (first.recordClass name outline).Alike view change before level
      (second.recordClass name outline) := by
  obtain ⟨globals, height, scopes, depths⟩ := alike
  unfold State.recordClass
  rw [scopes]
  cases around : first.scopes with
  | nil =>
    obtain rfl : 0 = level := by rw [← height, around, List.length_nil]
    have same := (view.even here).mp globals
    refine ⟨(view.even here).mpr ?_, rfl, rfl, depths⟩
    rw [same]
  | cons scope outer => exact ⟨globals, by rw [← height, around]; rfl, rfl, depths⟩

theorem bindLocal (apart : Function.Injective change) (id : RefId) (name : String) :
    Option.Rel (State.Alike view change before level) (first.bindLocal id name)
      (second.bindLocal (change id) name) := by
  unfold State.bindLocal
  rw [alike.scopes]
  cases State.depthIn name first.scopes with
  | none => exact .none
  | some depth =>
    refine .some ⟨alike.globals, alike.height, rfl, fun other => ?_⟩
    simp only [Depths.find?_record, alike.depths other, apart.eq_iff]
    split <;> rfl

theorem bindName (apart : Function.Injective change) (here : view.fits level place) (id : RefId)
    (name : Identifier) :
    view.EndsAlike change before level (bindName (place.within hoisted) id name first)
      (bindName (place.within wide) (change id) name second) := by
  have bound := alike.bindLocal apart id name.name
  cases outside : first.bindLocal id name.name with
  | some found =>
    rw [outside] at bound
    generalize inside : second.bindLocal (change id) name.name = found' at bound
    cases bound with
    | some alike' =>
      rw [Binding.bindName, Binding.bindName, outside, inside]
      exact .ok alike'
  | none =>
    rw [outside] at bound
    generalize outside' : second.bindLocal (change id) name.name = found' at bound
    cases bound with
    | none =>
      by_cases visible : Visible hoisted place first.globals name.name
      · rw [bindName_of_visible outside visible,
          bindName_of_visible outside' (view.sees here alike.globals name.name visible)]
        exact .ok alike
      · rw [bindName_of_hidden outside visible]
        refine .error fun isStrict => bindName_of_hidden outside' fun visible' => visible ?_
        exact view.exact isStrict here alike.globals name.name visible'

theorem bindWord (apart : Function.Injective change) (id : RefId) (word : String) :
    view.EndsAlike change before level (bindWord id word first)
      (bindWord (change id) word second) := by
  unfold Binding.bindWord
  have bound := alike.bindLocal apart id word
  generalize first.bindLocal id word = found, second.bindLocal (change id) word = found' at bound
  cases bound with
  | some alike' => exact .ok alike'
  | none => exact .ok alike

end

end State.Alike

private theorem methodNames_renumber (methods : List (MethodDecl Stmt)) :
    (renumberMethods change methods).map (fun method => method.function.name) =
      methods.map fun method => method.function.name := by
  rw [renumberMethods_eq_map, List.map_map]
  simp only [Function.comp_def, renumberFunction_name]

private theorem ownFault?_renumber (decl : ClassDecl Expr Stmt) :
    ownFault? (renumberClass change decl) = ownFault? decl := by
  have fields : (renumberFields change decl.fields).map FieldDecl.name =
      decl.fields.map FieldDecl.name := by
    rw [renumberFields_eq_map, List.map_map]
    rfl
  simp only [ownFault?, renumberClass, methodNames_renumber, fields]
  cases decl.superclass <;> rfl

private theorem outlineOf_renumber (decl : ClassDecl Expr Stmt) :
    outlineOf (renumberClass change decl) = outlineOf decl := by
  have methods :
      (renumberMethods change decl.methods).map (fun method => method.function.name.name) =
      decl.methods.map fun method => method.function.name.name := by
    rw [renumberMethods_eq_map, List.map_map]
    simp only [Function.comp_def, renumberFunction_name]
  simp only [outlineOf, renumberClass, Option.map_map, Function.comp_def, methods]

private theorem firstUnfounded_renumber (ancestors : List Outline)
    (methods : List (MethodDecl Stmt)) : firstUnfounded ancestors (renumberMethods change methods) =
      firstUnfounded ancestors methods := by
  induction methods with
  | nil => rw [renumberMethods]
  | cons method rest ih =>
    rw [renumberMethods]
    simp only [firstUnfounded, renumberFunction_name, ih]

private theorem alike_checkInheritance (alike : first.Alike view change before level second)
    (decl : ClassDecl Expr Stmt) :
    view.EndsAlike change before level (checkInheritance decl first)
      (checkInheritance (renumberClass change decl) second) := by
  have parent : (renumberClass change decl).superclass.map (fun parent => parent.name) =
      decl.superclass.map fun parent => parent.name := by
    simp only [renumberClass, Option.map_map, Function.comp_def]
  have classes := view.classes alike.globals
  unfold checkInheritance
  simp only [parent, classCount_congr classes alike.scopes, ancestry_congr classes alike.scopes]
  simp only [renumberClass, firstUnfounded_renumber]
  split
  · exact .error fun _ => rfl
  · exact .ok alike
  · split
    · exact .error fun _ => rfl
    · exact .ok alike

private theorem alike_declareClass (alike : first.Alike view change before level second)
    (apart : Function.Injective change) (here : view.fits level place)
    (decl : ClassDecl Expr Stmt) :
    view.EndsAlike change before level (declareClass (place.within hoisted) decl first)
      (declareClass (place.within wide) (renumberClass change decl) second) := by
  have parent : view.EndsAlike change before level
      (bindParent (place.within hoisted) decl.superclass first)
      (bindParent (place.within wide) (renumberClass change decl).superclass second) := by
    rw [renumberClass]
    cases decl.superclass with
    | none => exact .ok alike
    | some parent => exact alike.bindName apart here parent.id parent.name
  rw [declareClass_eq_settleClass, declareClass_eq_settleClass, ownFault?_renumber]
  cases ownFault? decl with
  | some fault => exact .error fun _ => rfl
  | none =>
    simp only [settleClass, outlineOf_renumber]
    refine parent.bind final_of_strict fun bound => ?_
    refine (bound.declare here decl.name).bind final_of_strict fun declared => ?_
    exact alike_checkInheritance ((declared.define _).recordClass here _ _) decl

theorem keep_alike (view : View strict hoisted wide) (apart : Function.Injective change)
    (before : Depths) :
    (resolver hoisted).Keep change view.fits (State.Alike view change before)
      (fun fault ending => strict → ending = .error fault) (resolver wide) where
  final := final_of_strict
  loop := view.loop
  block := view.block
  methodsFit := view.methods
  body := view.body
  nested alike := by simp only [resolver, alike.scopes]
  refuse _ _ _ := .error fun _ => rfl
  read {_ _ first second} here alike id name := by
    have same : second.isIncomplete name.name = first.isIncomplete name.name := by
      rw [State.isIncomplete, State.isIncomplete, alike.scopes]
    simp only [resolver, same]
    split
    · exact .error fun _ => rfl
    · exact alike.bindName apart here id name
  bind here alike id name := alike.bindName apart here id name
  word alike id word := alike.bindWord apart id word
  enter alike names := alike.enter names
  leave alike := alike.leave
  declare here alike name := alike.declare here name
  define alike name := alike.define name
  declareClass here alike decl := alike_declareClass alike apart here decl

end Alike

structure Resolution.Alike (change : RefId → RefId) (first second : Resolution) : Prop where
  globals : second.globals = first.globals
  depths : ∀ id, second.depths.find? (change id) = first.depths.find? id

section Texts

variable {change : RefId → RefId}

/-- Two results of static checks are alike: alike resolutions, or the same fault. -/
inductive ChecksAlike (change : RefId → RefId) :
    Except (Located Fault) Resolution → Except (Located Fault) Resolution → Prop where
  | ok {first second : Resolution} (alike : first.Alike change second) :
    ChecksAlike change (.ok first) (.ok second)
  | error (fault : Located Fault) : ChecksAlike change (.error fault) (.error fault)

def View.plain (hoisted : Dict Unit) : View True hoisted hoisted :=
  .even_of (fun _ member => member) fun _ _ member => member

private theorem alike_start (hoisted : Dict Unit) (globals : Globals) :
    (State.start globals).Alike (.plain hoisted) change .empty 0 (State.start globals) :=
  ⟨rfl, rfl, rfl, fun id => by simp [State.start]⟩

private theorem checks_of_endsAlike {hoisted : Dict Unit}
    {first second : Except (Located Fault) State}
    (ends : (View.plain hoisted).EndsAlike change .empty 0 first second) :
    ChecksAlike change
      (first >>= fun state => .ok { depths := state.depths, globals := state.globals })
      (second >>= fun state => .ok { depths := state.depths, globals := state.globals }) := by
  cases ends with
  | ok alike => exact .ok ⟨alike.globals, fun id => by simpa using alike.depths id⟩
  | @error fault ending answer =>
    rw [answer trivial]
    exact .error fault

private theorem declaredName?_renumber (stmt : Stmt) :
    declaredName? (stmt.renumber change) = declaredName? stmt := by
  cases stmt with
  | function decl => simp only [Stmt.renumber, declaredName?, renumberFunction_name]
  | classDecl decl =>
    rfl
  | _ => simp only [Stmt.renumber, declaredName?]

private theorem hoistedNames_renumber (program : List Stmt) :
    hoistedNames (renumberStmts change program) = hoistedNames program := by
  have same : (renumberStmts change program).filterMap declaredName? =
      program.filterMap declaredName? := by
    induction program with
    | nil => rw [renumberStmts]
    | cons stmt rest ih =>
      rw [renumberStmts, List.filterMap_cons, List.filterMap_cons, declaredName?_renumber, ih]
  unfold hoistedNames
  rw [same]

theorem resolveProgram_alike (apart : Function.Injective change) (globals : Globals)
    (program : List Stmt) :
    ChecksAlike change (resolveProgram globals program)
      (resolveProgram globals (renumberStmts change program)) := by
  unfold resolveProgram
  rw [hoistedNames_renumber]
  have here : (View.plain (hoistedNames program)).fits 0 (.top (hoistedNames program)) := trivial
  have ends := (keep_alike _ apart .empty).stmts here program (alike_start _ globals)
  rw [walkStmts_resolver, walkStmts_resolver] at ends
  exact checks_of_endsAlike ends

theorem resolveLone_alike (apart : Function.Injective change) (globals : Globals) (expr : Expr) :
    ChecksAlike change (resolveLone globals expr) (resolveLone globals (expr.renumber change)) := by
  have here : (View.plain ∅).fits 0 (.top ∅) := trivial
  have ends := (keep_alike _ apart .empty).expr here expr (alike_start _ globals)
  rw [walkExpr_resolver, walkExpr_resolver] at ends
  exact checks_of_endsAlike ends

end Texts

end ClassScript.Binding
