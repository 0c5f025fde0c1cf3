import ClassScript.Proofs.StoreRelabeling
import ClassScript.Proofs.Trace

/-!
Runs that differ in numbers only end alike, with the same output.
-/

set_option autoImplicit false

namespace ClassScript

namespace Relabeling

variable (labels : Relabeling)

def flow : Run.Flow → Run.Flow
  | .returned value => .returned (labels.value value)
  | other => other

end Relabeling

namespace Run

structure MachineAlike (labels : Relabeling) (first second : Machine) : Prop where
  frame : second.frame = first.frame
  store : StoreAlike labels first.store second.store
  sink : second.sink = first.sink
  ticks : second.ticks = first.ticks

structure RulesAlike (change : RefId → RefId) (first second : Rules) : Prop where
  depths : ∀ id, second.depths.find? (change id) = first.depths.find? id
  maxDepth : second.maxDepth = first.maxDepth
  clock : second.clock = first.clock

def OutcomeAlike {α : Type} (labels : Relabeling) (f : α → α) : Outcome α → Outcome α → Prop
  | .done first machine, .done second machine' =>
    second = f first ∧ MachineAlike labels machine machine'
  | .stopped first machine, .stopped second machine' =>
    second = first ∧ MachineAlike labels machine machine'
  | .exhausted, .exhausted => True
  | _, _ => False

/-- The second evaluation follows the first one on machines that are alike. -/
def Follows {α : Type} (labels : Relabeling) (f : α → α) (first second : Eval α) : Prop :=
  ∀ machine machine', MachineAlike labels machine machine' →
    OutcomeAlike labels f (first machine) (second machine')

namespace Follows

variable {α β : Type} {labels : Relabeling} {f : α → α} {g : β → β} {first second : Eval α}

theorem pure (f : α → α) (value : α) : Follows labels f (Pure.pure value) (Pure.pure (f value)) :=
  fun _ _ machines => ⟨rfl, machines⟩

private theorem fail (position : Position) (fault : RuntimeFault) :
    Follows labels f (Eval.fail position fault) (Eval.fail position fault) :=
  fun _ _ machines => ⟨rfl, machines⟩

private theorem exhaust : Follows labels f Eval.exhaust Eval.exhaust :=
  fun _ _ _ => trivial

theorem bind {next next' : α → Eval β} (begins : Follows labels f first second)
    (goesOn : ∀ value, Follows labels g (next value) (next' (f value))) :
    Follows labels g (first >>= next) (second >>= next') := by
  intro machine machine' machines
  have ends := begins machine machine' machines
  simp only [Bind.bind]
  generalize first machine = outcome at ends ⊢
  generalize second machine' = outcome' at ends ⊢
  cases outcome <;> cases outcome' <;> try exact ends.elim
  · obtain ⟨rfl, machines⟩ := ends
    exact goesOn _ _ _ machines
  · exact ends
  · trivial

private theorem attempt (position : Position) {result result' : Except RuntimeFault α}
    (alike : result' = result.map f) :
    Follows labels f (Eval.attempt position result) (Eval.attempt position result') := by
  subst alike
  cases result with
  | ok value => exact .pure f value
  | error fault => exact .fail position fault

private theorem frame {next next' : Frame → Eval α}
    (goesOn : ∀ frame, Follows labels f (next frame) (next' frame)) :
    Follows labels f (Eval.frame >>= next) (Eval.frame >>= next') := by
  intro machine machine' machines
  show OutcomeAlike labels f (next machine.frame machine) (next' machine'.frame machine')
  rw [machines.frame]
  exact goesOn machine.frame machine machine' machines

private theorem inspect {look look' : Store → α}
    (sees : ∀ store store', StoreAlike labels store store' → look' store' = f (look store)) :
    Follows labels f (Eval.inspect look) (Eval.inspect look') :=
  fun _ _ machines => ⟨sees _ _ machines.store, machines⟩

private theorem add {extend extend' : Store → α × Store}
    (adds : ∀ store store', StoreAlike labels store store' →
      (extend' store').1 = f (extend store).1 ∧
        StoreAlike labels (extend store).2 (extend' store').2) :
    Follows labels f (Eval.add extend) (Eval.add extend') :=
  fun _ _ machines =>
    ⟨(adds _ _ machines.store).1, { machines with store := (adds _ _ machines.store).2 }⟩

private theorem change {update update' : Store → Store}
    (keeps : ∀ store store', StoreAlike labels store store' →
      StoreAlike labels (update store) (update' store')) :
    Follows labels id (Eval.change update) (Eval.change update') :=
  fun _ _ machines => ⟨rfl, { machines with store := keeps _ _ machines.store }⟩

private theorem within (frame : Frame) (inside : Follows labels f first second) :
    Follows labels f (Eval.within frame first) (Eval.within frame second) := by
  intro machine machine' machines
  have ends := inside { machine with frame } { machine' with frame } { machines with frame := rfl }
  simp only [Eval.within]
  generalize first { machine with frame } = outcome at ends ⊢
  generalize second { machine' with frame } = outcome' at ends ⊢
  cases outcome <;> cases outcome' <;> try exact ends.elim
  · exact ⟨ends.1, { ends.2 with frame := machines.frame }⟩
  · exact ⟨ends.1, { ends.2 with frame := machines.frame }⟩
  · trivial

private theorem withinScope (scope : ScopeRef) (inside : Follows labels f first second) :
    Follows labels f (Eval.withinScope scope first) (Eval.withinScope scope second) := by
  intro machine machine' machines
  unfold Eval.withinScope
  rw [machines.frame]
  exact Follows.within _ inside machine machine' machines

private theorem emit (line : String) : Follows labels id (Eval.emit line) (Eval.emit line) := by
  intro machine machine' machines
  simp only [Eval.emit, machines.sink]
  split
  · exact ⟨rfl, { machines with sink := rfl }⟩
  · exact ⟨rfl, { machines with sink := rfl }⟩

end Follows

section Actions

variable {labels : Relabeling}

private theorem follows_define (name : String) (value : Value) :
    Follows labels id (Eval.define name value) (Eval.define name (labels.value value)) :=
  .frame fun _ => .change fun _ _ stores => stores.define _ _ _

private theorem follows_innerScope : Follows labels id Eval.innerScope Eval.innerScope :=
  .frame fun _ => .add fun _ _ stores => stores.addScope _

private theorem follows_found {look look' : Store → Option Value} (position : Position)
    (fault : RuntimeFault) (sees : ∀ store store', StoreAlike labels store store' →
      look' store' = (look store).map labels.value) :
    Follows labels labels.value
      (do match ← Eval.inspect look with
        | some value => pure value
        | none => Eval.fail position fault)
      (do match ← Eval.inspect look' with
        | some value => pure value
        | none => Eval.fail position fault) := by
  refine .bind (f := Option.map labels.value) (.inspect sees) fun found => ?_
  cases found with
  | some value => exact .pure _ value
  | none => exact .fail _ _

private theorem follows_checkAccess (member : Member) (what : MemberKind) (name : String)
    (position : Position) : Follows labels id (checkAccess member what name position)
      (checkAccess member what name position) := by
  refine .frame fun frame => .bind (f := id) (.inspect fun _ _ stores => stores.mayUse _ _)
    fun allowed => ?_
  cases allowed with
  | true => exact .pure id ()
  | false =>
    refine .bind (f := id) (.inspect fun store store' stores => ?_) fun owner => .fail _ _
    simp only [stores.classes, Array.getElem?_map, Option.map_map]
    rfl

private theorem follows_checkField (member : Option Member) (name : Identifier) :
    Follows labels id (checkField member name) (checkField member name) := by
  cases member with
  | some member => exact follows_checkAccess member .field name.name name.position
  | none => exact .pure id ()

private theorem follows_bindMethod (method : Method) (receiver : InstanceRef) :
    Follows labels labels.closure (Eval.add fun store => store.bindMethod method.closure receiver)
      (Eval.add fun store => store.bindMethod (labels.method method).closure receiver) := by
  refine .add fun store store' stores => ?_
  obtain ⟨scope, added⟩ := stores.addScope
    { bindings := Dict.empty.insert Store.thisName (.object receiver)
      enclosing := some method.closure.scope }
  exact ⟨congrArg (fun scope => { labels.closure method.closure with scope }) scope, added⟩

private theorem follows_addFunction (closure : Closure) :
    Follows labels labels.value
      (do let ref ← Eval.add fun store => store.addFunction closure; pure (.function ref))
      (do let ref ← Eval.add fun store => store.addFunction (labels.closure closure)
          pure (.function ref)) :=
  .bind (.add fun _ _ stores => stores.addFunction closure) fun ref =>
    .pure labels.value (.function ref)

private theorem follows_boundMethod (method : Method) (receiver : InstanceRef) :
    Follows labels labels.value (boundMethod method receiver)
      (boundMethod (labels.method method) receiver) :=
  .bind (follows_bindMethod method receiver) fun closure => follows_addFunction closure

private theorem follows_classOf? (ref : InstanceRef) :
    Follows labels (Option.map labels.classObject) (Eval.inspect fun store => store.classOf? ref)
      (Eval.inspect fun store => store.classOf? ref) :=
  .inspect fun _ _ stores => stores.classOf? ref

private theorem follows_readProperty (ref : InstanceRef) (name : Identifier) :
    Follows labels labels.value (readProperty ref name) (readProperty ref name) := by
  refine .bind (follows_classOf? ref) fun found =>
    .bind (.inspect fun _ _ stores => stores.getField? ref name.name) fun field => ?_
  cases field with
  | some value =>
    refine .bind (f := id) ?_ fun _ => .pure _ value
    cases found <;> exact follows_checkField _ name
  | none =>
    cases found with
    | none => exact .fail _ _
    | some made =>
      simp only [Option.map_some, Option.bind_some, Relabeling.classObject, Dict.find?_map]
      cases made.methods.find? name.name with
      | none => exact .fail _ _
      | some method =>
        exact .bind (follows_checkAccess _ _ _ _) fun _ => follows_boundMethod method ref

private theorem follows_writeProperty (ref : InstanceRef) (name : Identifier) (value : Value) :
    Follows labels id (writeProperty ref name value)
      (writeProperty ref name (labels.value value)) := by
  refine .bind (follows_classOf? ref) fun found => .bind (f := id) ?_ fun _ =>
    .change fun _ _ stores => stores.setField _ _ _
  cases found <;> exact follows_checkField _ name

private theorem follows_assignIndex (object index value : Value) (position : Position) :
    Follows labels id (assignIndex object index value position)
      (assignIndex (labels.value object) (labels.value index) (labels.value value) position) := by
  refine .bind (f := id) (.inspect fun _ _ stores => stores.findPlace _ _) fun found =>
    .bind (f := id) (.attempt position ?_) fun place => .change fun _ _ stores => stores.put _ _
  cases found <;> rfl

private theorem follows_makeFunction (decl : FunctionDecl Stmt) :
    Follows labels labels.value (makeFunction decl)
      (makeFunction (renumberFunction labels.ids decl)) :=
  .frame fun frame => follows_addFunction
    { decl, scope := frame.scope, isInitializer := false, owner := frame.classRef }

private theorem follows_methodScopeOf (superclass : Option ClassRef) (outer : ScopeRef) :
    Follows labels id (Traced.methodScopeOf superclass outer)
      (Traced.methodScopeOf superclass outer) := by
  cases superclass with
  | none => exact .pure id outer
  | some parent =>
    simp only [Traced.methodScopeOf]
    exact .add fun _ _ stores => stores.addScope _

private theorem follows_checkArity (expected : Nat) {got got' : Nat} (same : got' = got)
    (position : Position) :
    Follows labels id (checkArity expected got position) (checkArity expected got' position) := by
  subst same
  unfold checkArity
  split
  · exact .pure id ()
  · exact .fail _ _

private theorem follows_callResult (closure : Closure) (flow : Flow) :
    Follows labels labels.value (callResult closure flow)
      (callResult (labels.closure closure) (labels.flow flow)) := by
  unfold callResult
  by_cases isInitializer : closure.isInitializer = true
  · rw [if_pos isInitializer, if_pos (show (labels.closure closure).isInitializer = true from
      isInitializer)]
    refine .inspect fun store store' stores => ?_
    rw [stores.getHere?]
    show ((store.getHere? closure.scope Store.thisName).map labels.value).getD .nil = _
    cases store.getHere? closure.scope Store.thisName <;> rfl
  · rw [if_neg isInitializer, if_neg (show ¬ (labels.closure closure).isInitializer = true from
      isInitializer)]
    cases flow <;> exact .pure labels.value _

variable {rules rules' : Rules} (alike : RulesAlike labels.ids rules rules')

include alike

private theorem follows_readVariable (number : RefId) (name : Identifier) :
    Follows labels labels.value (readVariable rules number name)
      (readVariable rules' (labels.ids number) name) := by
  refine .frame fun frame => ?_
  rw [alike.depths]
  refine follows_found _ _ fun store store' stores => ?_
  split
  · exact stores.getAt? _ _ _
  · exact stores.getHere? _ _

private theorem follows_writeVariable (number : RefId) (name : Identifier) (value : Value) :
    Follows labels id (writeVariable rules number name value)
      (writeVariable rules' (labels.ids number) name (labels.value value)) := by
  refine .frame fun frame => ?_
  rw [alike.depths]
  intro machine machine' machines
  have stores := machines.store
  simp only [Bind.bind, Eval.inspect, Store.assignHere?, Store.assignAt?, stores.holder?]
  cases rules.depths.find? number
  all_goals
    simp only
    generalize machine.store.holder? _ _ name.name = holder
    cases holder with
    | some target => exact ⟨rfl, { machines with store := stores.define _ _ _ }⟩
    | none => exact ⟨rfl, machines⟩

private theorem follows_readThis (number : RefId) (position : Position) :
    Follows labels labels.value (readThis rules number position)
      (readThis rules' (labels.ids number) position) := by
  refine .frame fun frame => ?_
  rw [alike.depths]
  refine follows_found _ _ fun store store' stores => ?_
  cases rules.depths.find? number with
  | none => rfl
  | some depth => exact stores.getAt? _ _ _

private theorem follows_readSuper (number : RefId) (position : Position) (method : Identifier) :
    Follows labels labels.value (readSuper rules number position method)
      (readSuper rules' (labels.ids number) position method) := by
  refine .frame fun frame => ?_
  rw [alike.depths]
  refine .bind (f := Option.map (Prod.map labels.classObject id))
    (.inspect fun store store' stores => ?_) fun found => ?_
  · cases rules.depths.find? number with
    | none => rfl
    | some depth => exact stores.superPair _ _
  cases found with
  | none => exact .fail _ _
  | some pair =>
    simp only [Option.map_some, Prod.map_fst, Prod.map_snd, Relabeling.classObject, Dict.find?_map]
    cases pair.1.methods.find? method.name with
    | none => exact .fail _ _
    | some found =>
      exact .bind (follows_checkAccess _ _ _ _) fun _ => follows_boundMethod found _

private theorem follows_superclassOf (decl : ClassDecl Expr Stmt) :
    Follows labels id (Traced.superclassOf rules decl)
      (Traced.superclassOf rules' (renumberClass labels.ids decl)) := by
  simp only [Traced.superclassOf, renumberClass]
  cases decl.superclass with
  | none => exact .pure id none
  | some parent =>
    refine .bind (follows_readVariable alike parent.id parent.name) fun value => ?_
    cases value with
    | classObject ref => exact .pure id (some ref)
    | _ => exact .fail _ _

private theorem follows_declareClass (decl : ClassDecl Expr Stmt) :
    Follows labels id (declareClass rules decl)
      (declareClass rules' (renumberClass labels.ids decl)) := by
  rw [Traced.declareClass_eq, Traced.declareClass_eq]
  exact .frame fun frame => .bind (follows_superclassOf alike decl) fun superclass =>
    .bind (follows_methodScopeOf superclass frame.scope) fun scope =>
      .bind (f := id) (.add fun _ _ stores => stores.addClass _ _ _ _) fun ref =>
        follows_define _ (.classObject ref)

private theorem follows_applyBuiltin (which : Builtin) (arguments : List Value)
    (position : Position) :
    Follows labels labels.value (applyBuiltin rules which arguments position)
      (applyBuiltin rules' which (arguments.map labels.value) position) := by
  have refuses : Follows labels labels.value
      (Eval.fail position (.arity which.arity arguments.length))
      (Eval.fail position (.arity which.arity (arguments.map labels.value).length)) := by
    rw [List.length_map]
    exact .fail _ _
  have sized (look : Store → Nat)
      (sees : ∀ store store', StoreAlike labels store store' → look store' = look store) :
      Follows labels labels.value
        (Eval.inspect look >>= fun size => pure (.number size.toFloat))
        (Eval.inspect look >>= fun size => pure (.number size.toFloat)) :=
    .bind (f := id) (.inspect sees) fun size => .pure labels.value (.number size.toFloat)
  rcases arguments with _ | ⟨value, _ | ⟨other, _ | ⟨third, rest⟩⟩⟩ <;> cases which <;>
    try exact refuses
  case nil.clock =>
    refine .bind (f := id) (fun machine machine' machines => ?_) fun reading =>
      .pure labels.value (.number reading)
    exact ⟨by rw [alike.clock, machines.ticks]; rfl,
      { machines with ticks := congrArg (· + 1) machines.ticks }⟩
  case cons.nil.len =>
    cases value with
    | text text => exact .pure labels.value (.number text.length.toFloat)
    | array ref =>
      exact sized (fun store => (store.items ref).size) fun _ _ stores => by
        rw [stores.items, Array.size_map]
    | map ref =>
      exact sized (fun store => (store.entries ref).size) fun _ _ stores => by
        rw [stores.entries, Dict.size, Dict.size, Dict.map, List.length_map]
    | _ => exact .fail _ _
  case cons.nil.str =>
    exact .bind (f := id) (.inspect fun _ _ stores => stores.shown value) fun text =>
      .pure labels.value (.text text)
  case cons.nil.typeOf =>
    simp only [List.map_cons, List.map_nil, applyBuiltin, labels.kind_value]
    exact .pure labels.value (.text value.kind.name)
  case cons.cons.nil.push =>
    cases value with
    | array ref =>
      exact .bind (f := id) (.change fun _ _ stores => stores.pushItem ref other) fun _ =>
        sized (fun store => (store.items ref).size) fun _ _ stores => by
          rw [stores.items, Array.size_map]
    | _ => exact .fail _ _
  all_goals cases value <;> exact refuses

end Actions

section Rules

variable {labels : Relabeling} {rules rules' : Rules}

mutual

theorem follows_evaluate (alike : RulesAlike labels.ids rules rules') :
    ∀ steps (expr : Expr), Follows labels labels.value
    (evaluate rules steps expr) (evaluate rules' steps (expr.renumber labels.ids))
  | 0, _ => .exhaust
  | steps + 1, expr => by
    have one := follows_evaluate alike steps
    cases expr <;> rw [Expr.renumber]
    case literal value position =>
      have yields := @Follows.pure _ labels labels.value (.ofLiteral value)
      rw [labels.ofLiteral_value] at yields
      exact yields
    case unary operator operand position =>
      exact .bind (one operand) fun value => .attempt _ (labels.applyUnary_value _ _)
    case binary left operator right position =>
      exact .bind (one left) fun first => .bind (one right) fun second =>
        .attempt _ (labels.applyBinary_value _ _ _)
    case logical left operator right =>
      refine .bind (one left) fun first => ?_
      rw [Expr.position_renumber, labels.truth_value]
      refine .bind (f := id) (.attempt _ (by cases truth first <;> rfl)) fun holds => ?_
      simp only [id]
      split
      · exact .pure labels.value first
      · exact one right
    case group inner => exact one inner
    case reference number name => exact follows_readVariable alike number name
    case assign number name value =>
      exact .bind (one value) fun value =>
        .bind (follows_writeVariable alike number name value) fun _ => .pure labels.value value
    case call callee position arguments =>
      exact .bind (one callee) fun callee => .bind (follows_evaluateAll alike steps arguments)
        fun arguments => follows_call alike steps callee arguments position
    case property object name =>
      refine .bind (one object) fun value => ?_
      cases value with
      | object ref => exact follows_readProperty ref name
      | _ => exact .fail _ _
    case setProperty object name value =>
      refine .bind (one object) fun holder => ?_
      cases holder with
      | object ref =>
        exact .bind (one value) fun value => .bind (follows_writeProperty ref name value) fun _ =>
          .pure labels.value value
      | _ => exact .fail _ _
    case index object key position =>
      exact .bind (one object) fun object => .bind (one key) fun key =>
        .bind (.inspect fun _ _ stores => stores.readIndex object key) fun result => .attempt _ rfl
    case setIndex object key value position =>
      exact .bind (one object) fun object => .bind (one key) fun key => .bind (one value)
        fun value => .bind (follows_assignIndex object key value position) fun _ =>
          .pure labels.value value
    case array elements position =>
      refine .bind (follows_evaluateAll alike steps elements) fun items =>
        .bind (f := id) (.add fun _ _ stores => ?_) fun ref => .pure labels.value (.array ref)
      rw [← List.map_toArray]
      exact stores.addArray items.toArray
    case map entries position =>
      exact .bind (follows_evaluateEntries alike steps entries ∅) fun entries =>
        .bind (f := id) (.add fun _ _ stores => stores.addMap entries) fun ref =>
          .pure labels.value (.map ref)
    case this number position => exact follows_readThis alike number position
    case super number position method => exact follows_readSuper alike number position method
    case lambda decl => exact follows_makeFunction decl

private theorem follows_evaluateAll (alike : RulesAlike labels.ids rules rules') :
    ∀ steps exprs, Follows labels (List.map labels.value)
    (evaluateAll rules steps exprs) (evaluateAll rules' steps (renumberExprs labels.ids exprs))
  | 0, _ => .exhaust
  | _ + 1, [] => .pure (List.map labels.value) []
  | steps + 1, expr :: rest => .bind (follows_evaluate alike steps expr) fun first =>
    .bind (follows_evaluateAll alike steps rest) fun others =>
      .pure (List.map labels.value) (first :: others)

private theorem follows_evaluateShown (alike : RulesAlike labels.ids rules rules') :
    ∀ steps exprs, Follows labels id
    (evaluateShown rules steps exprs) (evaluateShown rules' steps (renumberExprs labels.ids exprs))
  | 0, _ => .exhaust
  | _ + 1, [] => .pure id []
  | steps + 1, expr :: rest => .bind (follows_evaluate alike steps expr) fun value =>
    .bind (f := id) (.inspect fun _ _ stores => stores.shown value) fun first =>
      .bind (follows_evaluateShown alike steps rest) fun others => .pure id (first :: others)

private theorem follows_evaluateEntries (alike : RulesAlike labels.ids rules rules') :
    ∀ steps entries done, Follows labels (Dict.map labels.value)
    (evaluateEntries rules steps entries done)
    (evaluateEntries rules' steps (renumberEntries labels.ids entries) (done.map labels.value))
  | 0, _, _ => .exhaust
  | _ + 1, [], done => .pure (Dict.map labels.value) done
  | steps + 1, (key, value) :: rest, done => by
    refine .bind (follows_evaluate alike steps key) fun name => ?_
    rw [Expr.position_renumber, labels.mapKey_value]
    refine .bind (f := id) (.attempt _ (by cases mapKey name <;> rfl)) fun name =>
      .bind (follows_evaluate alike steps value) fun value => ?_
    rw [← Dict.map_insert]
    exact follows_evaluateEntries alike steps rest _

private theorem follows_evaluateOptional (alike : RulesAlike labels.ids rules rules') :
    ∀ steps expr, Follows labels labels.value
    (evaluateOptional rules steps expr)
    (evaluateOptional rules' steps (renumberOptional labels.ids expr))
  | 0, _ => .exhaust
  | _ + 1, none => .pure labels.value .nil
  | steps + 1, some expr => follows_evaluate alike steps expr

private theorem follows_call (alike : RulesAlike labels.ids rules rules') :
    ∀ steps callee arguments position, Follows labels labels.value
    (call rules steps callee arguments position)
    (call rules' steps (labels.value callee) (arguments.map labels.value) position)
  | 0, _, _, _ => .exhaust
  | steps + 1, callee, arguments, position => by
    cases callee with
    | builtin which =>
      exact .bind (follows_checkArity _ (List.length_map _) position) fun _ =>
        follows_applyBuiltin alike which arguments position
    | function ref =>
      refine .bind (.inspect fun _ _ stores => stores.functions ref) fun found => ?_
      cases found with
      | none => exact .fail _ _
      | some closure => exact follows_callClosure alike steps closure arguments position
    | classObject ref => exact follows_instantiate alike steps ref arguments position
    | _ => exact .fail _ _

private theorem follows_callClosure (alike : RulesAlike labels.ids rules rules') :
    ∀ steps closure arguments position, Follows labels labels.value
    (callClosure rules steps closure arguments position)
    (callClosure rules' steps (labels.closure closure) (arguments.map labels.value) position)
  | 0, _, _, _ => .exhaust
  | steps + 1, closure, arguments, position => by
    rw [callClosure, callClosure, alike.maxDepth]
    simp only [Relabeling.closure, renumberFunction_arity, renumberFunction_name,
      renumberFunction_parameters, renumberFunction_body, labels.bindParameters_value]
    refine .bind (follows_checkArity _ (List.length_map _) position) fun _ =>
      .frame fun caller => ?_
    split
    · exact .fail _ _
    · refine .bind (f := id) (.add fun _ _ stores => stores.addScope _) fun scope => ?_
      exact .bind (.within _ (follows_executeAll alike steps closure.decl.body)) fun flow =>
        follows_callResult closure flow

private theorem follows_instantiate (alike : RulesAlike labels.ids rules rules') :
    ∀ steps ref arguments position, Follows labels labels.value
    (instantiate rules steps ref arguments position)
    (instantiate rules' steps ref (arguments.map labels.value) position)
  | 0, _, _, _ => .exhaust
  | steps + 1, ref, arguments, position => by
    refine .bind (f := Option.map labels.classObject)
      (.inspect fun _ _ stores => by rw [stores.classes, Array.getElem?_map]) fun found => ?_
    have adds : Follows labels id (Eval.add fun store => store.addInstance ref)
        (Eval.add fun store => store.addInstance ref) :=
      .add fun _ _ stores => stores.addInstance ref
    have looks : Follows labels id (Eval.inspect fun store => store.lineage ref)
        (Eval.inspect fun store => store.lineage ref) :=
      .inspect fun _ _ stores => stores.lineage ref
    cases found with
    | none => exact .fail _ _
    | some made =>
      simp only [Option.map_some, labels.arity_classObject]
      refine .bind (follows_checkArity _ (List.length_map _) position) fun _ => ?_
      simp only [Relabeling.classObject, Dict.find?_map]
      cases made.methods.find? constructorName with
      | none =>
        exact .bind adds fun receiver => .bind looks fun lineage =>
          .bind (follows_setUpLineage alike steps lineage receiver) fun _ =>
            .pure labels.value (.object receiver)
      | some constructor =>
        refine .bind (follows_checkAccess _ _ _ _) fun _ => .bind adds fun receiver => ?_
        exact .bind looks fun lineage =>
          .bind (follows_setUpLineage alike steps lineage receiver) fun _ =>
            .bind (follows_bindMethod constructor receiver) fun closure =>
              .bind (follows_callClosure alike steps closure arguments position) fun _ =>
                .pure labels.value (.object receiver)

private theorem follows_setUpLineage (alike : RulesAlike labels.ids rules rules') :
    ∀ steps lineage receiver, Follows labels id
    (setUpLineage rules steps lineage receiver) (setUpLineage rules' steps lineage receiver)
  | 0, _, _ => .exhaust
  | _ + 1, [], _ => .pure id ()
  | steps + 1, ref :: rest, receiver => by
    refine .bind (f := Option.map labels.classObject)
      (.inspect fun _ _ stores => by rw [stores.classes, Array.getElem?_map]) fun found => ?_
    cases found with
    | none => exact follows_setUpLineage alike steps rest receiver
    | some found =>
      exact .frame fun caller => .bind
        (.within _ (follows_setUpFields alike steps found.decl.fields receiver))
        fun _ => follows_setUpLineage alike steps rest receiver

private theorem follows_setUpFields (alike : RulesAlike labels.ids rules rules') :
    ∀ steps fields receiver, Follows labels id
    (setUpFields rules steps fields receiver)
    (setUpFields rules' steps (renumberFields labels.ids fields) receiver)
  | 0, _, _ => .exhaust
  | _ + 1, [], _ => .pure id ()
  | steps + 1, field :: rest, receiver =>
    .bind (follows_evaluateOptional alike steps field.initial) fun value =>
      .bind (.change fun _ _ stores => stores.setField _ _ value) fun _ =>
        follows_setUpFields alike steps rest receiver

private theorem follows_execute (alike : RulesAlike labels.ids rules rules') :
    ∀ steps (stmt : Stmt), Follows labels labels.flow
    (execute rules steps stmt) (execute rules' steps (stmt.renumber labels.ids))
  | 0, _ => .exhaust
  | steps + 1, stmt => by
    have yields := @Follows.pure _ labels labels.flow .normal
    cases stmt <;> rw [Stmt.renumber]
    case expression value => exact .bind (follows_evaluate alike steps value) fun _ => yields
    case print keyword values =>
      exact .bind (follows_evaluateShown alike steps values) fun texts =>
        .bind (.emit _) fun _ => yields
    case var name typeHint initial =>
      exact .bind (follows_evaluateOptional alike steps initial) fun value =>
        .bind (follows_define name.name value) fun _ => yields
    case block body =>
      exact .bind follows_innerScope fun scope =>
        .withinScope scope (follows_executeAll alike steps body)
    case branch condition whenTrue whenFalse =>
      refine .bind (follows_evaluate alike steps condition) fun value => ?_
      rw [Expr.position_renumber, labels.truth_value]
      refine .bind (f := id) (.attempt _ (by cases truth value <;> rfl)) fun holds => ?_
      simp only [id]
      split
      · exact follows_execute alike steps whenTrue
      · exact follows_executeOptional alike steps whenFalse
    case loop condition body => exact follows_repeatLoop alike steps (some condition) none body
    case countedLoop initial condition increment body =>
      exact .bind follows_innerScope fun scope => .withinScope scope
        (follows_runLoop alike steps initial condition increment body)
    case function decl =>
      refine .bind (follows_makeFunction decl) fun value => ?_
      rw [renumberFunction_name]
      exact .bind (follows_define decl.name.name value) fun _ => yields
    case returnValue keyword value =>
      exact .bind (follows_evaluateOptional alike steps value) fun value =>
        .pure labels.flow (.returned value)
    case breakLoop keyword => exact .pure labels.flow .broken
    case continueLoop keyword => exact .pure labels.flow .continued
    case classDecl decl => exact .bind (follows_declareClass alike decl) fun _ => yields

private theorem follows_executeAll (alike : RulesAlike labels.ids rules rules') :
    ∀ steps stmts, Follows labels labels.flow
    (executeAll rules steps stmts) (executeAll rules' steps (renumberStmts labels.ids stmts))
  | 0, _ => .exhaust
  | _ + 1, [] => .pure labels.flow .normal
  | steps + 1, stmt :: rest => .bind (follows_execute alike steps stmt) fun flow => by
    cases flow with
    | normal => exact follows_executeAll alike steps rest
    | _ => exact .pure labels.flow _

private theorem follows_executeOptional (alike : RulesAlike labels.ids rules rules') :
    ∀ steps stmt, Follows labels labels.flow
    (executeOptional rules steps stmt)
    (executeOptional rules' steps (renumberOptionalStmt labels.ids stmt))
  | 0, _ => .exhaust
  | _ + 1, none => .pure labels.flow .normal
  | steps + 1, some stmt => follows_execute alike steps stmt

private theorem follows_runLoop (alike : RulesAlike labels.ids rules rules') :
    ∀ steps initial condition increment (body : Stmt),
    Follows labels labels.flow (runLoop rules steps initial condition increment body)
      (runLoop rules' steps (renumberOptionalStmt labels.ids initial)
        (renumberOptional labels.ids condition) (renumberOptional labels.ids increment)
        (body.renumber labels.ids))
  | 0, _, _, _, _ => .exhaust
  | steps + 1, initial, condition, increment, body =>
    .bind (follows_executeOptional alike steps initial) fun _ =>
      follows_repeatLoop alike steps condition increment body

private theorem follows_repeatLoop (alike : RulesAlike labels.ids rules rules') :
    ∀ steps condition increment (body : Stmt),
    Follows labels labels.flow (repeatLoop rules steps condition increment body)
      (repeatLoop rules' steps (renumberOptional labels.ids condition)
        (renumberOptional labels.ids increment) (body.renumber labels.ids))
  | 0, _, _, _ => .exhaust
  | steps + 1, condition, increment, body => by
    refine .bind (follows_loopCondition alike steps condition) fun holds => ?_
    simp only [id]
    split
    · refine .bind (follows_execute alike steps body) fun flow => ?_
      cases flow with
      | broken => exact .pure labels.flow .normal
      | returned value => exact .pure labels.flow (.returned value)
      | _ =>
        exact .bind (follows_evaluateOptional alike steps increment) fun _ =>
          follows_repeatLoop alike steps condition increment body
    · exact .pure labels.flow .normal

private theorem follows_loopCondition (alike : RulesAlike labels.ids rules rules') :
    ∀ steps condition, Follows labels id
    (loopCondition rules steps condition)
    (loopCondition rules' steps (renumberOptional labels.ids condition))
  | 0, _ => .exhaust
  | _ + 1, none => .pure id true
  | steps + 1, some condition => by
    refine .bind (follows_evaluate alike steps condition) fun value => ?_
    rw [Expr.position_renumber, labels.truth_value]
    exact .attempt _ (by cases truth value <;> rfl)

end

theorem follows_interpret (alike : RulesAlike labels.ids rules rules') (steps : Nat)
    (program : List Stmt) :
    Follows labels id (interpret rules steps program)
      (interpret rules' steps (renumberStmts labels.ids program)) := by
  induction program with
  | nil => exact .pure id ()
  | cons stmt rest ih => exact .bind (follows_execute alike steps stmt) fun _ => ih

end Rules

end Run

end ClassScript
