import ClassScript.Proofs.RunContracts

/-!
The single actions that evaluation consists of: what each keeps up, what it yields, and where the
machine stands afterwards.
-/

set_option autoImplicit false

namespace ClassScript.Run

def Fair {α : Type} (holds : α → Prop) : Except RuntimeFault α → Prop
  | .ok value => holds value
  | .error fault => Innocent fault

theorem fair_truth (value : Value) : Fair (fun _ => True) (truth value) := by
  cases value <;> simp [truth, Fair, Innocent]

theorem fair_mapKey (value : Value) : Fair (fun _ => True) (mapKey value) := by
  cases value <;> simp [mapKey, Fair, Innocent]

private theorem fair_slot (value : Value) (length : Nat) :
    Fair (fun _ => True) (slot value length) := by
  unfold slot
  split
  · split
    · split <;> simp [Fair, Innocent]
    · simp [Fair, Innocent]
  · simp [Fair, Innocent]

variable {store : Store} {watch : Watch}

private theorem fine_iff {value : Value} :
    Fine watch store value ↔ Known store value ∧ Whole watch store value :=
  ⟨fun fine => ⟨fine.known, fine.whole⟩, fun both => ⟨both.1, both.2⟩⟩

theorem fair_applyUnary (watch : Watch) (store : Store) (operator : UnaryOp) (operand : Value) :
    Fair (Fine watch store) (applyUnary operator operand) := by
  cases operator with
  | not =>
    have fair := fair_truth operand
    unfold applyUnary
    cases result : truth operand with
    | ok holds => exact ⟨trivial, trivial⟩
    | error fault => simpa [result, Except.map, Fair] using fair
  | negate => cases operand <;> simp [applyUnary, Fair, Innocent, fine_iff, Known, Whole]

private theorem fair_applyNumbers (watch : Watch) (store : Store) (operator : BinaryOp)
    (a b : Float) : Fair (Fine watch store) (applyNumbers operator a b) := by
  cases operator <;> unfold applyNumbers <;>
    first
      | exact ⟨trivial, trivial⟩
      | (simp only; split <;> simp [Fair, Innocent, fine_iff, Known, Whole])

theorem fair_applyBinary (watch : Watch) (store : Store) (operator : BinaryOp)
    (left right : Value) : Fair (Fine watch store) (applyBinary operator left right) := by
  unfold applyBinary
  split
  · exact ⟨trivial, trivial⟩
  · exact ⟨trivial, trivial⟩
  split
  · exact fair_applyNumbers watch store operator _ _
  split
  · split
    · exact ⟨trivial, trivial⟩
    · simp [Fair, Innocent]
  split
  · split
    · exact ⟨trivial, trivial⟩
    · simp [Fair, Innocent]
  · simp [Fair, Innocent]

theorem fair_readIndex (all : ∀ value, Holds store value → Fine watch store value)
    (object index : Value) : Fair (Fine watch store) (readIndex store object index) := by
  cases object with
  | array ref =>
    have fair := fair_slot index (store.items ref).size
    simp only [readIndex, bind, Except.bind]
    cases result : slot index (store.items ref).size with
    | error fault => simpa [result, Fair] using fair
    | ok n =>
      simp only [Fair]
      cases stored : (store.items ref)[n]? with
      | none => exact ⟨trivial, trivial⟩
      | some value => exact all value (.item stored)
  | map ref =>
    have fair := fair_mapKey index
    simp only [readIndex, bind, Except.bind]
    cases result : mapKey index with
    | error fault => simpa [result, Fair] using fair
    | ok key =>
      simp only
      cases stored : (store.entries ref).find? key with
      | none => simp [Fair, Innocent]
      | some value => exact all value (.entry stored)
  | text text =>
    have fair := fair_slot index text.toList.length
    simp only [readIndex, bind, Except.bind]
    cases result : slot index text.toList.length with
    | error fault => simpa [result, Fair] using fair
    | ok n => exact ⟨trivial, trivial⟩
  | _ => simp [readIndex, Fair, Innocent]

private theorem fair_findPlace (store : Store) (object index : Value) :
    Fair (fun _ => True) (findPlace store object index) := by
  cases object with
  | array ref =>
    have fair := fair_slot index (store.items ref).size
    simp only [findPlace, bind, Except.bind]
    cases result : slot index (store.items ref).size with
    | error fault => simpa [result, Fair] using fair
    | ok n => trivial
  | map ref =>
    have fair := fair_mapKey index
    simp only [findPlace, bind, Except.bind]
    cases result : mapKey index with
    | error fault => simpa [result, Fair] using fair
    | ok key => trivial
  | _ => simp [findPlace, Fair, Innocent]

section Actions

variable {text : Site → Prop} {terms : Terms} {notes : Notes} {machine : Machine} {spot : Spot}
  {value : Value}

def FineValue (watch : Watch) (value : Value) (_ : Notes) (machine : Machine) : Prop :=
  Fine watch machine.store value

theorem fares_attempt {α : Type} {result : Except RuntimeFault α} {holds : α → Prop}
    (upheld : Upheld text terms notes machine) (position : Position) (fair : Fair holds result) :
    Fares text terms notes machine (Traced.lift (Eval.attempt position result)) fun value _ _ =>
      holds value := by
  cases result with
  | ok value => exact .pure upheld fair
  | error fault => exact .fail upheld position fair

theorem fares_apply {result : Except RuntimeFault Value} (upheld : Upheld text terms notes machine)
    (position : Position) (fair : Fair (Fine terms.watch machine.store) result) :
    Fares text terms notes machine (Traced.lift (Eval.attempt position result))
      (FineValue terms.watch) := by
  cases result with
  | ok value => exact .pure upheld fair
  | error fault => exact .fail upheld position fair

variable {depth : Nat} {name : String} {store : Store} {id : RefId} {position : Position}
  {rules : Rules} {found : ClassObject} {receiver : InstanceRef}

theorem Upheld.fine_getAt? (upheld : Upheld text terms notes machine) {ref : ScopeRef}
    (bound : machine.store.getAt? ref depth name = some value) :
    Fine terms.watch machine.store value := by
  unfold Store.getAt? at bound
  split at bound
  · exact upheld.fine (.scope bound)
  · simp at bound

theorem fares_readVariable (rules : Rules) (upheld : Upheld text terms notes machine)
    (id : RefId) (name : Identifier) :
    Fares text terms notes machine (Traced.lift (readVariable rules id name))
      (FineValue terms.watch) := by
  simp only [readVariable, Traced.lift_bind]
  refine .frame upheld (.inspect upheld ?_)
  split
  · rename_i value bound
    refine .pure upheld ?_
    split at bound
    · exact upheld.fine_getAt? bound
    · exact upheld.fine (.scope bound)
  · exact .fail upheld name.position (by simp [Innocent])

theorem exists_define_of_assignAt? {ref : ScopeRef} {store' : Store}
    (written : store.assignAt? ref depth name value = some store') :
    ∃ target, (store.getHere? target name).isSome ∧ store' = store.define target name value := by
  simp only [Store.assignAt?, Store.holder?] at written
  cases found : store.ancestor? ref depth with
  | none => simp [found] at written
  | some target =>
    by_cases held : (store.getHere? target name).isSome = true
    · simp only [found, if_pos held, Option.some.injEq] at written
      exact ⟨target, held, written.symm⟩
    · simp [found, if_neg held] at written

theorem fares_writeVariable (rules : Rules) (upheld : Upheld text terms notes machine)
    (id : RefId) {name : Identifier} (plain : PlainName name.name)
    (fine : Fine terms.watch machine.store value) :
    Fares text terms notes machine (Traced.lift (writeVariable rules id name value)) Anything := by
  simp only [writeVariable, Traced.lift_bind]
  refine .frame upheld (.inspect upheld ?_)
  split
  · rename_i store written
    obtain ⟨target, bound, rfl⟩ : ∃ target, (machine.store.getHere? target name.name).isSome ∧
        store = machine.store.define target name.name value := by
      split at written <;> exact exists_define_of_assignAt? written
    exact .one rfl rfl ⟨kept_define upheld.coherent plain fine.known target,
      fared_define upheld.tended plain fine.whole (.inr bound)⟩ trivial
  · exact .fail upheld name.position (by simp [Innocent])

theorem fares_checkAccess (upheld : Upheld text terms notes machine) (member : Member)
    (what : MemberKind) (name : String) (position : Position) :
    Fares text terms notes machine (Traced.lift (checkAccess member what name position))
      Anything := by
  simp only [checkAccess, Traced.lift_bind]
  refine .frame upheld (.inspect upheld ?_)
  split
  · exact .pure upheld trivial
  · rw [Traced.lift_bind]
    exact .inspect upheld (.fail upheld position (by simp [Innocent]))

private theorem fares_checkField (upheld : Upheld text terms notes machine) (member : Option Member)
    (name : Identifier) :
    Fares text terms notes machine (Traced.lift (checkField member name)) Anything := by
  cases member with
  | some member => exact fares_checkAccess upheld member .field name.name name.position
  | none => exact .pure upheld trivial

theorem Whole.reach {ref : InstanceRef} (fair : terms.Fair)
    (whole : Whole terms.watch store (.object ref)) : ¬terms.kept ref := by
  intro keep
  obtain ⟨on, hides⟩ := fair ref keep
  exact (whole on).1 hides

theorem fares_writeProperty (upheld : Upheld text terms notes machine) (fair : terms.Fair)
    {ref : InstanceRef} (name : Identifier) (whole : Whole terms.watch machine.store (.object ref))
    (fine : Fine terms.watch machine.store value) :
    Fares text terms notes machine (Traced.lift (writeProperty ref name value)) Anything := by
  simp only [writeProperty, Traced.lift_bind]
  refine .inspect upheld ?_
  refine (fares_checkField upheld _ name).bind fun _ notes' machine' passed _ => ?_
  have fine := passed.fine upheld fine
  exact .one rfl rfl ⟨kept_setField passed.coherent fine.known ref name.name,
    fared_setField passed.tended (whole.reach fair) name.name fine.whole⟩ trivial

theorem fares_assignIndex (upheld : Upheld text terms notes machine) (object index : Value)
    (position : Position) (fine : Fine terms.watch machine.store value) :
    Fares text terms notes machine (Traced.lift (assignIndex object index value position))
      Anything := by
  simp only [assignIndex, Traced.lift_bind]
  refine .inspect upheld ?_
  have fair := fair_findPlace machine.store object index
  refine (fares_attempt upheld position fair).bind fun place notes' machine' passed _ => ?_
  have fine := passed.fine upheld fine
  exact .one rfl rfl ⟨kept_put passed.coherent fine.known place,
    fared_put passed.tended place fine.whole⟩ trivial

theorem fares_checkArity (upheld : Upheld text terms notes machine) (expected got : Nat)
    (position : Position) :
    Fares text terms notes machine (Traced.lift (checkArity expected got position)) fun _ _ _ =>
      expected = got := by
  unfold checkArity
  split
  · rename_i same
    exact .pure upheld same
  · exact .fail upheld position (by simp [Innocent])

theorem Upheld.passed_same {machine' : Machine} (upheld : Upheld text terms notes machine)
    (store : machine'.store = machine.store) (frame : machine'.frame = machine.frame) :
    Passed text terms notes machine notes machine' := by
  have scene : notes.scene machine' = notes.scene machine := by simp only [Notes.scene, store]
  refine ⟨⟨?_, ?_, frame⟩, ?_⟩
  · rw [store]
    exact upheld.coherent
  · rw [store]
    exact .refl _ _
  · rw [scene]
    exact .refl upheld.tended

theorem fares_applyBuiltin (rules : Rules) (upheld : Upheld text terms notes machine)
    (which : Builtin) {arguments : List Value}
    (fine : ∀ value ∈ arguments, Fine terms.watch machine.store value) (position : Position) :
    Fares text terms notes machine (Traced.lift (applyBuiltin rules which arguments position))
      (FineValue terms.watch) := by
  unfold applyBuiltin
  split
  · have ticked :
        Passed text terms notes machine notes { machine with ticks := machine.ticks + 1 } :=
      upheld.passed_same rfl rfl
    rw [Traced.lift_bind]
    exact .step rfl rfl ticked (.pure ticked.upheld ⟨trivial, trivial⟩)
  · exact .pure upheld ⟨trivial, trivial⟩
  · rw [Traced.lift_bind]
    exact .inspect upheld (.pure upheld ⟨trivial, trivial⟩)
  · rw [Traced.lift_bind]
    exact .inspect upheld (.pure upheld ⟨trivial, trivial⟩)
  · exact .fail upheld position (by simp [Innocent])
  · rw [Traced.lift_bind]
    exact .inspect upheld (.pure upheld ⟨trivial, trivial⟩)
  · rename_i ref value
    have new := fine value (by simp)
    have passed : Passed text terms notes machine notes
        { machine with store := machine.store.pushItem ref value } :=
      ⟨kept_pushItem upheld.coherent new.known ref, fared_pushItem upheld.tended ref new.whole⟩
    simp only [Traced.lift_bind]
    exact .step rfl rfl passed
      (.inspect passed.upheld (.pure passed.upheld ⟨trivial, trivial⟩))
  · exact .fail upheld position (by simp [Innocent])
  · exact .pure upheld ⟨trivial, trivial⟩
  · exact .fail upheld position (by simp [Innocent])

theorem fares_emit (upheld : Upheld text terms notes machine) (line : String) :
    Fares text terms notes machine (Traced.lift (Eval.emit line)) Anything := by
  have passed (sink : Sink) : Passed text terms notes machine notes { machine with sink } :=
    upheld.passed_same rfl rfl
  unfold Fares Traced.lift Eval.emit
  split
  · exact ⟨[], rfl, .nil _ _ _, .nil _, passed _, trivial⟩
  · exact ⟨[], rfl, .nil _ _ _, .nil _, passed _, trivial⟩

theorem fares_callResult (upheld : Upheld text terms notes machine) (closure : Closure)
    {flow : Flow} (fine : ∀ value, flow = .returned value → Fine terms.watch machine.store value) :
    Fares text terms notes machine (Traced.lift (callResult closure flow))
      (FineValue terms.watch) := by
  unfold callResult
  split
  · refine .one rfl rfl (.refl upheld) ?_
    simp only [FineValue]
    cases bound : machine.store.getHere? closure.scope Store.thisName with
    | none => exact ⟨trivial, trivial⟩
    | some value => exact upheld.fine (.scope bound)
  · cases flow with
    | returned value => exact .pure upheld (fine value rfl)
    | _ => exact .pure upheld ⟨trivial, trivial⟩

theorem Standing.getAt? {origins : Array (Option Construct)}
    (standing : Standing origins machine spot) {ref : ScopeRef}
    (layer : spot.trail[depth]? = some ref) (name : String) :
    machine.store.getAt? machine.frame.scope depth name = machine.store.getHere? ref name := by
  rw [Store.getAt?, standing.scope, standing.fits.chained.ancestor layer]

theorem fares_readThis (poised : Poised text terms notes machine spot)
    (sound : Site.Sound rules.depths ⟨spot.nesting, .expr (.this id position)⟩) :
    Fares text terms notes machine (Traced.lift (readThis rules id position))
      (FineValue terms.watch) := by
  obtain ⟨depth, ref, receiver, address, layer, bound⟩ :=
    poised.standing.fits.this_bound sound.proper.1 sound.placed
  have recorded : rules.depths.find? id = some depth := (sound.recorded id _ rfl).trans address
  simp only [readThis, Traced.lift_bind]
  refine .frame poised.toUpheld (.inspect poised.toUpheld ?_)
  rw [recorded, Option.bind_some, poised.standing.getAt? layer, bound]
  exact .pure poised.toUpheld (poised.fine (.scope bound))

theorem mem_methodsSites {nesting : Nesting} {methods : List (MethodDecl Stmt)}
    {method : MethodDecl Stmt} (isMethod : method ∈ methods) {site : Site}
    (member : site ∈ functionSites nesting method.function) :
    site ∈ methodsSites nesting methods := by
  induction methods with
  | nil => simp at isMethod
  | cons first rest ih =>
    rw [methodsSites, List.mem_append]
    rcases List.mem_cons.mp isMethod with rfl | later
    · exact .inl member
    · exact .inr (ih later)

theorem Coherent.noted_class (coherent : Coherent text notes store) {ref : Nat}
    (stored : store.classes[ref]? = some found) :
    ∃ note, notes.classes[ref]? = some note ∧ ClassFits text notes.origins store found note := by
  have inside : ref < notes.classes.size := by
    rw [coherent.classes_size]
    exact (Array.getElem?_eq_some_iff.mp stored).1
  exact ⟨notes.classes[ref], Array.getElem?_eq_getElem inside,
    coherent.classes ref found _ stored (Array.getElem?_eq_getElem inside)⟩

theorem Coherent.noted_function (coherent : Coherent text notes store) {ref : Nat}
    {closure : Closure} (stored : store.functions[ref]? = some closure) :
    ClosureFits text notes.origins store closure (notes.functionSpot ref) := by
  have inside : ref < notes.functions.size := by
    rw [coherent.functions_size]
    exact (Array.getElem?_eq_some_iff.mp stored).1
  have noted := Array.getElem?_eq_getElem inside
  rw [Notes.functionSpot, noted]
  exact coherent.functions ref closure _ stored noted

def receiverScope (closure : Closure) (receiver : InstanceRef) : Scope :=
  { bindings := Dict.empty.insert Store.thisName (.object receiver)
    enclosing := some closure.scope }

theorem getHere?_bindMethod (store : Store) (closure : Closure) (receiver : InstanceRef) :
    (store.bindMethod closure receiver).2.getHere? store.scopes.size Store.thisName =
      some (.object receiver) := by
  change (store.addScope (receiverScope closure receiver)).2.getHere? _ _ = _
  rw [getHere?_addScope, if_pos rfl]
  exact Dict.find?_insert_self _ _ _

private theorem fine_receiverScope {watch : Watch} (closure : Closure)
    (whole : Whole watch store (.object receiver)) (name : String) (value : Value)
    (bound : (receiverScope closure receiver).bindings.find? name = some value) :
    Fine watch store value := by
  rw [receiverScope, Dict.find?_insert] at bound
  split at bound
  · obtain rfl : Value.object receiver = value := by simpa using bound
    exact ⟨trivial, whole⟩
  · simp at bound

theorem passed_addScope (upheld : Upheld text terms notes machine) {origin : Option Construct}
    {scope : Scope} (other : ∀ decl, origin ≠ some (.superclass decl))
    (fine : ∀ name value, scope.bindings.find? name = some value →
      Fine terms.watch machine.store value) :
    Passed text terms notes machine (notes.addOrigin origin)
      { machine with store := (machine.store.addScope scope).2 } :=
  ⟨kept_addScope upheld.coherent origin fun name value bound => (fine name value bound).known,
    fared_addScope upheld.tended other fun name value bound => (fine name value bound).whole⟩

private theorem receiver?_ne_superclass (notes : Notes) (owner : ClassRef)
    (decl : ClassDecl Expr Stmt) : notes.receiver? owner ≠ some (.superclass decl) := by
  unfold Notes.receiver?
  cases notes.classes[owner]? <;> simp

theorem exists_of_classOf? {ref : InstanceRef} (known : store.classOf? ref = some found) :
    ∃ classRef : Nat, store.classes[classRef]? = some found := by
  unfold Store.classOf? at known
  split at known
  · exact ⟨_, known⟩
  · simp at known

section Bound

variable (upheld : Upheld text terms notes machine) {ref : Nat} {method : Method}
  (stored : machine.store.classes[ref]? = some found)
  (lookup : found.methods.find? name = some method)
  (whole : Whole terms.watch machine.store (.object receiver))

include upheld stored lookup whole

theorem fares_bindMethod :
    Fares text terms notes machine (Traced.bindMethod method receiver) fun closure notes' after =>
      ClosureFits text notes'.origins after.store closure
        (notes'.methodSpot method.member.owner closure.scope) := by
  have coherent := upheld.coherent
  obtain ⟨sameOwner, owner, ownerStored, decl, isMethod, -, -, isFunction⟩ :=
    coherent.tables.methods ref found name method stored lookup
  obtain ⟨note, noted, classFits⟩ := coherent.noted_class ownerStored
  have scope := coherent.methods ref found name method note stored lookup noted
  have origin : notes.receiver? method.member.owner = some (.receiver owner.decl) := by
    rw [Notes.receiver?, noted, Option.map_some, classFits.decl]
  have passed := passed_addScope upheld (receiver?_ne_superclass notes method.member.owner)
    (fine_receiverScope method.closure whole)
  have home : (notes.addOrigin (notes.receiver? method.member.owner)).methodSpot
      method.member.owner machine.store.scopes.size =
      { nesting := .methods owner.decl note.spot.nesting
        trail := machine.store.scopes.size :: note.methodTrail } := by
    have noted' : (notes.addOrigin (notes.receiver? method.member.owner)).classes[
      method.member.owner]? = some note := noted
    simp only [Notes.methodSpot, noted', classFits.decl]
  have made : MadeFor (notes.addOrigin (some (.receiver owner.decl))).origins
      (machine.store.addScope (receiverScope method.closure receiver)).2 (.receiver owner.decl)
      machine.store.scopes.size note.methodTrail :=
    madeFor_addScope coherent _ (congrArg some scope)
  rw [← origin] at made
  have bound := getHere?_bindMethod machine.store method.closure receiver
  refine .one rfl rfl passed ?_
  rw [home]
  refine ⟨⟨_, _, receiver, rfl, made, bound, classFits.methods.grow passed.grows fun _ outer =>
    outer.grow passed.grows⟩, rfl, ?_, ?_, fun _ => ⟨receiver, bound⟩⟩
  · exact ⟨method.member.owner, owner, sameOwner, ownerStored, rfl⟩
  · intro site member
    exact classFits.methodSites site (mem_methodsSites isMethod (isFunction ▸ member))

private theorem fares_boundMethod :
    Fares text terms notes machine (Traced.boundMethod method receiver)
      (FineValue terms.watch) := by
  refine (fares_bindMethod upheld stored lookup whole).bind
    fun closure notes' machine' passed fits => ?_
  refine .one rfl rfl ⟨kept_addFunction passed.coherent fits, fared_addFunction passed.tended _⟩ ?_
  exact ⟨by simp [Known], trivial⟩

end Bound

theorem fares_readProperty (upheld : Upheld text terms notes machine) {ref : InstanceRef}
    (name : Identifier) (whole : Whole terms.watch machine.store (.object ref)) :
    Fares text terms notes machine (Traced.readProperty ref name) (FineValue terms.watch) := by
  refine .inspect upheld (.inspect upheld ?_)
  cases set : machine.store.getField? ref name.name with
  | some value =>
    refine (fares_checkField upheld _ name).bind fun _ notes' machine' passed _ => ?_
    exact .pure passed.upheld (passed.fine upheld (upheld.fine (.field set)))
  | none =>
    cases lookup : (machine.store.classOf? ref).bind fun found =>
        found.methods.find? name.name with
    | some method =>
      obtain ⟨found, known, lookup⟩ := Option.bind_eq_some_iff.mp lookup
      obtain ⟨classRef, stored⟩ := exists_of_classOf? known
      refine (fares_checkAccess upheld _ _ _ _).bind fun _ notes' machine' passed _ => ?_
      exact fares_boundMethod passed.upheld (passed.grows.classes _ _ stored) lookup
        (whole.changed upheld.tended passed.changed)
    | none => exact .fail upheld name.position (by simp [Innocent])

theorem fares_readSuper (poised : Poised text terms notes machine spot) {method : Identifier}
    (sound : Site.Sound rules.depths ⟨spot.nesting, .expr (.super id position method)⟩) :
    Fares text terms notes machine (Traced.readSuper rules id position method)
      (FineValue terms.watch) := by
  obtain ⟨depth, ref, above, receiver, parentRef, address, layer, bound, layer', bound', valid⟩ :=
    poised.standing.fits.super_bound sound.proper.1 sound.placed
  have recorded : rules.depths.find? id = some (depth + 1) :=
    (sound.recorded id _ rfl).trans address
  have stored := Array.getElem?_eq_getElem valid
  have pair : superPair machine.store machine.frame.scope (depth + 1) =
      some (machine.store.classes[parentRef], receiver) := by
    simp only [superPair, poised.standing.getAt? layer, poised.standing.getAt? layer', bound,
      bound', stored]
  have upheld := poised.toUpheld
  refine .frame upheld (.inspect upheld ?_)
  simp only [recorded, Option.bind_some, pair]
  cases lookup : machine.store.classes[parentRef].methods.find? method.name with
  | none => exact .fail upheld method.position (by simp [Innocent])
  | some found =>
    refine (fares_checkAccess upheld _ _ _ _).bind fun _ notes' machine' passed _ => ?_
    exact fares_boundMethod passed.upheld (passed.grows.classes _ _ stored) lookup
      (passed.fine upheld (upheld.fine (.scope bound))).whole

private theorem isSome_define (standing : Standing notes.origins machine spot)
    (coherent : Coherent text notes machine.store) (name : String) (value : Value) :
    ((machine.store.define machine.frame.scope name value).getHere? machine.frame.scope
      name).isSome := by
  obtain ⟨scope, stored⟩ := Ready.scope_exists ⟨coherent, standing⟩
  rw [getHere?_define, if_pos ⟨rfl, rfl, (Array.getElem?_eq_some_iff.mp stored).1⟩]
  rfl

section

variable (poised : Poised text terms notes machine spot)

include poised

theorem fares_completeVariable (plain : PlainName name)
    (fine : Fine terms.watch machine.store value) (opened : terms.opened machine.frame.scope name)
    {spot' : Spot} (trail : spot'.trail = spot.trail)
    (nesting : spot'.nesting = (spot.nesting.declare name).define name) :
    Fares text terms notes machine (Traced.completeVariable name value) fun _ notes' after =>
      Standing notes'.origins after spot' ∧
        (after.store.getHere? machine.frame.scope name).isSome :=
  .one rfl rfl ⟨kept_addCompleted poised.ready plain fine.known,
    fared_define poised.tended plain fine.whole (.inl opened)⟩
    ⟨poised.standing.defined plain value trail nesting,
      isSome_define poised.standing poised.coherent name value⟩

theorem fares_innerScope (body : Body) :
    Fares text terms notes machine (Traced.innerScope body) fun scope notes' after =>
      scope = machine.store.scopes.size ∧
        Standing notes'.origins { after with frame := { after.frame with scope } }
          (spot.enter body ∅ scope) := by
  have standing := poised.standing
  have passed : Passed text terms notes machine (notes.addOrigin (some (.body body)))
      { machine with
        store := (machine.store.addScope
          { bindings := ∅, enclosing := some machine.frame.scope }).2 } :=
    passed_addScope poised.toUpheld (by simp) (by simp)
  have made : MadeFor (notes.addOrigin (some (.body body))).origins
      (machine.store.addScope { bindings := ∅, enclosing := some machine.frame.scope }).2
      (.body body) machine.store.scopes.size spot.trail :=
    madeFor_addScope poised.coherent _ (congrArg some standing.scope)
  refine .one rfl rfl passed ⟨rfl, ?_⟩
  refine ⟨⟨_, _, rfl, made, ?_, standing.fits.grow passed.grows⟩, rfl,
    standing.owner.grow passed.grows⟩
  intro name complete
  simp at complete

theorem fares_makeFunction
    {decl : FunctionDecl Stmt} (sites : Covered text (functionSites spot.nesting decl)) :
    Fares text terms notes machine (Traced.makeFunction spot decl) (FineValue terms.watch) := by
  have fits : ClosureFits text notes.origins machine.store
      { decl, scope := machine.frame.scope, isInitializer := false,
        owner := machine.frame.classRef } spot :=
    ⟨poised.standing.fits, poised.standing.scope, poised.standing.owner, sites, by simp⟩
  exact .one rfl rfl ⟨kept_addFunction poised.coherent fits, fared_addFunction poised.tended _⟩
    ⟨by simp [Known], trivial⟩

theorem fares_declareFunction {decl : FunctionDecl Stmt} (plain : PlainName decl.name.name)
    (sites : Covered text (functionSites (spot.nesting.past (.function decl)) decl))
    (opened : terms.opened machine.frame.scope decl.name.name) :
    Fares text terms notes machine (do
      let value ← Traced.makeFunction (spot.past (.function decl)) decl
      Traced.lift (Eval.define decl.name.name value)) fun _ notes' after =>
      Standing notes'.origins after (spot.past (.function decl)) ∧
        (after.store.getHere? machine.frame.scope decl.name.name).isSome := by
  -- the function fits only once its name is there, and the name can mean it only once it is made,
  -- so take the name to mean something else first
  have unset : Known machine.store .nil := trivial
  have blank := kept_define poised.coherent plain unset machine.frame.scope
  have standing : Standing notes.origins _ (spot.past (.function decl)) :=
    poised.standing.defined plain .nil rfl rfl
  have fits : ClosureFits text notes.origins
      (machine.store.define machine.frame.scope decl.name.name .nil)
      { decl, scope := machine.frame.scope, isInitializer := false,
        owner := machine.frame.classRef } (spot.past (.function decl)) :=
    ⟨standing.fits, standing.scope, standing.owner, sites, by simp⟩
  have added := kept_addFunction blank.coherent fits
  have known (closure : Closure) : Known ((machine.store.define machine.frame.scope
      decl.name.name .nil).addFunction closure).2 (.function machine.store.functions.size) := by
    simp [Known, Store.addFunction, Store.define]
  have named := kept_define added.coherent plain (known _) machine.frame.scope
  have standing := standing.grow (added.trans named).grows rfl
  have kept := blank.trans (added.trans named)
  rw [addFunction_define, define_define] at kept standing
  have made := fared_addFunction poised.tended
    { decl, scope := machine.frame.scope, isInitializer := false, owner := machine.frame.classRef }
  have whole (store : Store) :
      Whole terms.watch store (.function machine.store.functions.size) := trivial
  have defined := fared_define made.tended plain (whole _) (.inl opened)
  exact .one rfl rfl ⟨kept, made.trans defined⟩
    ⟨standing, isSome_define poised.standing poised.coherent decl.name.name _⟩

end

private theorem fares_superclassOf (rules : Rules) (upheld : Upheld text terms notes machine)
    (decl : ClassDecl Expr Stmt) :
    Fares text terms notes machine (Traced.lift (Traced.superclassOf rules decl))
      fun superclass _ after => superclass.isSome = decl.superclass.isSome ∧
        ∀ ref : Nat, superclass = some ref → ref < after.store.classes.size := by
  unfold Traced.superclassOf
  cases decl.superclass with
  | none => exact .pure upheld ⟨rfl, by simp⟩
  | some parent =>
    simp only [Traced.lift_bind]
    refine (fares_readVariable rules upheld parent.id parent.name).bind
      fun value notes' machine' passed fine => ?_
    cases value with
    | classObject ref =>
      refine .pure passed.upheld ⟨rfl, ?_⟩
      rintro _ ⟨⟩
      exact fine.known
    | _ => exact .fail passed.upheld parent.name.position (by simp [Innocent])

private theorem known_superclassScope {parent : ClassRef} (valid : parent < store.classes.size)
    (outer : ScopeRef) (name : String) (value : Value)
    (bound : (superclassScope parent outer).bindings.find? name = some value) :
    Known store value := by
  rw [superclassScope, Dict.find?_insert] at bound
  split at bound
  · obtain rfl : Value.classObject parent = value := by simpa using bound
    exact valid
  · simp at bound

private theorem superclassFits_addScope (poised : Poised text terms notes machine spot)
    {decl : ClassDecl Expr Stmt} (derived : decl.superclass.isSome) {parent : Nat}
    (valid : parent < machine.store.classes.size) :
    SuperclassFits (notes.addOrigin (some (.superclass decl))).origins
      (machine.store.addScope (superclassScope parent machine.frame.scope)).2 decl
      (· = spot.trail) (machine.store.scopes.size :: spot.trail) := by
  obtain ⟨superclass, known⟩ := Option.isSome_iff_exists.mp derived
  simp only [SuperclassFits, known]
  refine ⟨_, _, parent, rfl, madeFor_addScope poised.coherent _
    (congrArg some poised.standing.scope), ?_, valid, rfl⟩
  rw [getHere?_addScope, if_pos rfl]
  exact Dict.find?_insert_self _ _ _

theorem fares_declareClass (rules : Rules) (poised : Poised text terms notes machine spot)
    {decl : ClassDecl Expr Stmt} (plain : PlainName decl.name.name)
    (sites : Covered text (stmtSites spot.nesting (.classDecl decl)))
    (opened : terms.opened machine.frame.scope decl.name.name) :
    Fares text terms notes machine (Traced.declareClass rules spot decl) fun _ notes' after =>
      Standing notes'.origins after (spot.past (.classDecl decl)) ∧
        (after.store.getHere? machine.frame.scope decl.name.name).isSome := by
  refine .frame poised.toUpheld ?_
  refine (fares_superclassOf rules poised.toUpheld decl).bind
    fun superclass notes' machine' passed found => ?_
  obtain ⟨same, valid⟩ := found
  have poised' := passed.poised poised
  have whole (store : Store) :
      Whole terms.watch store (.classObject machine'.store.classes.size) := trivial
  rw [← passed.frame] at opened ⊢
  cases superclass with
  | none =>
    have above : SuperclassFits notes'.origins machine'.store decl (· = spot.trail) spot.trail := by
      have base : decl.superclass = none := by simpa using same.symm
      simp only [SuperclassFits, base]
    have added := kept_addClass poised'.ready none plain sites above
    rw [← poised'.standing.scope] at added
    have made := fared_addRoot poised'.tended decl machine'.frame.scope
    have defined := fared_define made.tended plain (whole _) (.inl opened)
    exact .one rfl rfl ⟨added, made.trans defined⟩ ⟨poised'.standing.addClass none _ plain,
      isSome_define poised'.standing poised'.coherent decl.name.name _⟩
  | some parent =>
    have entered := kept_addScope poised'.coherent (some (.superclass decl))
      (known_superclassScope (valid parent rfl) machine'.frame.scope)
    have ready' := entered.ready poised'.ready
    have above := superclassFits_addScope poised' same.symm (valid parent rfl)
    have added := kept_addClass ready' (some parent) plain sites above
    have made := fared_addHeir poised'.tended decl (valid parent rfl) machine'.frame.scope
    have defined := fared_define made.tended plain (whole _) (.inl opened)
    refine .one rfl rfl ⟨entered.trans added, made.trans defined⟩
      ⟨ready'.standing.addClass (some parent) _ plain, ?_⟩
    obtain ⟨scope, stored⟩ := poised'.ready.scope_exists
    have inside := Nat.lt_succ_of_lt (Array.getElem?_eq_some_iff.mp stored).1
    rw [getHere?_define, if_pos ⟨rfl, rfl, by simpa [Store.addClass, Store.addScope] using inside⟩]
    rfl

end Actions

end ClassScript.Run
