import ClassScript.Proofs.EvalActions

/-!
Every run keeps the store coherent, and at each of its moments the machine stands at the spot that
the moment is noted for. What code gets at is whole.
-/

set_option autoImplicit false

namespace ClassScript.Run

def FineValues (watch : Watch) (values : List Value) (_ : Notes) (machine : Machine) : Prop :=
  ∀ value ∈ values, Fine watch machine.store value

def FineEntries (watch : Watch) (entries : Dict Value) (_ : Notes) (machine : Machine) : Prop :=
  ∀ key value, entries.find? key = some value → Fine watch machine.store value

def FineFlow (watch : Watch) (flow : Flow) (store : Store) : Prop :=
  ∀ value, flow = .returned value → Fine watch store value

variable {store : Store} {watch : Watch} {terms : Terms} {text : Site → Prop} {scope : ScopeRef}
  {stmt : Stmt}

private theorem fineFlow_of_ne {flow : Flow} (other : ∀ value, flow ≠ .returned value) :
    FineFlow watch flow store :=
  fun value same => absurd same (other value)

theorem FineValues.passed {notes notes' : Notes} {machine machine' : Machine} {values : List Value}
    (fine : FineValues terms.watch values notes machine) (upheld : Upheld text terms notes machine)
    (passed : Passed text terms notes machine notes' machine') :
    FineValues terms.watch values notes' machine' :=
  fun value member => passed.fine upheld (fine value member)

private theorem operands_singleton {value : Value} (fine : Fine watch store value) :
    ∀ other ∈ (Phase.acts [value]).operands, Fine watch store other := by
  intro other member
  rwa [List.mem_singleton.mp member]

def FieldsSet (watch : Watch) (receiver : InstanceRef) (fields : List (FieldDecl Expr))
    (store : Store) : Prop :=
  watch.on → ∀ field ∈ fields, (store.getField? receiver field.name.name).isSome

def LineageSet (watch : Watch) (receiver : InstanceRef) (lineage : List ClassRef) (store : Store) :
    Prop :=
  ∀ ref ∈ lineage, ∀ found, store.classes[ref]? = some found →
    FieldsSet watch receiver found.decl.fields store

theorem FieldsSet.changed {receiver : InstanceRef} {fields : List (FieldDecl Expr)}
    {scene scene' : Scene} (set : FieldsSet watch receiver fields scene.store)
    (changed : Changed scene scene') : FieldsSet watch receiver fields scene'.store :=
  fun on field member => changed.getField?_isSome (set on field member)

/-- The name that a statement declares may be added to the scope. -/
def Allows (terms : Terms) (scope : ScopeRef) (stmt : Stmt) : Prop :=
  ∀ name, Binding.declaredName? stmt = some name → terms.opened scope name

private theorem allows_of_declaresNothing (idle : stmt.DeclaresNothing) :
    Allows terms scope stmt := by
  intro name declared
  rw [idle] at declared
  cases declared

def Declared (scope : ScopeRef) (stmt : Stmt) (store : Store) : Prop :=
  ∀ name, Binding.declaredName? stmt = some name → (store.getHere? scope name).isSome

private theorem declared_of_declaresNothing (idle : stmt.DeclaresNothing) :
    Declared scope stmt store := by
  intro name declared
  rw [idle] at declared
  cases declared

private theorem declared_of_bound {name : String}
    (declares : Binding.declaredName? stmt = some name)
    (bound : (store.getHere? scope name).isSome) : Declared scope stmt store := by
  intro other declared
  obtain rfl := Option.some.inj (declares.symm.trans declared)
  exact bound

/-- Any name may be added to one more scope. -/
def Terms.opening (terms : Terms) (scope : ScopeRef) : Terms :=
  { terms with opened := fun ref name => terms.opened ref name ∨ ref = scope }

def Watch.hiding (watch : Watch) (receiver : InstanceRef) : Watch :=
  { watch with hidden := fun ref => watch.hidden ref ∨ ref = receiver }

def Terms.hiding (terms : Terms) (receiver : InstanceRef) : Terms :=
  { terms with watch := terms.watch.hiding receiver }

section Terms

variable {α : Type} {text : Site → Prop} {terms : Terms} {notes : Notes} {machine : Machine}
  {body : Traced α} {post : α → Notes → Machine → Prop}

theorem Fares.of_opening
    (fares : Fares text (terms.opening machine.store.scopes.size) notes machine body post) :
    Fares text terms notes machine body post := by
  refine fares.loosen ⟨id, fun _ hides => hides⟩ (fun _ keep => keep) ?_
  rintro ref name inside (old | new)
  · exact old
  · exact absurd new (Nat.ne_of_lt inside)

theorem Fares.of_hiding {receiver : InstanceRef}
    (fares : Fares text (terms.hiding receiver) notes machine body post) :
    Fares text terms notes machine body post :=
  fares.loosen ⟨id, fun _ hides => .inl hides⟩ (fun _ keep => keep) fun _ _ _ opened => opened

theorem Terms.Fair.opening (fair : terms.Fair) (scope : ScopeRef) : (terms.opening scope).Fair :=
  fair

theorem Terms.Fair.hiding (fair : terms.Fair) (receiver : InstanceRef) :
    (terms.hiding receiver).Fair := by
  intro ref keep
  obtain ⟨on, hides⟩ := fair ref keep
  exact ⟨on, .inl hides⟩

variable {scene : Scene} {watch : Watch}

theorem Tended.hiding (tended : Tended watch scene) (ref : ClassRef) :
    Tended (watch.hiding scene.store.instances.size)
      { scene with store := (scene.store.addInstance ref).2 } := by
  have change : Change scene { scene with store := (scene.store.addInstance ref).2 } :=
    .addInstance ref
  refine ⟨fun on => (tended.formed on).change change, ?_, fun on => ?_⟩
  · intro value holds
    have whole := tended.held value (holds_addInstance holds)
    cases value with
    | object other =>
      intro on
      obtain ⟨reach, complete⟩ := whole on
      refine ⟨?_, complete.changed (tended.formed on) change.changed⟩
      rintro (hides | new)
      · exact reach hides
      · obtain ⟨found, stored, -⟩ := complete
        exact absurd new (Nat.ne_of_lt (Array.getElem?_eq_some_iff.mp stored).1)
    | _ => trivial
  · have larger : scene.store.instances.size < (scene.store.addInstance ref).2.instances.size := by
      simp [Store.addInstance]
    rintro other (hides | rfl)
    · exact Nat.lt_trans (tended.inside on other hides) larger
    · exact larger

private theorem complete_of_lineageSet {scene' : Scene} (formed : Formed scene)
    (changed : Changed scene scene') {receiver : Nat} {found : Instance}
    (stored : scene.store.instances[receiver]? = some found)
    (inside : found.classRef < scene.store.classes.size) (on : watch.on)
    (set : LineageSet watch receiver (scene.store.lineage found.classRef) scene'.store) :
    Complete scene'.store receiver := by
  obtain ⟨later, stored', grows⟩ := changed.instance_grows stored
  refine ⟨later, stored', ?_, ?_⟩
  · rw [grows.classRef]
    exact Nat.lt_of_lt_of_le inside changed.grows.classes_size_le
  · intro ancestor declared field inherits known isField
    rw [grows.classRef] at inherits
    have inherits := formed.inherits_grow changed.grows inside inherits
    have isSet := set ancestor ((formed.mem_lineage_iff inside).mpr inherits) declared known on
      field isField
    simpa only [Store.getField?, stored'] using isSet

theorem Formed.lineage_inside (formed : Formed scene) {ref : Nat}
    (inside : ref < scene.store.classes.size) :
    ∀ ancestor ∈ scene.store.lineage ref, ancestor < scene.store.classes.size := by
  intro ancestor member
  have inherits := (formed.mem_lineage_iff inside).mp member
  rcases Relation.ReflTransGen.cases_tail inherits with rfl | ⟨child, -, heir, known, above⟩
  · exact inside
  · exact Nat.lt_trans (formed.older child heir ancestor known above)
      (Array.getElem?_eq_some_iff.mp known).1

end Terms

namespace Steady

variable {text : Site → Prop} {terms : Terms} {notes : Notes} {machine : Machine}

variable {arguments : List Value} {name : String} {parameters : List Parameter}

private theorem mem_of_bindParameters {value : Value}
    (bound : (bindParameters parameters arguments).find? name = some value) :
    value ∈ arguments := by
  rcases mem_of_find?_insertAll bound with impossible | ⟨key, member⟩
  · simp at impossible
  · exact (List.of_mem_zip member).2

private theorem isSome_bindParameters (arity : parameters.length = arguments.length)
    (declared : (parameterNames parameters).find? name = some true) :
    ((bindParameters parameters arguments).find? name).isSome := by
  suffices general : ∀ (names : Dict Bool) (bindings : Dict Value),
      (names.find? name = some true → (bindings.find? name).isSome) →
      (parameters.foldl (fun names parameter => declareNow names parameter.name.name)
        names).find? name = some true →
      ((bindings.insertAll ((parameters.map fun parameter => parameter.name.name).zip
        arguments)).find? name).isSome from
    general ∅ .empty (by simp) declared
  clear declared
  induction parameters generalizing arguments with
  | nil =>
    intro names bindings before declared
    exact before declared
  | cons parameter rest ih =>
    cases arguments with
    | nil => simp at arity
    | cons argument others =>
      intro names bindings before declared
      refine ih (by simpa using arity) _ (bindings.insert parameter.name.name argument) ?_ declared
      intro found
      rw [Dict.find?_insert]
      split
      · rfl
      · rename_i different
        refine before ?_
        unfold declareNow at found
        rwa [Dict.find?_insert_of_ne different, Dict.find?_insert_of_ne different] at found

def calleeScope (closure : Closure) (arguments : List Value) : Scope :=
  { bindings := bindParameters closure.decl.parameters arguments
    enclosing := some closure.scope }

theorem standing_callee {notes : Notes} {machine : Machine} {closure : Closure} {home : Spot}
    (coherent : Coherent text notes machine.store)
    (fits : ClosureFits text notes.origins machine.store closure home)
    (arity : closure.decl.arity = arguments.length) (depth : Nat) :
    Standing (notes.addOrigin (some (.body (.function closure.decl)))).origins
      { machine with
        store := (machine.store.addScope (calleeScope closure arguments)).2
        frame := { scope := machine.store.scopes.size, classRef := closure.owner, depth } }
      (home.enter (.function closure.decl) (parameterNames closure.decl.parameters)
        machine.store.scopes.size) := by
  have grows := grows_addScope notes.origins (some (.body (.function closure.decl)))
    machine.store (calleeScope closure arguments)
  have made : MadeFor (notes.addOrigin (some (.body (.function closure.decl)))).origins
      (machine.store.addScope (calleeScope closure arguments)).2 (.body (.function closure.decl))
      machine.store.scopes.size home.trail :=
    madeFor_addScope coherent _ (congrArg some fits.scope)
  refine ⟨⟨_, _, rfl, made, ?_, fits.fits.grow grows⟩, rfl, fits.owner.grow grows⟩
  intro name declared
  have bound := isSome_bindParameters arity declared
  rw [getHere?_addScope, if_pos rfl]
  exact bound

theorem covered_body {nesting : Nesting} {decl : FunctionDecl Stmt}
    (covered : Covered text (functionSites nesting decl)) :
    Covered text (stmtsSites (.inside (.function decl) (parameterNames decl.parameters) nesting)
      decl.body) := by
  rwa [functionSites] at covered

theorem passed_callee (upheld : Upheld text terms notes machine) (closure : Closure)
    (fine : FineValues terms.watch arguments notes machine) :
    Passed text terms notes machine (notes.addOrigin (some (.body (.function closure.decl))))
      { machine with store := (machine.store.addScope (calleeScope closure arguments)).2 } :=
  passed_addScope upheld (by simp) fun _ value bound => fine value (mem_of_bindParameters bound)

theorem ready_fields {notes : Notes} {machine : Machine} {ref : Nat} {found : ClassObject}
    (coherent : Coherent text notes machine.store)
    (stored : machine.store.classes[ref]? = some found) :
    Covered text (fieldsSites (notes.fieldSpot ref).nesting found.decl.fields) ∧
      Ready text notes { machine with
        frame := { machine.frame with scope := found.scope, classRef := some ref } }
        (notes.fieldSpot ref) := by
  obtain ⟨note, noted, classFits⟩ := coherent.noted_class stored
  simp only [Notes.fieldSpot, noted, classFits.decl]
  refine ⟨classFits.fieldSites, coherent, classFits.fits, classFits.scope, ?_⟩
  exact ⟨ref, found, rfl, stored, rfl⟩

end Steady

namespace Steady

variable {text : Site → Prop} {rules : Rules} {steps : Nat} {terms : Terms} {spot : Spot}
  {notes : Notes} {machine : Machine}

private theorem fares_inside (poised : Poised text terms notes machine spot) (body : Body)
    {inner : ScopeRef → Traced Flow}
    (runs : ∀ (notes' : Notes) (machine' : Machine),
      Poised text (terms.opening machine.store.scopes.size) notes' machine'
        (spot.enter body ∅ machine.store.scopes.size) →
      machine'.frame.scope = machine.store.scopes.size →
      Fares text (terms.opening machine.store.scopes.size) notes' machine'
        (inner machine.store.scopes.size)
        fun flow _ after => FineFlow terms.watch flow after.store) :
    Fares text terms notes machine (do
      let scope ← Traced.innerScope body
      Traced.withinScope scope (inner scope))
      fun flow _ after => FineFlow terms.watch flow after.store := by
  refine Fares.of_opening ?_
  have opened : Poised text (terms.opening machine.store.scopes.size) notes machine spot :=
    ⟨⟨poised.coherent, poised.tended⟩, poised.standing⟩
  refine (fares_innerScope opened body).bind fun scope notes' machine' passed entered => ?_
  obtain ⟨rfl, standing⟩ := entered
  exact Fares.within machine' (runs notes' _ (standing.poised passed.coherent passed.tended) rfl)

theorem passed_addInstance (fair : terms.Fair) (upheld : Upheld text terms notes machine)
    (ref : ClassRef) :
    Passed text terms notes machine notes
      { machine with store := (machine.store.addInstance ref).2 } :=
  ⟨kept_addInstance upheld.coherent ref, fared_addInstance upheld.tended fair ref⟩

/-- A new instance that nothing holds gets the fields of its lineage, and is whole then. -/
theorem fares_setUp {ref : Nat} {body : Traced Unit} (fair : terms.Fair)
    (upheld : Upheld text terms notes machine) (inside : ref < machine.store.classes.size)
    (sets : ∀ {terms : Terms}, terms.Fair →
      Upheld text terms notes { machine with store := (machine.store.addInstance ref).2 } →
      terms.watch.hidden machine.store.instances.size →
      ¬terms.kept machine.store.instances.size →
      (terms.watch.on → ∀ other ∈ (machine.store.addInstance ref).2.lineage ref,
        other < machine.store.classes.size) →
      Fares text terms notes { machine with store := (machine.store.addInstance ref).2 } body
        fun _ _ after => LineageSet terms.watch machine.store.instances.size
          ((machine.store.addInstance ref).2.lineage ref) after.store) :
    Fares text terms notes { machine with store := (machine.store.addInstance ref).2 } body
      fun _ _ after => Fine terms.watch after.store (.object machine.store.instances.size) := by
  have added := kept_addInstance upheld.coherent ref
  have secluded : Tended (terms.hiding machine.store.instances.size).watch
      (notes.scene { machine with store := (machine.store.addInstance ref).2 }) :=
    upheld.tended.hiding ref
  have secret (on : terms.watch.on) : ¬terms.watch.hidden machine.store.instances.size :=
    fun hides => Nat.lt_irrefl _ (upheld.tended.inside on _ hides)
  have reach : ¬terms.kept machine.store.instances.size := by
    intro keep
    obtain ⟨on, hides⟩ := fair _ keep
    exact secret on hides
  have valid : ref < (machine.store.addInstance ref).2.classes.size := inside
  have sets := sets (fair.hiding machine.store.instances.size) ⟨added.coherent, secluded⟩
    (.inr rfl) reach fun on => (secluded.formed on).lineage_inside valid
  have stored : (machine.store.addInstance ref).2.instances[machine.store.instances.size]? =
      some { classRef := ref, fields := ∅ } := by
    simp [Store.addInstance]
  refine (sets.mono fun _ notes' machine' passed set => ?_).of_hiding
  refine ⟨trivial, fun on => ⟨secret on, ?_⟩⟩
  exact complete_of_lineageSet (secluded.formed on) passed.changed stored valid on set

-- By recursion on the steps, one case for each rule.
mutual

theorem evaluate (sound : rules.Suits text)
    (steps pending : Nat) {terms spot notes machine expr} (fair : terms.Fair)
    (poised : Poised text terms notes machine spot)
    (covered : Covered text (exprSites spot.nesting expr)) :
    Fares text terms notes machine (Traced.evaluate rules steps pending spot expr)
      (FineValue terms.watch) := by
  rw [Traced.evaluate.eq_def]
  match steps with
  | 0 => exact .exhaust
  | steps + 1 =>
  have here : text ⟨spot.nesting, .expr expr⟩ := covered _ (mem_exprSites_self _ _)
  have whole := covered
  refine .mark poised covered (by simp [Phase.operands]) fun notes poised => ?_
  cases expr with
  | literal value position =>
    refine .pure poised.toUpheld ?_
    cases value <;> exact ⟨trivial, trivial⟩
  | unary operator operand position =>
    refine (evaluate sound steps pending fair poised covered.cons.2).bind
      fun value notes machine passed _ => ?_
    exact fares_apply passed.upheld position (fair_applyUnary _ _ _ _)
  | binary left operator right position =>
    obtain ⟨coveredLeft, coveredRight⟩ := covered.cons.2.append
    refine (evaluate sound steps pending fair poised coveredLeft).bind
      fun first notes machine passed _ => ?_
    refine (evaluate sound steps pending fair (passed.poised poised) coveredRight).bind
      fun second notes machine passed _ => ?_
    exact fares_apply passed.upheld position (fair_applyBinary _ _ _ _ _)
  | logical left operator right =>
    obtain ⟨coveredLeft, coveredRight⟩ := covered.cons.2.append
    refine (evaluate sound steps pending fair poised coveredLeft).bind
      fun first notes machine passed fine => ?_
    have poised := passed.poised poised
    refine (fares_attempt passed.upheld left.position (fair_truth first)).bind
      fun holds notes machine passed' _ => ?_
    split
    · exact .pure passed'.upheld (passed'.fine passed.upheld fine)
    · exact evaluate sound steps pending fair (passed'.poised poised) coveredRight
  | group inner =>
    exact evaluate sound steps pending fair poised covered.cons.2
  | reference id name =>
    exact .mark poised whole (by simp [Phase.operands]) fun notes poised =>
      fares_readVariable rules poised.toUpheld id name
  | assign id name value =>
    have plain : PlainName name.name := (sound _ here).proper.2
    refine (evaluate sound steps pending fair poised covered.cons.2).bind
      fun value notes machine passed fine => ?_
    refine .mark (passed.poised poised) whole (operands_singleton fine) fun notes poised => ?_
    refine (fares_writeVariable rules poised.toUpheld id plain fine).bind
      fun _ notes machine passed _ => ?_
    exact .pure passed.upheld (passed.fine poised.toUpheld fine)
  | call callee position arguments =>
    obtain ⟨coveredCallee, coveredArguments⟩ := covered.cons.2.append
    refine (evaluate sound steps pending fair poised coveredCallee).bind
      fun callee notes machine passed fineCallee => ?_
    have poised := passed.poised poised
    refine (evaluateAll sound steps pending fair poised coveredArguments).bind
      fun arguments notes machine passed fine => ?_
    have fineCallee := passed.fine poised.toUpheld fineCallee
    refine .mark (passed.poised poised) whole ?_ fun notes poised => ?_
    · intro value member
      rcases List.mem_cons.mp member with rfl | later
      · exact fineCallee
      · exact fine value later
    · exact call sound steps pending fair poised.toUpheld fine
  | property object name =>
    refine (evaluate sound steps pending fair poised covered.cons.2).bind
      fun object notes machine passed fine => ?_
    cases object with
    | object ref =>
      refine .mark (passed.poised poised) whole (operands_singleton fine) fun notes poised => ?_
      exact fares_readProperty poised.toUpheld name fine.whole
    | _ => exact .fail passed.upheld name.position (by simp [Innocent])
  | setProperty object name value =>
    obtain ⟨coveredObject, coveredValue⟩ := covered.cons.2.append
    refine (evaluate sound steps pending fair poised coveredObject).bind
      fun object notes machine passed fineObject => ?_
    have poised := passed.poised poised
    cases object with
    | object ref =>
      refine (evaluate sound steps pending fair poised coveredValue).bind
        fun value notes machine passed fine => ?_
      have fineObject := passed.fine poised.toUpheld fineObject
      refine .mark (passed.poised poised) whole ?_ fun notes poised => ?_
      · intro operand member
        rcases List.mem_cons.mp member with rfl | later
        · exact fineObject
        · rwa [List.mem_singleton.mp later]
      refine (fares_writeProperty poised.toUpheld fair name fineObject.whole fine).bind
        fun _ notes machine passed _ => ?_
      exact .pure passed.upheld (passed.fine poised.toUpheld fine)
    | _ => exact .fail passed.upheld name.position (by simp [Innocent])
  | index object key position =>
    obtain ⟨coveredObject, coveredKey⟩ := covered.cons.2.append
    refine (evaluate sound steps pending fair poised coveredObject).bind
      fun object notes machine passed _ => ?_
    refine (evaluate sound steps pending fair (passed.poised poised) coveredKey).bind
      fun key notes machine passed _ => ?_
    refine .inspect passed.upheld ?_
    exact fares_apply passed.upheld position
      (fair_readIndex (fun _ holds => passed.upheld.fine holds) _ _)
  | setIndex object key value position =>
    obtain ⟨coveredBoth, coveredValue⟩ := covered.cons.2.append
    obtain ⟨coveredObject, coveredKey⟩ := coveredBoth.append
    refine (evaluate sound steps pending fair poised coveredObject).bind
      fun object notes machine passed _ => ?_
    have poised := passed.poised poised
    refine (evaluate sound steps pending fair poised coveredKey).bind
      fun key notes machine passed _ => ?_
    have poised := passed.poised poised
    refine (evaluate sound steps pending fair poised coveredValue).bind
      fun value notes machine passed fine => ?_
    refine (fares_assignIndex passed.upheld object key position fine).bind
      fun _ notes machine passed' _ => ?_
    exact .pure passed'.upheld (passed'.fine passed.upheld fine)
  | array elements position =>
    refine (evaluateAll sound steps pending fair poised covered.cons.2).bind
      fun items notes machine passed fine => ?_
    have fineItems : ∀ value ∈ items.toArray, Fine terms.watch machine.store value :=
      fun value member => fine value (by simpa using member)
    have added : Passed text terms notes machine notes
        { machine with store := (machine.store.addArray items.toArray).2 } :=
      ⟨kept_addArray passed.coherent fun value member => (fineItems value member).known,
        fared_addArray passed.tended fun value member => (fineItems value member).whole⟩
    exact .step rfl rfl added (.pure added.upheld ⟨trivial, trivial⟩)
  | map entries position =>
    refine (evaluateEntries sound steps pending fair poised covered.cons.2 (by
      intro key value found
      simp at found)).bind fun entries notes machine passed fine => ?_
    have added : Passed text terms notes machine notes
        { machine with store := (machine.store.addMap entries).2 } :=
      ⟨kept_addMap passed.coherent fun key value found => (fine key value found).known,
        fared_addMap passed.tended fun key value found => (fine key value found).whole⟩
    exact .step rfl rfl added (.pure added.upheld ⟨trivial, trivial⟩)
  | this id position =>
    exact .mark poised whole (by simp [Phase.operands]) fun notes poised =>
      fares_readThis poised (sound _ here)
  | super id position method =>
    exact .mark poised whole (by simp [Phase.operands]) fun notes poised =>
      fares_readSuper poised (sound _ here)
  | lambda decl =>
    exact fares_makeFunction poised covered.cons.2
termination_by structural steps

theorem evaluateAll (sound : rules.Suits text)
    (steps pending : Nat) {terms spot notes machine exprs} (fair : terms.Fair)
    (poised : Poised text terms notes machine spot)
    (covered : Covered text (exprsSites spot.nesting exprs)) :
    Fares text terms notes machine (Traced.evaluateAll rules steps pending spot exprs)
      (FineValues terms.watch) := by
  rw [Traced.evaluateAll.eq_def]
  match steps with
  | 0 => exact .exhaust
  | steps + 1 =>
  cases exprs with
  | nil =>
    exact .pure poised.toUpheld (by simp [FineValues])
  | cons expr rest =>
    refine (evaluate sound steps pending fair poised covered.append.1).bind
      fun first notes machine passed fine => ?_
    refine (evaluateAll sound steps pending fair (passed.poised poised) covered.append.2).bind
      fun others notes machine passed' fineOthers => ?_
    refine .pure passed'.upheld ?_
    intro value member
    rcases List.mem_cons.mp member with rfl | later
    · exact passed'.fine passed.upheld fine
    · exact fineOthers value later
termination_by structural steps

theorem evaluateShown (sound : rules.Suits text)
    (steps pending : Nat) {terms spot notes machine exprs} (fair : terms.Fair)
    (poised : Poised text terms notes machine spot)
    (covered : Covered text (exprsSites spot.nesting exprs)) :
    Fares text terms notes machine (Traced.evaluateShown rules steps pending spot exprs)
      Anything := by
  rw [Traced.evaluateShown.eq_def]
  match steps with
  | 0 => exact .exhaust
  | steps + 1 =>
  cases exprs with
  | nil =>
    exact .pure poised.toUpheld trivial
  | cons expr rest =>
    refine (evaluate sound steps pending fair poised covered.append.1).bind
      fun value notes machine passed _ => ?_
    refine .inspect passed.upheld ?_
    refine (evaluateShown sound steps pending fair (passed.poised poised) covered.append.2).bind
      fun _ notes machine passed _ => ?_
    exact .pure passed.upheld trivial
termination_by structural steps

theorem evaluateEntries (sound : rules.Suits text)
    (steps pending : Nat) {terms spot notes machine entries done}
    (fair : terms.Fair) (poised : Poised text terms notes machine spot)
    (covered : Covered text (entriesSites spot.nesting entries))
    (fineDone : FineEntries terms.watch done notes machine) :
    Fares text terms notes machine
      (Traced.evaluateEntries rules steps pending spot entries done)
      (FineEntries terms.watch) := by
  rw [Traced.evaluateEntries.eq_def]
  match steps with
  | 0 => exact .exhaust
  | steps + 1 =>
  cases entries with
  | nil =>
    exact .pure poised.toUpheld fineDone
  | cons entry rest =>
    obtain ⟨key, value⟩ := entry
    obtain ⟨coveredBoth, coveredRest⟩ := covered.append
    obtain ⟨coveredKey, coveredValue⟩ := coveredBoth.append
    refine (evaluate sound steps pending fair poised coveredKey).bind
      fun name notes₁ machine₁ passed₁ _ => ?_
    refine (fares_attempt passed₁.upheld key.position (fair_mapKey name)).bind
      fun name notes₂ machine₂ passed₂ _ => ?_
    have poised₂ := passed₂.poised (passed₁.poised poised)
    refine (evaluate sound steps pending fair poised₂ coveredValue).bind
      fun value notes₃ machine₃ passed₃ fine => ?_
    have passed := (passed₁.trans passed₂).trans passed₃
    refine evaluateEntries sound steps pending fair (passed₃.poised poised₂) coveredRest ?_
    intro other found bound
    rw [Dict.find?_insert] at bound
    split at bound
    · rwa [← Option.some.inj bound]
    · exact passed.fine poised.toUpheld (fineDone other found bound)
termination_by structural steps

theorem evaluateOptional (sound : rules.Suits text)
    (steps pending : Nat) {terms spot notes machine expr} (fair : terms.Fair)
    (poised : Poised text terms notes machine spot)
    (covered : Covered text (optionalSites spot.nesting expr)) :
    Fares text terms notes machine (Traced.evaluateOptional rules steps pending spot expr)
      (FineValue terms.watch) := by
  rw [Traced.evaluateOptional.eq_def]
  match steps with
  | 0 => exact .exhaust
  | steps + 1 =>
  cases expr with
  | none =>
    exact .pure poised.toUpheld ⟨trivial, trivial⟩
  | some expr =>
    exact evaluate sound steps pending fair poised covered
termination_by structural steps

theorem callClosure (sound : rules.Suits text)
    (steps pending : Nat) {terms notes machine arguments position home closure}
    (fair : terms.Fair) (upheld : Upheld text terms notes machine)
    (fits : ClosureFits text notes.origins machine.store closure home)
    (fine : FineValues terms.watch arguments notes machine) :
    Fares text terms notes machine
      (Traced.callClosure rules steps pending home closure arguments position)
      (FineValue terms.watch) := by
  rw [Traced.callClosure.eq_def]
  match steps with
  | 0 => exact .exhaust
  | steps + 1 =>
  refine (fares_checkArity upheld _ _ position).bind fun _ notes machine passed arity => ?_
  have fits := fits.grow passed.grows
  have fine := fine.passed upheld passed
  have upheld := passed.upheld
  refine .frame upheld ?_
  split
  · exact .fail upheld position (by simp [Innocent])
  -- the scope of the parameters is new, so whatever the body declares there does not count
  refine Fares.of_opening ?_
  have inside : Upheld text (terms.opening machine.store.scopes.size) notes machine :=
    ⟨upheld.coherent, upheld.tended⟩
  have entered := passed_callee inside closure fine
  refine .addScope entered ?_
  have standing := standing_callee upheld.coherent fits arity (machine.frame.depth + 1)
  have poised := standing.poised entered.coherent entered.tended
  have body := executeAll sound steps pending (fair.opening _) poised (covered_body fits.sites)
    fun _ _ _ _ => .inr rfl
  refine (Fares.within { machine with
    store := (machine.store.addScope (calleeScope closure arguments)).2 } body).bind
    fun flow notes machine passed fineFlow => ?_
  exact fares_callResult passed.upheld closure fineFlow
termination_by structural steps

theorem call (sound : rules.Suits text)
    (steps pending : Nat) {terms notes machine arguments position callee}
    (fair : terms.Fair) (upheld : Upheld text terms notes machine)
    (fine : FineValues terms.watch arguments notes machine) :
    Fares text terms notes machine
      (Traced.call rules steps pending callee arguments position)
      (FineValue terms.watch) := by
  rw [Traced.call.eq_def]
  match steps with
  | 0 => exact .exhaust
  | steps + 1 =>
  cases callee with
  | builtin which =>
    refine (fares_checkArity upheld _ _ position).bind fun _ notes machine passed _ => ?_
    exact fares_applyBuiltin rules passed.upheld which (fine.passed upheld passed) position
  | function ref =>
    refine .inspect upheld ?_
    cases stored : machine.store.functions[ref]? with
    | some closure =>
      refine .consult upheld ?_
      exact callClosure sound steps pending fair upheld (upheld.coherent.noted_function stored) fine
    | none => exact .fail upheld position (by simp [Innocent])
  | classObject ref => exact instantiate sound steps pending fair upheld fine
  | _ => exact .fail upheld position (by simp [Innocent])
termination_by structural steps

theorem instantiate (sound : rules.Suits text)
    (steps pending : Nat) {terms notes machine arguments position ref}
    (fair : terms.Fair) (upheld : Upheld text terms notes machine)
    (fine : FineValues terms.watch arguments notes machine) :
    Fares text terms notes machine
      (Traced.instantiate rules steps pending ref arguments position)
      (FineValue terms.watch) := by
  rw [Traced.instantiate.eq_def]
  match steps with
  | 0 => exact .exhaust
  | steps + 1 =>
  refine .inspect upheld ?_
  cases stored : machine.store.classes[ref]? with
  | none => exact .fail upheld position (by simp [Innocent])
  | some made =>
    refine (fares_checkArity upheld _ _ position).bind fun _ notes machine passed _ => ?_
    have stored := passed.grows.classes ref made stored
    have fine := fine.passed upheld passed
    have upheld := passed.upheld
    cases lookup : made.methods.find? constructorName with
    | none =>
      have inside := (Array.getElem?_eq_some_iff.mp stored).1
      have added := passed_addInstance fair upheld ref
      refine .step rfl rfl added (.inspect added.upheld ?_)
      refine (fares_setUp fair upheld inside fun fair =>
        setUpLineage sound steps pending fair).bind fun _ notes machine passed whole => ?_
      exact .pure passed.upheld whole
    | some constructor =>
      refine (fares_checkAccess upheld _ _ _ _).bind fun _ notes machine passed _ => ?_
      have stored := passed.grows.classes ref made stored
      have inside := (Array.getElem?_eq_some_iff.mp stored).1
      have added := passed_addInstance fair passed.upheld ref
      have fine := (fine.passed upheld passed).passed passed.upheld added
      refine .step rfl rfl added (.inspect added.upheld ?_)
      refine (fares_setUp fair passed.upheld inside fun fair =>
        setUpLineage sound steps pending fair).bind fun _ notes machine passed whole => ?_
      have stored := passed.grows.classes ref made stored
      have fine := fine.passed added.upheld passed
      refine (fares_bindMethod passed.upheld stored lookup whole.whole).bind
        fun closure notes machine bound fits => ?_
      have whole := bound.fine passed.upheld whole
      refine .consult bound.upheld ?_
      refine (callClosure sound steps pending fair bound.upheld fits
        (fine.passed passed.upheld bound)).bind fun _ notes machine passed' _ => ?_
      exact .pure passed'.upheld (passed'.fine bound.upheld whole)
termination_by structural steps

theorem setUpLineage (sound : rules.Suits text)
    (steps pending : Nat) {terms notes machine receiver lineage}
    (fair : terms.Fair) (upheld : Upheld text terms notes machine)
    (hides : terms.watch.hidden receiver) (reach : ¬terms.kept receiver)
    (inside : terms.watch.on → ∀ ref ∈ lineage, ref < machine.store.classes.size) :
    Fares text terms notes machine
      (Traced.setUpLineage rules steps pending lineage receiver)
      fun _ _ after => LineageSet terms.watch receiver lineage after.store := by
  rw [Traced.setUpLineage.eq_def]
  match steps with
  | 0 => exact .exhaust
  | steps + 1 =>
  cases lineage with
  | nil =>
    exact .pure upheld (by simp [LineageSet])
  | cons ref rest =>
    refine .inspect upheld ?_
    cases stored : machine.store.classes[ref]? with
    | none =>
      have absent (on : terms.watch.on) : False := by
        rw [Array.getElem?_eq_getElem (inside on ref List.mem_cons_self)] at stored
        cases stored
      refine (setUpLineage sound steps pending fair upheld hides reach
        fun on => (absent on).elim).mono ?_
      exact fun _ _ _ _ _ _ _ _ _ on => (absent on).elim
    | some found =>
      obtain ⟨covered, ready⟩ := ready_fields upheld.coherent stored
      refine .frame upheld (.consult upheld ?_)
      have poised := ready.standing.poised ready.coherent upheld.tended
      have sets := setUpFields sound steps (pending + 1) fair poised covered hides reach
      refine (Fares.within machine sets).bind fun _ notes machine' passed set => ?_
      have insideRest (on : terms.watch.on) (other : Nat) (member : other ∈ rest) :
          other < machine'.store.classes.size :=
        Nat.lt_of_lt_of_le (inside on other (List.mem_cons_of_mem _ member))
          passed.grows.classes_size_le
      refine (setUpLineage sound steps pending fair passed.upheld hides reach insideRest).mono
        fun _ notes'' machine'' passed' setRest => ?_
      intro other member known isKnown
      rcases List.mem_cons.mp member with rfl | isRest
      · have same := (passed.trans passed').grows.classes _ _ stored
        obtain rfl := Option.some.inj (same.symm.trans isKnown)
        exact FieldsSet.changed set passed'.changed
      · exact setRest other isRest known isKnown
termination_by structural steps

theorem setUpFields (sound : rules.Suits text)
    (steps pending : Nat) {terms spot notes machine receiver fields}
    (fair : terms.Fair) (poised : Poised text terms notes machine spot)
    (covered : Covered text (fieldsSites spot.nesting fields))
    (hides : terms.watch.hidden receiver) (reach : ¬terms.kept receiver) :
    Fares text terms notes machine
      (Traced.setUpFields rules steps pending spot fields receiver)
      fun _ _ after => FieldsSet terms.watch receiver fields after.store := by
  rw [Traced.setUpFields.eq_def]
  match steps with
  | 0 => exact .exhaust
  | steps + 1 =>
  cases fields with
  | nil =>
    exact .pure poised.toUpheld (by simp [FieldsSet])
  | cons field rest =>
    obtain ⟨name, visibility, hint, initial⟩ := field
    refine (evaluateOptional sound steps pending fair poised covered.append.1).bind
      fun value notes machine passed fine => ?_
    have set : Passed text terms notes machine notes
        { machine with store := machine.store.setField receiver name.name value } :=
      ⟨kept_setField passed.coherent fine.known receiver name.name,
        fared_setField passed.tended reach name.name fine.whole⟩
    refine .step rfl rfl set ?_
    refine (setUpFields sound steps pending fair (set.poised (passed.poised poised))
      covered.append.2 hides reach).mono fun _ notes' machine' passed' setRest => ?_
    intro on field member
    rcases List.mem_cons.mp member with rfl | isRest
    · refine passed'.changed.getField?_isSome ?_
      have inside := passed.tended.inside on receiver hides
      change ((machine.store.setField receiver name.name value).getField? receiver
        name.name).isSome
      rw [getField?_setField, if_pos ⟨rfl, rfl, inside⟩]
      rfl
    · exact setRest on field isRest
termination_by structural steps

theorem execute (sound : rules.Suits text)
    (steps pending : Nat) {terms spot notes machine stmt} (fair : terms.Fair)
    (poised : Poised text terms notes machine spot)
    (covered : Covered text (stmtSites spot.nesting stmt))
    (allows : Allows terms machine.frame.scope stmt) :
    Fares text terms notes machine (Traced.execute rules steps pending spot stmt)
      fun flow notes' after => FineFlow terms.watch flow after.store ∧
        Standing notes'.origins after (spot.past stmt) ∧
        Declared machine.frame.scope stmt after.store := by
  rw [Traced.execute.eq_def]
  match steps with
  | 0 => exact .exhaust
  | steps + 1 =>
  have here : text ⟨spot.nesting, .stmt stmt⟩ := covered _ (mem_stmtSites_self _ _)
  have whole := covered
  refine .mark poised covered (by simp [Phase.operands]) fun notes poised => ?_
  cases stmt with
  | expression value =>
    refine (evaluate sound steps pending fair poised covered.cons.2).bind
      fun _ notes machine passed _ => ?_
    exact .pure passed.upheld ⟨fineFlow_of_ne (by simp), (passed.poised poised).standing,
      declared_of_declaresNothing rfl⟩
  | print keyword values =>
    refine (evaluateShown sound steps pending fair poised covered.cons.2).bind
      fun texts notes machine passed _ => ?_
    have poised := passed.poised poised
    refine (fares_emit passed.upheld _).bind fun _ notes machine passed _ => ?_
    exact .pure passed.upheld ⟨fineFlow_of_ne (by simp), (passed.poised poised).standing,
      declared_of_declaresNothing rfl⟩
  | var name typeHint initial =>
    have plain : PlainName name.name := (sound _ here).proper.2
    have inside : Poised text terms notes machine (spot.declare name.name) :=
      ⟨poised.toUpheld, poised.standing.declare name.name⟩
    refine (evaluateOptional sound steps pending fair inside covered.cons.2).bind
      fun value notes machine' passed fine => ?_
    have opened : terms.opened machine'.frame.scope name.name := by
      rw [passed.frame]
      exact allows _ rfl
    have completes : Fares text terms notes machine' (Traced.completeVariable name.name value)
        fun _ notes' after =>
          Standing notes'.origins after (spot.past (.var name typeHint initial)) ∧ _ :=
      fares_completeVariable (passed.poised poised) plain fine opened rfl rfl
    refine completes.bind fun _ notes machine passed' ends => ?_
    obtain ⟨standing, bound⟩ := ends
    rw [passed.frame] at bound
    exact .pure passed'.upheld ⟨fineFlow_of_ne (by simp), standing, declared_of_bound rfl bound⟩
  | block body =>
    refine (fares_inside poised (.block body) fun notes' machine' poised' same =>
      executeAll sound steps pending (fair.opening _) poised' covered.cons.2
        fun _ _ _ _ => .inr same).mono fun _ _ _ passed flow => ?_
    exact ⟨flow, (passed.poised poised).standing, declared_of_declaresNothing rfl⟩
  | branch condition whenTrue whenFalse =>
    obtain ⟨idleTrue, idleFalse⟩ := (sound _ here).proper.2
    obtain ⟨coveredBoth, coveredFalse⟩ := covered.cons.2.append
    obtain ⟨coveredCondition, coveredTrue⟩ := coveredBoth.append
    refine (evaluate sound steps pending fair poised coveredCondition).bind
      fun value notes machine passed _ => ?_
    have poised := passed.poised poised
    refine (fares_attempt passed.upheld condition.position (fair_truth value)).bind
      fun holds notes machine passed _ => ?_
    have poised := passed.poised poised
    split
    · refine (execute sound steps pending fair poised coveredTrue
        (allows_of_declaresNothing idleTrue)).mono fun _ _ _ passed ends => ?_
      exact ⟨ends.1, (passed.poised poised).standing, declared_of_declaresNothing rfl⟩
    · refine (executeOptional sound steps pending fair poised coveredFalse
        fun found same => allows_of_declaresNothing (idleFalse found same)).mono
        fun _ _ _ passed ends => ?_
      exact ⟨ends.1, (passed.poised poised).standing, declared_of_declaresNothing rfl⟩
  | loop condition body =>
    have idleBody : body.DeclaresNothing := (sound _ here).proper.2
    obtain ⟨coveredCondition, coveredBody⟩ := covered.cons.2.append
    refine (repeatLoop sound steps pending fair (by rwa [optionalSites])
      (by simp [optionalSites, Covered]) coveredBody poised
      (allows_of_declaresNothing idleBody)).mono fun _ _ _ passed flow => ?_
    exact ⟨flow, (passed.poised poised).standing, declared_of_declaresNothing rfl⟩
  | countedLoop initial condition increment body =>
    obtain ⟨coveredThree, coveredBody⟩ := covered.cons.2.append
    obtain ⟨coveredTwo, coveredIncrement⟩ := coveredThree.append
    obtain ⟨coveredInitial, coveredCondition⟩ := coveredTwo.append
    refine (fares_inside poised (.countedLoop initial condition increment body)
      fun notes' machine' poised' same =>
        runLoop sound steps pending (fair.opening _) coveredInitial coveredCondition
          coveredIncrement coveredBody poised' (fun _ _ _ _ => .inr same) fun _ _ => .inr same).mono
      fun _ _ _ passed flow => ?_
    exact ⟨flow, (passed.poised poised).standing, declared_of_declaresNothing rfl⟩
  | function decl =>
    have plain : PlainName decl.name.name := (sound _ here).proper.2
    have sites : Covered text (functionSites (spot.nesting.past (.function decl)) decl) := by
      exact covered.cons.2
    have declares := fares_declareFunction poised plain sites (allows _ rfl)
    refine (declares.bind fun _ notes machine passed ends => ?_ :
      Fares text terms _ _ (_ >>= fun _ => pure Flow.normal) _)
    exact .pure passed.upheld
      ⟨fineFlow_of_ne (by simp), ends.1, declared_of_bound rfl ends.2⟩
  | returnValue keyword value =>
    refine (evaluateOptional sound steps pending fair poised covered.cons.2).bind
      fun value notes machine passed fine => ?_
    refine .pure passed.upheld
      ⟨?_, (passed.poised poised).standing, declared_of_declaresNothing rfl⟩
    rintro _ ⟨⟩
    exact fine
  | breakLoop keyword | continueLoop keyword =>
    exact .pure poised.toUpheld
      ⟨fineFlow_of_ne (by simp), poised.standing, declared_of_declaresNothing rfl⟩
  | classDecl decl =>
    have plain : PlainName decl.name.name := (sound _ here).proper.2
    refine .mark poised whole (by simp [Phase.operands]) fun notes poised => ?_
    refine (fares_declareClass rules poised plain whole (allows _ rfl)).bind
      fun _ notes machine passed ends => ?_
    exact .pure passed.upheld
      ⟨fineFlow_of_ne (by simp), ends.1, declared_of_bound rfl ends.2⟩
termination_by structural steps

theorem executeAll (sound : rules.Suits text)
    (steps pending : Nat) {terms spot notes machine stmts} (fair : terms.Fair)
    (poised : Poised text terms notes machine spot)
    (covered : Covered text (stmtsSites spot.nesting stmts))
    (allows : ∀ stmt ∈ stmts, Allows terms machine.frame.scope stmt) :
    Fares text terms notes machine (Traced.executeAll rules steps pending spot stmts)
      fun flow _ after => FineFlow terms.watch flow after.store := by
  rw [Traced.executeAll.eq_def]
  match steps with
  | 0 => exact .exhaust
  | steps + 1 =>
  cases stmts with
  | nil =>
    exact .pure poised.toUpheld (fineFlow_of_ne (by simp))
  | cons stmt rest =>
    refine (execute sound steps pending fair poised covered.append.1
      (allows stmt List.mem_cons_self)).bind fun flow notes machine passed ends => ?_
    cases flow with
    | normal =>
      refine executeAll sound steps pending fair ⟨passed.upheld, ends.2.1⟩ covered.append.2
        fun other member => ?_
      rw [passed.frame]
      exact allows other (List.mem_cons_of_mem _ member)
    | _ => exact .pure passed.upheld ends.1
termination_by structural steps

theorem executeOptional (sound : rules.Suits text)
    (steps pending : Nat) {terms spot notes machine stmt} (fair : terms.Fair)
    (poised : Poised text terms notes machine spot)
    (covered : Covered text (optionalStmtSites spot.nesting stmt))
    (allows : ∀ found, stmt = some found → Allows terms machine.frame.scope found) :
    Fares text terms notes machine (Traced.executeOptional rules steps pending spot stmt)
      fun flow notes' after => FineFlow terms.watch flow after.store ∧
        Standing notes'.origins after (spot.pastOptional stmt) := by
  rw [Traced.executeOptional.eq_def]
  match steps with
  | 0 => exact .exhaust
  | steps + 1 =>
  cases stmt with
  | none =>
    exact .pure poised.toUpheld ⟨fineFlow_of_ne (by simp), poised.standing⟩
  | some stmt =>
    exact (execute sound steps pending fair poised covered (allows stmt rfl)).mono
      fun _ _ _ _ ends => ⟨ends.1, ends.2.1⟩
termination_by structural steps

theorem runLoop (sound : rules.Suits text)
    (steps pending : Nat) {terms spot notes machine body condition increment initial}
    (fair : terms.Fair) (coveredInitial : Covered text (optionalStmtSites spot.nesting initial))
    (coveredCondition : Covered text (optionalSites (spot.nesting.pastOptional initial) condition))
    (coveredIncrement : Covered text (optionalSites (spot.nesting.pastOptional initial) increment))
    (coveredBody : Covered text (stmtSites (spot.nesting.pastOptional initial) body))
    (poised : Poised text terms notes machine spot)
    (allowsInitial : ∀ found, initial = some found → Allows terms machine.frame.scope found)
    (allowsBody : Allows terms machine.frame.scope body) :
    Fares text terms notes machine
      (Traced.runLoop rules steps pending spot initial condition increment body)
      fun flow _ after => FineFlow terms.watch flow after.store := by
  rw [Traced.runLoop.eq_def]
  match steps with
  | 0 => exact .exhaust
  | steps + 1 =>
  refine (executeOptional sound steps pending fair poised coveredInitial allowsInitial).bind
    fun _ notes machine passed ends => ?_
  rw [← passed.frame] at allowsBody
  exact repeatLoop sound steps pending fair coveredCondition coveredIncrement coveredBody
    ⟨passed.upheld, ends.2⟩ allowsBody
termination_by structural steps

theorem repeatLoop (sound : rules.Suits text)
    (steps pending : Nat) {terms spot notes machine body condition increment}
    (fair : terms.Fair) (coveredCondition : Covered text (optionalSites spot.nesting condition))
    (coveredIncrement : Covered text (optionalSites spot.nesting increment))
    (coveredBody : Covered text (stmtSites spot.nesting body))
    (poised : Poised text terms notes machine spot)
    (allows : Allows terms machine.frame.scope body) :
    Fares text terms notes machine
      (Traced.repeatLoop rules steps pending spot condition increment body)
      fun flow _ after => FineFlow terms.watch flow after.store := by
  rw [Traced.repeatLoop.eq_def]
  match steps with
  | 0 => exact .exhaust
  | steps + 1 =>
  refine (loopCondition sound steps pending fair poised coveredCondition).bind
    fun holds notes machine passed _ => ?_
  have poised := passed.poised poised
  rw [← passed.frame] at allows
  cases holds with
  | false => exact .pure poised.toUpheld (fineFlow_of_ne (by simp))
  | true =>
    refine (execute sound steps pending fair poised coveredBody allows).bind
      fun flow notes machine passed ends => ?_
    have poised := passed.poised poised
    rw [← passed.frame] at allows
    have again : Fares text terms notes machine (do
        let _ ← Traced.evaluateOptional rules steps pending spot increment
        Traced.repeatLoop rules steps pending spot condition increment body)
        fun flow _ after => FineFlow terms.watch flow after.store := by
      refine (evaluateOptional sound steps pending fair poised coveredIncrement).bind
        fun _ notes machine passed _ => ?_
      rw [← passed.frame] at allows
      exact repeatLoop sound steps pending fair coveredCondition coveredIncrement coveredBody
        (passed.poised poised) allows
    cases flow with
    | broken => exact .pure poised.toUpheld (fineFlow_of_ne (by simp))
    | returned value => exact .pure poised.toUpheld ends.1
    | normal => exact again
    | continued => exact again
termination_by structural steps

theorem loopCondition (sound : rules.Suits text)
    (steps pending : Nat) {terms spot notes machine condition}
    (fair : terms.Fair) (poised : Poised text terms notes machine spot)
    (covered : Covered text (optionalSites spot.nesting condition)) :
    Fares text terms notes machine
      (Traced.loopCondition rules steps pending spot condition) Anything := by
  rw [Traced.loopCondition.eq_def]
  match steps with
  | 0 => exact .exhaust
  | steps + 1 =>
  cases condition with
  | none =>
    exact .pure poised.toUpheld trivial
  | some condition =>
    refine (evaluate sound steps pending fair poised covered).bind
      fun value notes machine passed _ => ?_
    exact fares_attempt passed.upheld condition.position (fair_truth value)
termination_by structural steps

end

end Steady

end ClassScript.Run
