import ClassScript.Proofs.Privilege

/-!
How a new instance gets its fields, from the root of its lineage down and in the order of
declaration, while nothing reaches it.
-/

set_option autoImplicit false

namespace ClassScript

theorem Dict.find?_insertAll {α : Type} (dict : Dict α) (entries : List (String × α))
    (key : String) :
    (dict.insertAll entries).find? key =
      ((entries.reverse.find? fun entry => entry.1 == key).map Prod.snd).or (dict.find? key) := by
  induction entries generalizing dict with
  | nil => rfl
  | cons entry rest ih =>
    have unrolled : dict.insertAll (entry :: rest) = (dict.insert entry.1 entry.2).insertAll rest :=
      rfl
    rw [unrolled, ih, List.reverse_cons, List.find?_append]
    cases rest.reverse.find? fun entry => entry.1 == key with
    | some later => rfl
    | none =>
      rw [Dict.find?_insert]
      by_cases same : entry.1 = key
      · simp [same]
      · simp [same, Ne.symm same]

namespace Run

open Eval

def setUp (rules : Rules) (steps : Nat) (ref : ClassRef) : Eval InstanceRef := do
  let receiver ← add fun store => store.addInstance ref
  let lineage ← inspect fun store => store.lineage ref
  setUpLineage rules steps lineage receiver
  pure receiver

def checkConstructor (made : ClassObject) (arguments : List Value) (position : Position) :
    Eval Unit := do
  checkArity made.arity arguments.length position
  match made.methods.find? constructorName with
  | none => pure ()
  | some constructor => checkAccess constructor.member .constructor constructorName position

def construct (rules : Rules) (steps : Nat) (made : ClassObject) (receiver : InstanceRef)
    (arguments : List Value) (position : Position) : Eval Value :=
  match made.methods.find? constructorName with
  | none => pure (.object receiver)
  | some constructor => do
    let closure ← add fun store => store.bindMethod constructor.closure receiver
    let _ ← callClosure rules steps closure arguments position
    pure (.object receiver)

variable {α : Type} {machine last after : Machine} {rules : Rules} {steps depth : Nat}
  {frame : Frame} {store store' : Store} {scene : Scene} {value : α} {notes : Notes}
  {text : Site → Prop}

private theorem eval_bind_assoc {β γ : Type} (first : Eval α) (second : α → Eval β)
    (third : β → Eval γ) :
    first >>= second >>= third = first >>= fun value => second value >>= third := by
  funext machine
  simp only [bind]
  cases first machine <;> rfl

/-- To make an instance is to check, to set up the fields, and then to run the constructor. -/
theorem instantiate_eq {ref : ClassRef} {made : ClassObject}
    (stored : machine.store.classes[ref]? = some made) (arguments : List Value)
    (position : Position) :
    instantiate rules (steps + 1) ref arguments position machine =
      (do
        checkConstructor made arguments position
        let receiver ← setUp rules steps ref
        construct rules steps made receiver arguments position : Eval Value) machine := by
  rw [instantiate, inspect_bind, stored]
  simp only [checkConstructor, setUp, construct]
  cases made.methods.find? constructorName with
  | none => simp only [eval_bind_assoc]; rfl
  | some constructor => simp only [eval_bind_assoc]; rfl

/-- A value that a new instance is given for a field of a class. -/
structure Gift where
  owner : ClassRef
  field : FieldDecl Expr
  value : Value

def Gift.slot (gift : Gift) : ClassRef × FieldDecl Expr :=
  (gift.owner, gift.field)

def Gift.entry (gift : Gift) : String × Value :=
  (gift.field.name.name, gift.value)

/-- An instance is given values one after the other, each as the initializer of the field yields it
in the scope and under the name of its class, with nothing else done in between. -/
inductive Furnishes (rules : Rules) (receiver : InstanceRef) (depth : Nat) :
    Machine → List Gift → Machine → Prop
  | nil {machine : Machine} (frame : Frame) :
    Furnishes rules receiver depth machine [] { machine with frame }
  | cons {machine after last : Machine} {owner : ClassRef} {found : ClassObject}
    {field : FieldDecl Expr} {steps : Nat} {value : Value} {gifts : List Gift}
    (stored : machine.store.classes[owner]? = some found)
    (yields : evaluateOptional rules steps field.initial
      { machine with frame := { scope := found.scope, classRef := some owner, depth } } =
        .done value after)
    (rest : Furnishes rules receiver depth
      { after with store := after.store.setField receiver field.name.name value } gifts last) :
    Furnishes rules receiver depth machine ({ owner, field, value } :: gifts) last

private theorem Furnishes.of_frame {receiver : InstanceRef} {gifts : List Gift}
    (furnishes : Furnishes rules receiver depth { machine with frame } gifts last) :
    Furnishes rules receiver depth machine gifts last := by
  cases furnishes with
  | nil frame => exact .nil frame
  | cons stored yields rest => exact .cons stored yields rest

private theorem Furnishes.append {receiver : InstanceRef} {middle : Machine}
    {first second : List Gift} (furnishes : Furnishes rules receiver depth machine first middle)
    (furnishes' : Furnishes rules receiver depth { middle with frame } second last) :
    Furnishes rules receiver depth machine (first ++ second) last := by
  induction furnishes with
  | nil => exact Furnishes.of_frame furnishes'
  | cons stored yields _ ih => exact .cons stored yields (ih furnishes')

private theorem chainFrom_congr (same : store'.classes = store.classes) (bound : Nat)
    (ref : ClassRef) : store'.chainFrom bound ref = store.chainFrom bound ref := by
  induction bound generalizing ref with
  | zero => rfl
  | succ bound ih => simp only [Store.chainFrom, same, ih]

private theorem lineage_congr (same : store'.classes = store.classes) (ref : ClassRef) :
    store'.lineage ref = store.lineage ref := by
  rw [Store.lineage, Store.lineage, chainFrom_congr same, same]

def slots (store : Store) (lineage : List ClassRef) : List (ClassRef × FieldDecl Expr) :=
  lineage.flatMap fun owner =>
    ((store.classes[owner]?.map fun found => found.decl.fields).getD []).map fun field =>
      (owner, field)

private theorem find?_slots (store : Store) (lineage : List ClassRef) (name : String) :
    (slots store lineage).reverse.find? (fun slot => slot.2.name.name == name) =
      lineage.reverse.findSome? fun owner =>
        (store.classes[owner]?.bind (ownField name)).map fun field => (owner, field) := by
  rw [slots, List.reverse_flatMap, List.find?_flatMap]
  refine congrArg (lineage.reverse.findSome? ·) (funext fun owner => ?_)
  rw [Function.comp_apply, ← List.map_reverse, List.find?_map]
  cases store.classes[owner]? with
  | none => rfl
  | some found => rfl

theorem Nearest.findSome?_chainFrom {own : ClassObject → Option α} {ref : ClassRef}
    {result : Option (ClassRef × α)} (formed : Formed scene)
    (walk : Nearest scene.store own ref result) :
    ∀ bound, ref < bound →
      ((scene.store.chainFrom bound ref).findSome? fun owner =>
        (scene.store.classes[owner]?.bind own).map fun what => (owner, what)) = result := by
  induction walk with
  | here stored has =>
    intro bound inside
    obtain ⟨bound, rfl⟩ := Nat.exists_eq_succ_of_ne_zero (Nat.ne_zero_of_lt inside)
    simp [Store.chainFrom, stored, has]
  | @above ref parent found result stored lacks inherits _ ih =>
    intro bound inside
    obtain ⟨bound, rfl⟩ := Nat.exists_eq_succ_of_ne_zero (Nat.ne_zero_of_lt inside)
    have older := formed.older ref found parent stored inherits
    obtain ⟨decl, superclass, scope, fields, methods⟩ := found
    obtain rfl : superclass = some parent := inherits
    have rest := ih bound (Nat.lt_of_lt_of_le older (Nat.lt_succ_iff.mp inside))
    simpa [Store.chainFrom, stored, lacks] using rest
  | @root ref found stored lacks alone =>
    intro bound inside
    obtain ⟨bound, rfl⟩ := Nat.exists_eq_succ_of_ne_zero (Nat.ne_zero_of_lt inside)
    obtain ⟨decl, superclass, scope, fields, methods⟩ := found
    obtain rfl : superclass = none := alone
    simp [Store.chainFrom, stored, lacks]

theorem Nearest.find?_lineage {name : String} {ref : ClassRef}
    {result : Option (ClassRef × FieldDecl Expr)} (formed : Formed scene)
    (walk : Nearest scene.store (ownField name) ref result) :
    (slots scene.store (scene.store.lineage ref)).reverse.find?
      (fun slot => slot.2.name.name == name) = result := by
  obtain ⟨found, stored⟩ := walk.stored
  rw [find?_slots, Store.lineage, List.reverse_reverse]
  exact walk.findSome?_chainFrom formed _ (Array.getElem?_eq_some_iff.mp stored).1

private theorem exists_done_of_within {body : Eval α}
    (ends : within frame body machine = .done value last) :
    ∃ after, body { machine with frame } = .done value after ∧
      last = { after with frame := machine.frame } := by
  unfold within at ends
  cases result : body { machine with frame } with
  | done other after =>
    rw [result] at ends
    obtain ⟨rfl, rfl⟩ := Outcome.done.inj ends
    exact ⟨after, rfl, rfl⟩
  | stopped reason after => simp [result] at ends
  | exhausted => simp [result] at ends

theorem Fares.of_done {terms : Terms} {body : Traced α} {plain : Eval α}
    {post : α → Notes → Machine → Prop} (fares : Fares text terms notes machine body post)
    (erases : Traced.Erases body plain) (ends : plain machine = .done value after) :
    ∃ notes', Passed text terms notes machine notes' after ∧ post value notes' after := by
  have result := erases notes machine
  rw [ends] at result
  exact ⟨_, fares.ended (Prod.ext rfl result)⟩

/-- The terms under which an initializer runs: the new instance is out of reach. -/
def Terms.guarding (receiver : InstanceRef) : Terms where
  watch := ⟨True, (· = receiver)⟩
  kept := (· = receiver)
  opened _ _ := True

/-- The terms under which the new instance is given a value. -/
def Terms.secluding (receiver : InstanceRef) : Terms :=
  { Terms.guarding receiver with kept := fun _ => False }

structure Given (text : Site → Prop) (rules : Rules) (receiver : InstanceRef) (depth : Nat)
    (notes : Notes) (machine : Machine) (slots : List (ClassRef × FieldDecl Expr))
    (gifts : List Gift) (notes' : Notes) (after : Machine) : Prop where
  kept : Kept text notes machine notes' after
  tended : Tended (Terms.guarding receiver).watch (notes'.scene after)
  furnishes : Furnishes rules receiver depth machine gifts after
  slots : gifts.map Gift.slot = slots
  fields : ∀ found, machine.store.instances[receiver]? = some found →
    after.store.instances[receiver]? =
      some { found with fields := found.fields.insertAll (gifts.map Gift.entry) }

namespace Given

variable {text : Site → Prop} {rules : Rules} {receiver depth : Nat} {notes notes' notes'' : Notes}
  {machine middle after : Machine} {first second : List (ClassRef × FieldDecl Expr)}
  {gifts gifts' : List Gift}

private theorem nil (coherent : Coherent text notes machine.store)
    (tended : Tended (Terms.guarding receiver).watch (notes.scene machine)) :
    Given text rules receiver depth notes machine [] [] notes machine where
  kept := .refl coherent
  tended := tended
  furnishes := .nil machine.frame
  slots := rfl
  fields _ stored := stored

private theorem append
    (given : Given text rules receiver depth notes machine first gifts notes' middle)
    (given' : Given text rules receiver depth notes' middle second gifts' notes'' after) :
    Given text rules receiver depth notes machine (first ++ second) (gifts ++ gifts') notes''
      after where
  kept := given.kept.trans given'.kept
  tended := given'.tended
  furnishes := given.furnishes.append given'.furnishes
  slots := by rw [List.map_append, given.slots, given'.slots]
  fields found stored := by
    rw [given'.fields _ (given.fields found stored), List.map_append, Dict.insertAll,
      Dict.insertAll, Dict.insertAll, List.foldl_append]

private theorem within {frame : Frame}
    (given : Given text rules receiver depth notes { machine with frame } first gifts notes'
      after) :
    Given text rules receiver depth notes machine first gifts notes'
      { after with frame := machine.frame } where
  kept := ⟨given.kept.coherent, given.kept.grows, rfl⟩
  tended := given.tended
  furnishes := by
    have back : Furnishes rules receiver depth { after with frame := after.frame } [] _ :=
      .nil machine.frame
    have furnishes := given.furnishes.of_frame.append back
    rwa [List.append_nil] at furnishes
  slots := given.slots
  fields := given.fields

end Given

section Giving

variable {text : Site → Prop} {rules : Rules} {receiver : Nat}

variable {store : Store} {value : Value} {after machine : Machine} {depth steps : Nat}
  {notes : Notes} {owner : ClassRef} {spot : Spot}

private theorem getElem?_setField {name : String} {found : Instance}
    (stored : store.instances[receiver]? = some found) :
    (store.setField receiver name value).instances[receiver]? =
      some { found with fields := found.fields.insert name value } := by
  simp [Store.setField, Array.getElem?_modify, stored]

private theorem given_field (sound : rules.Suits text) {found : ClassObject}
    {field : FieldDecl Expr} (poised : Poised text (.guarding receiver) notes machine spot)
    (covered : Covered text (optionalSites spot.nesting field.initial))
    (stored : machine.store.classes[owner]? = some found)
    (stands : machine.frame = { scope := found.scope, classRef := some owner, depth })
    (yields : evaluateOptional rules steps field.initial machine = .done value after) :
    ∃ notes', Given text rules receiver depth notes machine [(owner, field)]
      [{ owner, field, value }] notes'
      { after with store := after.store.setField receiver field.name.name value } := by
  have fair : (Terms.guarding receiver).Fair := fun _ keep => ⟨trivial, keep⟩
  have fares := Steady.evaluateOptional sound steps 0 fair poised covered
  obtain ⟨notes', passed, fine⟩ :=
    fares.of_done ((Traced.erases rules steps).evaluateOptional True rfl spot field.initial) yields
  have set := kept_setField passed.coherent fine.known receiver field.name.name
  have tended : Tended (Terms.secluding receiver).watch (notes'.scene after) := passed.tended
  have reach : ¬(Terms.secluding receiver).kept receiver := fun keep => keep
  have isSet := fared_setField tended reach field.name.name fine.whole
  refine ⟨notes', passed.toKept.trans set, isSet.tended, ?_, rfl, ?_⟩
  · have here : { machine with
        frame := { scope := found.scope, classRef := some owner, depth } } = machine := by
      rw [← stands]
    exact .cons stored (here ▸ yields) (.nil after.frame)
  · -- The initializer has left the instance as it was.
    intro found before
    have same := passed.untouched receiver rfl
    exact getElem?_setField (same.trans before)

private theorem given_fields (sound : rules.Suits text) {found : ClassObject}
    {fields : List (FieldDecl Expr)} (poised : Poised text (.guarding receiver) notes machine spot)
    (covered : Covered text (fieldsSites spot.nesting fields))
    (stored : machine.store.classes[owner]? = some found)
    (stands : machine.frame = { scope := found.scope, classRef := some owner, depth })
    (ends : setUpFields rules steps fields receiver machine = .done () after) :
    ∃ notes' gifts, Given text rules receiver depth notes machine
      (fields.map fun field => (owner, field)) gifts notes' after := by
  induction fields generalizing steps notes machine with
  | nil =>
    cases steps with
    | zero => simp [setUpFields, Eval.exhaust] at ends
    | succ steps =>
      obtain rfl : machine = after := (Outcome.done.inj ends).2
      exact ⟨notes, [], .nil poised.coherent poised.tended⟩
  | cons field rest ih =>
    cases steps with
    | zero => simp [setUpFields, Eval.exhaust] at ends
    | succ steps =>
      obtain ⟨value, middle, yields, ends⟩ := exists_done_of_bind ends
      obtain ⟨notes', given⟩ := given_field sound poised covered.append.1 stored stands yields
      have poised' : Poised text (.guarding receiver) notes' _ spot :=
        (given.kept.ready poised.ready).standing.poised given.kept.coherent given.tended
      obtain ⟨notes'', gifts, given'⟩ := ih poised' covered.append.2
        (given.kept.grows.classes owner found stored) (given.kept.frame.trans stands) ends
      exact ⟨notes'', _, given.append given'⟩

private theorem given_lineage (sound : rules.Suits text)
    {lineage : List ClassRef}
    (ends : setUpLineage rules steps lineage receiver machine = .done () after)
    (stay : ∀ (ref : Nat) found, store.classes[ref]? = some found →
      machine.store.classes[ref]? = some found)
    (inside : ∀ ref ∈ lineage, ref < store.classes.size)
    (coherent : Coherent text notes machine.store)
    (tended : Tended (Terms.guarding receiver).watch (notes.scene machine)) :
    ∃ notes' gifts, Given text rules receiver machine.frame.depth notes machine
      (slots store lineage) gifts notes' after := by
  induction lineage generalizing steps notes machine with
  | nil =>
    cases steps with
    | zero => simp [setUpLineage, Eval.exhaust] at ends
    | succ steps =>
      obtain rfl : machine = after := (Outcome.done.inj ends).2
      exact ⟨notes, [], .nil coherent tended⟩
  | cons ref rest ih =>
    cases steps with
    | zero => simp [setUpLineage, Eval.exhaust] at ends
    | succ steps =>
      have listed := Array.getElem?_eq_getElem (inside ref List.mem_cons_self)
      have stored := stay ref _ listed
      simp only [setUpLineage, inspect_bind, stored, frame_bind] at ends
      obtain ⟨_, middle, here, ends⟩ := exists_done_of_bind ends
      obtain ⟨last, sets, rfl⟩ := exists_done_of_within here
      obtain ⟨covered, ready⟩ := Steady.ready_fields coherent stored
      have poised : Poised text (.guarding receiver) notes _ _ :=
        ready.standing.poised coherent tended
      obtain ⟨notes', gifts, given⟩ := given_fields sound poised covered stored rfl sets
      have given := given.within
      obtain ⟨notes'', gifts', given'⟩ := ih ends
        (fun other found known => given.kept.grows.classes other found (stay other found known))
        (fun other member => inside other (List.mem_cons_of_mem _ member)) given.kept.coherent
        given.tended
      refine ⟨notes'', gifts ++ gifts', ?_⟩
      rw [slots, List.flatMap_cons, listed]
      exact given.append given'

end Giving

structure Furnished (rules : Rules) (machine : Machine) (ref : ClassRef) (receiver : InstanceRef)
    (after : Machine) (gifts : List Gift) : Prop where
  new : receiver = machine.store.instances.size
  /-- Every field of every class of the lineage, once, from the root down. -/
  slots : gifts.map Gift.slot = slots machine.store (machine.store.lineage ref)
  furnishes : Furnishes rules receiver machine.frame.depth
    { machine with store := (machine.store.addInstance ref).2 } gifts after
  exact : after.store.instances[receiver]? =
    some { classRef := ref, fields := Dict.ofList (gifts.map Gift.entry) }

namespace Furnished

variable {rules : Rules} {ref receiver : Nat} {machine after : Machine} {gifts : List Gift}
  (furnished : Furnished rules machine ref receiver after gifts)

include furnished

theorem getField?_eq (name : String) :
    after.store.getField? receiver name =
      (gifts.reverse.find? fun gift => gift.field.name.name == name).map Gift.value := by
  simp only [Store.getField?, furnished.exact]
  rw [Dict.ofList, Dict.find?_insertAll, Dict.find?_empty, Option.or_none, ← List.map_reverse,
    List.find?_map, Option.map_map]
  rfl

variable {name : String} {origins : Array (Option Construct)}
  (formed : Formed { origins, store := machine.store })

include formed

theorem find?_slot {result : Option (ClassRef × FieldDecl Expr)}
    (walk : Nearest machine.store (ownField name) ref result) :
    (gifts.reverse.find? fun gift => gift.field.name.name == name).map Gift.slot = result := by
  have nearest : (Run.slots machine.store (machine.store.lineage ref)).reverse.find?
      (fun slot => slot.2.name.name == name) = result :=
    Nearest.find?_lineage formed walk
  rw [← furnished.slots, ← List.map_reverse, List.find?_map] at nearest
  exact nearest

theorem getField?_of_declared {owner : ClassRef} {field : FieldDecl Expr}
    (walk : Nearest machine.store (ownField name) ref (some (owner, field))) :
    ∃ value, { owner, field, value } ∈ gifts ∧
      after.store.getField? receiver name = some value := by
  obtain ⟨gift, found, same⟩ := Option.map_eq_some_iff.mp (furnished.find?_slot formed walk)
  obtain ⟨rfl, rfl⟩ := Prod.mk.inj same
  refine ⟨gift.value, List.mem_reverse.mp (List.mem_of_find?_eq_some found), ?_⟩
  rw [furnished.getField?_eq, found]
  rfl

theorem getField?_of_undeclared
    (walk : Nearest machine.store (ownField name) ref none) :
    after.store.getField? receiver name = none := by
  have none' := Option.map_eq_none_iff.mp (furnished.find?_slot formed walk)
  rw [furnished.getField?_eq, none']
  rfl

end Furnished

/-- Before its constructor runs, a new instance has exactly what its initializers gave it. -/
theorem exists_furnished (sound : rules.Suits text)
    {ref receiver : Nat} (coherent : Coherent text notes machine.store)
    (tended : Tended .full (notes.scene machine)) (inside : ref < machine.store.classes.size)
    (ends : setUp rules steps ref machine = .done receiver after) :
    ∃ gifts, Furnished rules machine ref receiver after gifts := by
  have rest : (setUpLineage rules steps ((machine.store.addInstance ref).2.lineage ref)
      machine.store.instances.size >>= fun _ => pure machine.store.instances.size)
      { machine with store := (machine.store.addInstance ref).2 } = .done receiver after := ends
  have same : (machine.store.addInstance ref).2.classes = machine.store.classes := rfl
  rw [lineage_congr same] at rest
  obtain ⟨_, last, sets, returns⟩ := exists_done_of_bind rest
  obtain ⟨rfl, rfl⟩ := Outcome.done.inj returns
  have secluded : Tended (Terms.guarding machine.store.instances.size).watch
      (notes.scene { machine with store := (machine.store.addInstance ref).2 }) :=
    (tended.hiding ref).mono ⟨id, fun _ => .inr⟩
  obtain ⟨notes', gifts, given⟩ := given_lineage sound sets (fun _ _ known => known)
    ((tended.formed trivial).lineage_inside inside) (kept_addInstance coherent ref).coherent
    secluded
  refine ⟨gifts, rfl, given.slots, given.furnishes, ?_⟩
  have empty : (machine.store.addInstance ref).2.instances[machine.store.instances.size]? =
      some { classRef := ref, fields := ∅ } := by
    simp [Store.addInstance]
  exact given.fields _ empty

end Run

end ClassScript
