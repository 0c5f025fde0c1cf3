import ClassScript.Proofs.Furnishing

/-!
Every instance that anything can get at has all of its fields, with the values of the nearest
declarations when its constructor begins.
-/

set_option autoImplicit false

namespace ClassScript

open Run

namespace Run

def HasField (store : Store) (ref : ClassRef) (name : String) : Prop :=
  ∃ ancestor found field, Inherits store ref ancestor ∧ store.classes[ancestor]? = some found ∧
    field ∈ found.decl.fields ∧ field.name.name = name

theorem Formed.nearest_of_hasField {scene : Scene} (formed : Formed scene) {ref : ClassRef}
    (inside : ref < scene.store.classes.size) {name : String}
    (has : HasField scene.store ref name) :
    ∃ owner field, Nearest scene.store (ownField name) ref (some (owner, field)) := by
  obtain ⟨result, walk⟩ := formed.exists_nearest (ownField name) inside
  cases result with
  | some last => exact ⟨last.1, last.2, walk⟩
  | none =>
    obtain ⟨ancestor, found, field, inherits, known, isField, named⟩ := has
    have lacks := ownField_eq_none_iff.mp (walk.lacks inherits known)
    exact absurd named (lacks field isField)

theorem Formed.nearest_of_not_hasField {scene : Scene} (formed : Formed scene) {ref : ClassRef}
    (inside : ref < scene.store.classes.size) {name : String}
    (lacks : ¬HasField scene.store ref name) : Nearest scene.store (ownField name) ref none := by
  apply (formed.nearest_none_iff inside).mpr
  intro ancestor found inherits known
  apply ownField_eq_none_iff.mpr
  intro field isField named
  exact lacks ⟨ancestor, found, field, inherits, known, isField, named⟩

/-- Reading a property that is a field, if the field may be used. -/
def fieldRead (machine : Machine) (member : Member) (name : Identifier) (value : Value) :
    Outcome Value :=
  if mayUse machine.store machine.frame.classRef member then .done value machine
  else .stopped (.fault
    { value := .access member.visibility .field name.name
        ((machine.store.classes[member.owner]?.map ClassObject.name).getD "<unknown>")
      position := name.position }) machine

private theorem readProperty_of_field {machine : Machine} {ref : InstanceRef} {name : Identifier}
    {value : Value} {found : ClassObject} {member : Member}
    (set : machine.store.getField? ref name.name = some value)
    (known : machine.store.classOf? ref = some found)
    (declared : found.fields.find? name.name = some member) :
    readProperty ref name machine = fieldRead machine member name value := by
  simp only [readProperty, inspect_bind, set, known, Option.bind_some, declared, checkField]
  simp only [bind, checkAccess_eq, fieldRead]
  by_cases allowed : mayUse machine.store machine.frame.classRef member = true
  · rw [if_pos allowed, if_pos allowed]
    rfl
  · rw [if_neg allowed, if_neg allowed]

/-- How an instance is made: after the checks it gets exactly the fields that its class and the
ancestors declare, each as the nearest initializer says, and then its constructor runs. -/
structure Constructs (rules : Rules) (machine : Machine) (ref : ClassRef) (made : ClassObject)
    (arguments : List Value) (position : Position) (steps : Nat) : Prop where
  stages : call rules (steps + 2) (.classObject ref) arguments position machine =
    (do
      checkConstructor made arguments position
      let receiver ← setUp rules steps ref
      construct rules steps made receiver arguments position : Eval Value) machine
  fields : ∀ receiver after, setUp rules steps ref machine = .done receiver after →
    ∃ gifts, Furnished rules machine ref receiver after gifts ∧
      (∀ name, ¬HasField machine.store ref name → after.store.getField? receiver name = none) ∧
      ∀ name, HasField machine.store ref name → ∃ owner field value,
        Nearest machine.store (ownField name) ref (some (owner, field)) ∧
        { owner, field, value } ∈ gifts ∧ after.store.getField? receiver name = some value

/-- Reading a field that the class of an instance or an ancestor declares: the value if the nearest
declaration allows the use, and else a refusal. -/
def ReadsField (machine : Machine) (ref : InstanceRef) (found : Instance) (name : Identifier) :
    Prop :=
  ∃ owner field value,
    Nearest machine.store (ownField name.name) found.classRef (some (owner, field)) ∧
    found.fields.find? name.name = some value ∧
    readProperty ref name machine =
      fieldRead machine { visibility := field.visibility, owner } name value

/-- At a moment of a run, whatever is held, acted on or yielded is complete, and instances are made
and declared fields are read as they should be. -/
structure Moment.AllComplete (rules : Rules) (moment : Moment) : Prop where
  held : ∀ ref, Holds moment.machine.store (.object ref) → Complete moment.machine.store ref
  operands : ∀ ref, .object ref ∈ moment.phase.operands → Complete moment.machine.store ref
  yields : ∀ expr steps ref after, moment.node = .expr expr →
    evaluate rules steps expr moment.machine = .done (.object ref) after →
    Complete after.store ref
  constructs : ∀ callee position arguments ref values made,
    moment.node = .expr (.call callee position arguments) →
    moment.phase = .acts (.classObject ref :: values) →
    moment.machine.store.classes[ref]? = some made →
    ∀ steps, Constructs rules moment.machine ref made values position steps
  reads : ∀ object name ref found, moment.node = .expr (.property object name) →
    moment.phase = .acts [.object ref] → moment.machine.store.instances[ref]? = some found →
    HasField moment.machine.store found.classRef name.name →
    ReadsField moment.machine ref found name

section Moments

variable {text : Site → Prop} {rules : Rules} {machine : Machine}

private theorem constructs (sound : rules.Suits text) {notes : Notes}
    (coherent : Coherent text notes machine.store) (tended : Tended .full (notes.scene machine))
    {ref : Nat} {made : ClassObject} (stored : machine.store.classes[ref]? = some made)
    (arguments : List Value) (position : Position) (steps : Nat) :
    Constructs rules machine ref made arguments position steps := by
  have inside := (Array.getElem?_eq_some_iff.mp stored).1
  constructor
  · rw [call]
    exact instantiate_eq stored arguments position
  · intro receiver after ends
    obtain ⟨gifts, furnished⟩ := exists_furnished sound coherent tended inside ends
    have formed := tended.formed trivial
    refine ⟨gifts, furnished, ?_, ?_⟩
    · intro name lacks
      have walk := formed.nearest_of_not_hasField inside lacks
      exact furnished.getField?_of_undeclared formed walk
    · intro name has
      obtain ⟨owner, field, walk⟩ := formed.nearest_of_hasField inside has
      obtain ⟨value, isGift, set⟩ := furnished.getField?_of_declared formed walk
      exact ⟨owner, field, value, walk, isGift, set⟩

private theorem readsField {origins : Array (Option Construct)}
    (formed : Formed { origins, store := machine.store }) {ref : Nat}
    (complete : Complete machine.store ref) {found : Instance}
    (stored : machine.store.instances[ref]? = some found) {name : Identifier}
    (has : HasField machine.store found.classRef name.name) :
    ReadsField machine ref found name := by
  obtain ⟨same, stored', inside, fields⟩ := complete
  obtain rfl := Option.some.inj (stored.symm.trans stored')
  obtain ⟨owner, field, walk⟩ := formed.nearest_of_hasField inside has
  have known := Array.getElem?_eq_getElem inside
  have declared := formed.find?_fields known walk
  obtain ⟨ancestor, declaring, mention, inherits, stands, isField, named⟩ := has
  have isSet := fields ancestor declaring mention inherits stands isField
  rw [named] at isSet
  obtain ⟨value, set⟩ := Option.isSome_iff_exists.mp isSet
  refine ⟨owner, field, value, walk, set, ?_⟩
  refine readProperty_of_field ?_ ?_ declared
  · simpa only [Store.getField?, stored] using set
  · simpa only [Store.classOf?, stored] using known

theorem Moment.Live.allComplete (sound : rules.Suits text)
    {moment : Moment} (live : moment.Live text .full) : moment.AllComplete rules := by
  obtain ⟨notes, same, -, ready⟩ := live.ready
  have tended : Tended .full (notes.scene moment.machine) := by
    rw [Notes.scene, same]
    exact live.tended
  constructor
  · exact fun ref holds => (live.tended.held _ holds trivial).2
  · exact fun ref member => ((live.operands _ member).whole trivial).2
  · intro expr steps ref after node ends
    have covered := live.covered
    rw [node] at covered
    have poised : Poised text (.declaring []) notes moment.machine moment.spot :=
      ready.standing.poised ready.coherent tended
    have fares := Steady.evaluate sound steps 0 (Terms.declaring_fair []) poised covered
    obtain ⟨_, -, fine⟩ :=
      fares.of_done ((Traced.erases rules steps).evaluate True rfl moment.spot expr) ends
    exact (fine.whole trivial).2
  · intro callee position arguments ref values made node acts stored steps
    exact Run.constructs sound ready.coherent tended stored values position steps
  · intro object name ref found node acts stored has
    have operand : Value.object ref ∈ moment.phase.operands := by
      rw [acts]
      exact List.mem_singleton.mpr rfl
    exact readsField (live.tended.formed trivial) ((live.operands _ operand).whole trivial).2
      stored has

end Moments

end Run

/-- Every instance that a session holds, comes across or yields has all the fields that its class
and the ancestors declare, and keeps them. -/
theorem visible_instances_are_complete {chronicle : Chronicle} (reached : chronicle.Reached) :
    (∀ ref, Holds chronicle.session.machine.store (.object ref) →
      Complete chronicle.session.machine.store ref) ∧
    ∀ steps input,
      (∀ moment ∈ (chronicle.ask steps input).1.moments,
        moment.AllComplete (chronicle.session.check input).2.rules) ∧
      ((chronicle.ask steps input).1.moments.Pairwise fun later earlier =>
        ∀ ref, Complete earlier.machine.store ref → Complete later.machine.store ref) ∧
      (∀ after, (chronicle.session.respond steps input).session? = some after →
        ∀ moment ∈ (chronicle.ask steps input).1.moments, ∀ ref,
          Complete moment.machine.store ref → Complete after.machine.store ref) ∧
      ∀ ref after, chronicle.session.respond steps input = .done (some (.object ref)) after →
        Complete after.machine.store ref := by
  refine ⟨fun ref holds => (reached.sound.tended.held _ holds trivial).2, fun steps input => ?_⟩
  have asked := reached.asked steps input
  refine ⟨?_, ?_, ?_, ?_⟩
  · intro moment member
    exact (asked.logged.live moment member).allComplete (reached.sound.suits input)
  · apply asked.logged.ordered.imp_of_mem
    intro later earlier _ member changed ref complete
    exact complete.changed ((asked.logged.live earlier member).tended.formed trivial) changed
  · intro after answer moment member ref complete
    have changed := (asked.ends after answer).1 moment member
    exact complete.changed ((asked.logged.live moment member).tended.formed trivial) changed
  · exact fun ref after answer => (((asked.fine _ after answer).1 _ rfl).whole trivial).2

def heirText : Input :=
  .program "class A { var f = 1; var h; } class B extends A { var f = 2; } var b = B();"

/-- An instance of the heir has all of its fields where a variable holds it. -/
theorem heir_instance_is_complete :
    ∃ chronicle : Chronicle, chronicle.Reached ∧ ∃ ref,
      chronicle.session.machine.store.getHere? Store.globalScope "b" = some (.object ref) ∧
      Complete chronicle.session.machine.store ref := by
  have made : ((Session.start {} (fun _ => 0) .capturing).respond 60 heirText).session?.any
      (fun after => (after.machine.store.getHere? Store.globalScope "b").map Value.kind =
        some .object) = true := by
    decide +kernel
  obtain ⟨after, answer, isObject⟩ := Option.any_eq_true _ _ |>.mp made
  have reached := (Chronicle.Reached.start {} (fun _ => 0) .capturing).answered answer
  obtain ⟨value, bound, kind⟩ := Option.map_eq_some_iff.mp (of_decide_eq_true isObject)
  cases value with
  | object ref =>
    exact ⟨_, reached, ref, bound, (visible_instances_are_complete reached).1 ref (.scope bound)⟩
  | _ => cases kind

end ClassScript
