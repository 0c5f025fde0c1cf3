import ClassScript.Proofs.Completeness
import ClassScript.Proofs.Lineage

/-!
Constructors yield the instance that they are called on, however their bodies end.
-/

set_option autoImplicit false

namespace ClassScript

open Run

namespace Run

open Eval

def closure? (store : Store) : Value → Option Closure
  | .function ref => store.functions[ref]?
  | _ => none

def Receives (store : Store) (closure : Closure) (receiver : InstanceRef) : Prop :=
  store.getHere? closure.scope Store.thisName = some (.object receiver) ∧
    receiver < store.instances.size

/-- How a class is called with success: the new instance gets its fields, then its constructor, if
there is one, is bound to it and yields it, and so does the whole. -/
def Makes (rules : Rules) (machine : Machine) (ref : ClassRef) (arguments : List Value)
    (position : Position) (value : Value) (after : Machine) : Prop :=
  value = .object machine.store.instances.size ∧
    ∃ made steps ready, machine.store.classes[ref]? = some made ∧
      setUp rules steps ref machine = .done machine.store.instances.size ready ∧
      ∀ constructor, made.methods.find? constructorName = some constructor →
        ∃ closure bound, (closure, bound) =
            ready.store.bindMethod constructor.closure machine.store.instances.size ∧
          Receives bound closure machine.store.instances.size ∧
          callClosure rules steps closure arguments position { ready with store := bound } =
            .done value after

/-- At a moment of a run, the calls of initializers and of classes that succeed yield what they
should. -/
structure Moment.Constructive (rules : Rules) (moment : Moment) : Prop where
  calls : ∀ callee position arguments ref values closure receiver,
    moment.node = .expr (.call callee position arguments) →
    moment.phase = .acts (.function ref :: values) →
    moment.machine.store.functions[ref]? = some closure → closure.isInitializer = true →
    Receives moment.machine.store closure receiver →
    ∀ steps value after,
      call rules steps (.function ref) values position moment.machine = .done value after →
      value = .object receiver ∧ Receives after.store closure receiver
  makes : ∀ callee position arguments ref values,
    moment.node = .expr (.call callee position arguments) →
    moment.phase = .acts (.classObject ref :: values) →
    ∀ steps value after,
      call rules steps (.classObject ref) values position moment.machine = .done value after →
      Makes rules moment.machine ref values position value after

variable {rules : Rules} {steps : Nat} {closure : Closure} {arguments : List Value} {value : Value}
  {position : Position} {machine after : Machine} {receiver ref : Nat} {made : ClassObject}

private theorem callClosure_initializer (initializer : closure.isInitializer = true)
    (ends : callClosure rules steps closure arguments position machine = .done value after) :
    value = (after.store.getHere? closure.scope Store.thisName).getD .nil := by
  cases steps with
  | zero => simp [callClosure, exhaust] at ends
  | succ steps =>
    obtain ⟨_, _, -, ends⟩ := exists_done_of_bind ends
    obtain ⟨caller, _, -, ends⟩ := exists_done_of_bind ends
    split at ends
    · simp [fail] at ends
    obtain ⟨_, _, -, ends⟩ := exists_done_of_bind ends
    obtain ⟨flow, _, -, ends⟩ := exists_done_of_bind ends
    unfold callResult at ends
    rw [if_pos initializer] at ends
    obtain ⟨rfl, rfl⟩ := Outcome.done.inj ends
    rfl

private theorem checkConstructor_done {made : ClassObject} {result : Unit}
    (ends : checkConstructor made arguments position machine = .done result after) :
    after = machine := by
  obtain ⟨_, middle, arity, allowed⟩ := exists_done_of_bind ends
  obtain rfl := checkArity_done arity
  cases lookup : made.methods.find? constructorName with
  | none =>
    simp only [lookup] at allowed
    exact (Outcome.done.inj allowed).2.symm
  | some constructor =>
    simp only [lookup, checkAccess_eq] at allowed
    split at allowed
    · exact (Outcome.done.inj allowed).2.symm
    · cases allowed

theorem Formed.isInitializer_constructor {scene : Scene} (formed : Formed scene)
    {made : ClassObject} (stored : scene.store.classes[ref]? = some made) {constructor : Method}
    (lookup : made.methods.find? constructorName = some constructor) :
    constructor.closure.isInitializer = true := by
  have inside := (Array.getElem?_eq_some_iff.mp stored).1
  obtain ⟨result, walk⟩ := formed.exists_nearest (ownMethod constructorName) inside
  have table := formed.find?_methods stored walk
  rw [lookup] at table
  cases result with
  | none => cases table
  | some last =>
    obtain ⟨-, entry, -, same, scope, -, rfl⟩ := table
    obtain rfl := Option.some.inj same
    obtain ⟨-, found, -, declares⟩ := walk.inherits
    simpa [Store.methodEntry] using List.find?_some declares

section Calls

variable {text : Site → Prop} {terms : Terms} {notes : Notes}
  (sound : rules.Suits text) (fair : terms.Fair)
  (upheld : Upheld text terms notes machine) (fine : FineValues terms.watch arguments notes machine)

include sound fair upheld

private theorem passed_setUp (inside : ref < machine.store.classes.size)
    (ends : setUp rules steps ref machine = .done receiver after) :
    receiver = machine.store.instances.size ∧ ∃ notes',
      Passed text terms notes machine notes' after ∧
      Fine terms.watch after.store (.object receiver) := by
  have unrolled : (setUpLineage rules steps ((machine.store.addInstance ref).2.lineage ref)
      machine.store.instances.size >>= fun _ => pure machine.store.instances.size)
      { machine with store := (machine.store.addInstance ref).2 } = .done receiver after := ends
  obtain ⟨_, last, sets, returns⟩ := exists_done_of_bind unrolled
  obtain ⟨rfl, rfl⟩ := Outcome.done.inj returns
  have added := Steady.passed_addInstance fair upheld ref
  obtain ⟨notes', passed, whole⟩ := (Steady.fares_setUp fair upheld inside fun fair =>
    Steady.setUpLineage sound steps 0 fair).of_done
      ((Traced.erases rules steps).setUpLineage True rfl _ _) sets
  exact ⟨rfl, notes', added.trans passed, whole⟩

include fine

private theorem callClosure_yields {home : Spot}
    (fits : ClosureFits text notes.origins machine.store closure home)
    (initializer : closure.isInitializer = true)
    (receives : Receives machine.store closure receiver)
    (ends : callClosure rules steps closure arguments position machine = .done value after) :
    value = .object receiver ∧ Receives after.store closure receiver := by
  obtain ⟨notes', passed, -⟩ :=
    (Steady.callClosure sound steps 0 fair upheld fits fine).of_done
      ((Traced.erases rules steps).callClosure True rfl home closure arguments position) ends
  have bound := passed.grows.getHere?_word not_plain_this receives.1
  obtain ⟨later, stored, -⟩ :=
    passed.changed.instance_grows (Array.getElem?_eq_getElem receives.2)
  refine ⟨?_, bound, (Array.getElem?_eq_some_iff.mp stored).1⟩
  rw [callClosure_initializer initializer ends, bound]
  rfl

private theorem constructor_yields (on : terms.watch.on)
    (stored : machine.store.classes[ref]? = some made) {constructor : Method}
    (lookup : made.methods.find? constructorName = some constructor)
    (whole : Whole terms.watch machine.store (.object receiver))
    (ends : callClosure rules steps (machine.store.bindMethod constructor.closure receiver).1
      arguments position
      { machine with store := (machine.store.bindMethod constructor.closure receiver).2 } =
        .done value after) :
    Receives (machine.store.bindMethod constructor.closure receiver).2
        (machine.store.bindMethod constructor.closure receiver).1 receiver ∧
      value = .object receiver := by
  obtain ⟨passed, fits⟩ := (fares_bindMethod upheld stored lookup whole).ended rfl
  obtain ⟨-, found, exists', -⟩ := whole on
  have receives : Receives (machine.store.bindMethod constructor.closure receiver).2
      (machine.store.bindMethod constructor.closure receiver).1 receiver :=
    ⟨getHere?_bindMethod _ _ _, (Array.getElem?_eq_some_iff.mp exists').1⟩
  have initializer : constructor.closure.isInitializer = true :=
    (upheld.tended.formed on).isInitializer_constructor stored lookup
  exact ⟨receives, (callClosure_yields sound fair passed.upheld (fine.passed upheld passed) fits
    initializer receives ends).1⟩

private theorem makes_of_call (on : terms.watch.on)
    (ends : call rules steps (.classObject ref) arguments position machine = .done value after) :
    Makes rules machine ref arguments position value after := by
  match steps, ends with
  | 0, ends => simp [call, exhaust] at ends
  | 1, ends => simp [call, instantiate, exhaust] at ends
  | steps + 2, ends =>
  rw [call] at ends
  cases stored : machine.store.classes[ref]? with
  | none =>
    rw [instantiate, inspect_bind, stored] at ends
    cases ends
  | some made =>
  rw [instantiate_eq stored] at ends
  obtain ⟨_, middle, checked, rest⟩ := exists_done_of_bind ends
  obtain rfl := checkConstructor_done checked
  obtain ⟨receiver, ready, isSetUp, constructs⟩ := exists_done_of_bind rest
  obtain ⟨rfl, notes', passed, whole⟩ := passed_setUp sound fair upheld
    (Array.getElem?_eq_some_iff.mp stored).1 isSetUp
  unfold construct at constructs
  cases lookup : made.methods.find? constructorName with
  | none =>
    rw [lookup] at constructs
    obtain ⟨rfl, rfl⟩ := Outcome.done.inj constructs
    exact ⟨rfl, made, steps, _, stored, isSetUp, by simp [lookup]⟩
  | some constructor =>
    rw [lookup] at constructs
    obtain ⟨closure, bound, binds, constructs⟩ := exists_done_of_bind constructs
    obtain ⟨rfl, rfl⟩ := Outcome.done.inj binds
    obtain ⟨yielded, _, calls, returns⟩ := exists_done_of_bind constructs
    obtain ⟨rfl, rfl⟩ := Outcome.done.inj returns
    obtain ⟨receives, rfl⟩ := constructor_yields sound fair passed.upheld
      (fine.passed upheld passed) on (passed.grows.classes ref made stored) lookup whole.whole calls
    refine ⟨rfl, made, steps, ready, stored, isSetUp, fun other same => ?_⟩
    obtain rfl := Option.some.inj (lookup.symm.trans same)
    exact ⟨_, _, rfl, receives, calls⟩

end Calls

section Moments

variable {text : Site → Prop}

private theorem exists_receives {notes : Notes} {store : Store} {scene : Scene}
    (coherent : Coherent text notes store) (tended : Tended .full scene)
    (same : scene.store = store) (stored : closure? store value = some closure)
    (initializer : closure.isInitializer = true) : ∃ receiver, Receives store closure receiver := by
  subst same
  cases value with
  | function ref =>
    obtain ⟨receiver, bound⟩ := (coherent.noted_function stored).receiver initializer
    obtain ⟨-, found, exists', -⟩ := tended.held _ (.scope bound) trivial
    exact ⟨receiver, bound, (Array.getElem?_eq_some_iff.mp exists').1⟩
  | _ => cases stored

theorem Moment.Live.constructive (sound : rules.Suits text)
    {moment : Moment} (live : moment.Live text .full) : moment.Constructive rules := by
  obtain ⟨notes, same, -, ready⟩ := live.ready
  have tended : Tended .full (notes.scene moment.machine) := by
    rw [Notes.scene, same]
    exact live.tended
  have upheld : Upheld text (.declaring []) notes moment.machine := ⟨ready.coherent, tended⟩
  have fair := Terms.declaring_fair []
  have fine {callee : Value} {values : List Value}
      (acts : moment.phase = .acts (callee :: values)) :
      FineValues Watch.full values notes moment.machine := by
    intro value member
    refine live.operands value ?_
    rw [acts]
    exact List.mem_cons_of_mem _ member
  constructor
  · intro callee position arguments ref values closure receiver _ acts stored initializer receives
      steps value after ends
    cases steps with
    | zero => simp [call, Eval.exhaust] at ends
    | succ steps =>
      rw [call, inspect_bind, stored] at ends
      exact callClosure_yields sound fair upheld (fine acts)
        (ready.coherent.noted_function stored) initializer receives ends
  · intro callee position arguments ref values _ acts steps value after ends
    exact makes_of_call sound fair upheld (fine acts) trivial ends

end Moments

end Run

/-- Every initializer that a session comes across was bound to an instance; a call of it that
succeeds yields this instance, and a call of a class that succeeds yields the new one. -/
theorem initializers_yield_their_receiver {chronicle : Chronicle} (reached : chronicle.Reached) :
    (∀ store, chronicle.Shows store → ∀ value closure, closure? store value = some closure →
      closure.isInitializer = true → ∃ receiver, Receives store closure receiver) ∧
    ∀ steps input, ∀ moment ∈ (chronicle.ask steps input).1.moments,
      moment.Constructive (chronicle.session.check input).2.rules := by
  constructor
  · rintro store (rfl | ⟨steps, input, moment, member, rfl⟩) value closure stored initializer
    · exact exists_receives reached.sound.coherent reached.sound.tended rfl stored initializer
    · have live := (reached.asked steps input).logged.live moment member
      obtain ⟨notes, -, -, ready⟩ := live.ready
      exact exists_receives ready.coherent live.tended rfl stored initializer
  · intro steps input moment member
    exact ((reached.asked steps input).logged.live moment member).constructive
      (reached.sound.suits input)

def keptConstructor : Input :=
  .program "class A { fn init() { while (true) { if (true) { return; } } } }
    var f = A().init; f();"

/-- The constructor that the variable holds was bound to an instance. -/
theorem kept_constructor_receives :
    ∃ chronicle : Chronicle, chronicle.Reached ∧ ∃ value closure receiver,
      chronicle.session.machine.store.getHere? Store.globalScope "f" = some value ∧
      closure? chronicle.session.machine.store value = some closure ∧
      closure.isInitializer = true ∧
      Receives chronicle.session.machine.store closure receiver := by
  have made : ((Session.start {} (fun _ => 0) .capturing).respond 60 keptConstructor).session?.any
      (fun after => ((after.machine.store.getHere? Store.globalScope "f").bind
        (closure? after.machine.store)).any Closure.isInitializer) = true := by
    decide +kernel
  obtain ⟨after, answer, isKept⟩ := Option.any_eq_true _ _ |>.mp made
  obtain ⟨closure, found, initializer⟩ := Option.any_eq_true _ _ |>.mp isKept
  obtain ⟨value, bound, known⟩ := Option.bind_eq_some_iff.mp found
  have reached := (Chronicle.Reached.start {} (fun _ => 0) .capturing).answered answer
  obtain ⟨receiver, receives⟩ := (initializers_yield_their_receiver reached).1 _ (.inl rfl) value
    closure known initializer
  exact ⟨_, reached, value, closure, receiver, bound, known, initializer, receives⟩

end ClassScript
