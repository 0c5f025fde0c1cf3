import ClassScript.Proofs.GlobalSupply
import ClassScript.Proofs.Privilege

/-!
The globals of a session, as the static checks know them and as the store holds them: the store
never has more, and as long as nothing fails while it runs the two are the same.
-/

set_option autoImplicit false

namespace ClassScript

open Run

private theorem bound_initial (name : String) :
    Bound Store.initial name ↔ Binding.Globals.initial.contains name := by
  have held : Bound Store.initial name ↔
      (Dict.ofList (Builtin.all.map fun which => (which.name, Value.builtin which))).contains
        name := Iff.rfl
  rw [held, Binding.Globals.contains, Binding.Globals.initial, Dict.ofList, Dict.ofList,
    Dict.contains_insertAll, Dict.contains_insertAll, List.map_map, List.map_map]
  rfl

theorem Binding.Depths.unnoted_of_merge {depths more : Binding.Depths} {id : RefId}
    (unnoted : (depths.merge more).find? id = none) :
    depths.find? id = none ∧ more.find? id = none := by
  rw [Binding.Depths.find?_merge, Option.or_eq_none_iff] at unnoted
  exact unnoted.symm

/-- What the static checks find out of the globals of a text that passes them. -/
structure Session.Grants (session : Session) (code : Code) (ready : Session)
    (found : Binding.Depths) : Prop where
  depths : ready.depths = session.depths.merge found
  names : ∀ name, ready.globals.contains name ↔
    session.globals.contains name ∨ name ∈ code.declared
  granted : CodeGranted (fun name => session.globals.contains name) found code
  sites : Covered (Site.Granted (fun name => ready.globals.contains name) found) code.sites

private theorem Session.grants_of_check {session ready : Session} {input : Input} {code : Code}
    (checked : session.check input = (.ok code, ready)) :
    ∃ found, session.Grants code ready found := by
  obtain ⟨resolution, limit, resolved, -, tidy, rfl⟩ := resolves_of_check checked
  refine ⟨resolution.depths, ?_⟩
  cases code with
  | program statements =>
    obtain ⟨names, granted, sites⟩ := Binding.globals_of_resolveProgram tidy.proper resolved
    exact ⟨rfl, names, granted, sites⟩
  | expression expr =>
    obtain ⟨names, granted⟩ := Binding.globals_of_resolveLone tidy.proper resolved
    refine ⟨rfl, fun name => ?_, granted, fun site member => ?_⟩
    · have nothing : name ∉ (Code.expression expr).declared := by simp [Code.declared]
      exact (names name).trans (or_iff_left nothing).symm
    · exact (granted site member).mono (fun name known => (names name).mpr known)
        fun _ noted => noted

namespace Chronicle

variable {chronicle : Chronicle} {steps : Nat} {input : Input} {after : Session}

theorem contains_of_answer
    (answer : (chronicle.session.respond steps input).session? = some after) (name : String) :
    after.globals.contains name ↔
      chronicle.session.globals.contains name ∨ name ∈ chronicle.declared input := by
  have responds := chronicle.session.responds steps input
  rw [declared]
  generalize chronicle.session.respond steps input = reply at answer responds
  cases responds with
  | refused checked =>
    obtain rfl := Option.some.inj answer
    rw [checked, (Session.check_error checked).1]
    simp
  | done checked ran =>
    obtain ⟨found, grants⟩ := Session.grants_of_check checked
    obtain rfl := Option.some.inj answer
    rw [checked]
    exact grants.names name
  | stopped checked ran =>
    obtain ⟨found, grants⟩ := Session.grants_of_check checked
    obtain rfl := Option.some.inj answer
    rw [checked]
    exact grants.names name
  | exhausted => cases answer

variable {name : String}

theorem Reached.known_of_bound (reached : chronicle.Reached)
    (bound : Bound chronicle.session.machine.store name) :
    chronicle.session.globals.contains name := by
  induction reached with
  | start settings clock sink => exact (bound_initial name).mp bound
  | @answered chronicle steps input after reached answer ih =>
    have asked := reached.asked steps input
    obtain ⟨-, fared⟩ := asked.ends after answer
    obtain ⟨scope, stored⟩ := reached.sound.coherent.globals
    have inside := (Array.getElem?_eq_some_iff.mp stored).1
    apply (contains_of_answer answer name).mpr
    rcases fared.names Store.globalScope name inside bound with old | new
    · exact .inl (ih old)
    · exact .inr (new rfl)
  | takeLines reached ih => exact ih bound

/-- The chronicles of sessions in which every text has run to its end, or has been refused before it
ran. -/
inductive Untroubled : Chronicle → Prop
  | start (settings : Settings) (clock : Nat → Float) (sink : Sink) :
    Untroubled (start settings clock sink)
  | answered {chronicle : Chronicle} {steps : Nat} {input : Input} {value : Option Value}
    {after : Session} (untroubled : Untroubled chronicle)
    (answer : chronicle.session.respond steps input = .done value after) :
    Untroubled (chronicle.follow steps input after)
  | refused {chronicle : Chronicle} {steps : Nat} {input : Input} {failure : Failure}
    {after : Session} (untroubled : Untroubled chronicle)
    (answer : chronicle.session.respond steps input = .failed failure after)
    (static : failure.isStatic) : Untroubled (chronicle.follow steps input after)
  | takeLines {chronicle : Chronicle} (untroubled : Untroubled chronicle) :
    Untroubled { chronicle with session := chronicle.session.takeLines.2 }

private theorem Untroubled.reached (untroubled : chronicle.Untroubled) : chronicle.Reached := by
  induction untroubled with
  | start settings clock sink => exact .start settings clock sink
  | answered _ answer reached => exact .answered reached (by rw [answer]; rfl)
  | refused _ answer _ reached => exact .answered reached (by rw [answer]; rfl)
  | takeLines _ reached => exact .takeLines reached

theorem check_of_done {value : Option Value}
    (answer : chronicle.session.respond steps input = .done value after) :
    ∃ code ready, chronicle.session.check input = (.ok code, ready) ∧
      after = { ready with machine := after.machine } := by
  have responds := chronicle.session.responds steps input
  rw [answer] at responds
  cases responds with
  | done checked ran => exact ⟨_, _, checked, rfl⟩

private theorem Untroubled.bound_of_known (untroubled : chronicle.Untroubled)
    (known : chronicle.session.globals.contains name) :
    Bound chronicle.session.machine.store name := by
  induction untroubled with
  | start settings clock sink => exact (bound_initial name).mpr known
  | @answered chronicle steps input value after untroubled answer ih =>
    have asked := untroubled.reached.asked steps input
    have goesOn : (chronicle.session.respond steps input).session? = some after := by
      rw [answer]
      rfl
    rcases (contains_of_answer goesOn name).mp known with old | new
    · have bound : Bound chronicle.scene.store name := ih old
      exact bound.changed (asked.ends after goesOn).2.changed
    · exact (asked.fine value after answer).2 name new
  | @refused chronicle steps input failure after untroubled answer static ih =>
    obtain ⟨same, -⟩ := Session.check_error (Session.check_of_static answer static)
    rw [same] at known ⊢
    exact ih known
  | takeLines untroubled ih => exact ih known

private theorem Untroubled.granted (untroubled : chronicle.Untroubled) :
    Covered (Site.Granted (Bound chronicle.session.machine.store) chronicle.session.depths)
      chronicle.sites := by
  induction untroubled with
  | start settings clock sink => exact .nil
  | @answered chronicle steps input value after untroubled answer ih =>
    have next := Untroubled.answered untroubled answer
    have asked := untroubled.reached.asked steps input
    have goesOn : (chronicle.session.respond steps input).session? = some after := by
      rw [answer]
      rfl
    have changed := (asked.ends after goesOn).2.changed
    obtain ⟨code, ready, checked, same⟩ := check_of_done answer
    obtain ⟨found, grants⟩ := Session.grants_of_check checked
    have depths : after.depths = chronicle.session.depths.merge found := by
      rw [same]
      exact grants.depths
    have globals : after.globals = ready.globals := by rw [same]
    simp only [follow, sitesWith, checked]
    rw [depths]
    apply Covered.both
    · intro site member
      refine (ih site member).mono (fun name bound => ?_) fun id unnoted =>
        (Binding.Depths.unnoted_of_merge unnoted).1
      exact bound.changed changed
    · intro site member
      refine (grants.sites site member).mono (fun name isKnown => ?_) fun id unnoted =>
        (Binding.Depths.unnoted_of_merge unnoted).2
      have isKnown : (chronicle.follow steps input after).session.globals.contains name :=
        globals ▸ isKnown
      exact next.bound_of_known isKnown
  | @refused chronicle steps input failure after untroubled answer static ih =>
    have checked := Session.check_of_static answer static
    obtain ⟨same, -⟩ := Session.check_error checked
    simp only [follow, sitesWith, checked]
    rw [same]
    exact ih
  | takeLines untroubled ih => exact ih

private theorem Untroubled.supplied (untroubled : chronicle.Untroubled) (steps : Nat)
    (input : Input) : ∀ moment ∈ (chronicle.ask steps input).1.moments,
      moment.Supplied (chronicle.session.check input).2.rules := by
  have sound := untroubled.reached.sound
  cases result : chronicle.session.check input with
  | mk found ready =>
    cases found with
    | error failure =>
      simp only [ask, result, sound.moments]
      simp
    | ok code =>
      obtain ⟨found, grants⟩ := Session.grants_of_check result
      obtain ⟨_, accepts⟩ := Session.accepts_of_check result
      have depths : ready.rules.depths = chronicle.session.depths.merge found := grants.depths
      have poised := sound.poised result
      have granted : CodeGranted (Bound ready.machine.store) ready.rules.depths code := by
        rw [depths, accepts.store]
        exact grants.granted.mono (fun name known => untroubled.bound_of_known known)
          fun id unnoted => (Binding.Depths.unnoted_of_merge unnoted).2
      have coherent : Coherent (Served (· ∈ chronicle.sites ++ code.sites)
          (Bound ready.machine.store) ready.rules.depths) chronicle.notes ready.machine.store := by
        rw [depths, accepts.store]
        refine sound.coherent.mono fun site member => ⟨List.mem_append_left _ member, ?_⟩
        exact (untroubled.granted site member).mono (fun _ bound => bound) fun id unnoted =>
          (Binding.Depths.unnoted_of_merge unnoted).1
      have supplied := supplies_noted (sound.sites_checked result) steps granted
        (fun _ member => List.mem_append_right _ member)
        (poised.standing.poised coherent poised.tended)
      simp only [ask, result]
      exact fun _ => supplied.fits_of_fresh sound.moments

end Chronicle

namespace Run

/-- Where the text binds a variable to no scope, its use at the moment finds a global. -/
structure Moment.FindsGlobals (rules : Rules) (moment : Moment) : Prop where
  reads : ∀ id name steps, moment.node = .expr (.reference id name) →
    moment.spot.nesting.depth? name.name = none →
    ∃ value, evaluate rules (steps + 1) (.reference id name) moment.machine =
      .done value moment.machine
  writes : ∀ id name expr value, moment.node = .expr (.assign id name expr) →
    moment.spot.nesting.depth? name.name = none →
    ∃ after, writeVariable rules id name value moment.machine = .done () after
  inherits : ∀ decl parent, moment.node = .stmt (.classDecl decl) →
    decl.superclass = some parent → moment.spot.nesting.depth? parent.name.name = none →
    ∃ value, readVariable rules parent.id parent.name moment.machine =
      .done value moment.machine

variable {id : RefId} {machine : Machine} {name : Identifier} {rules : Rules}

private theorem readVariable_of_bound (unnoted : rules.depths.find? id = none)
    (bound : Bound machine.store name.name) :
    ∃ value, readVariable rules id name machine = .done value machine := by
  obtain ⟨value, found⟩ := Option.isSome_iff_exists.mp bound
  refine ⟨value, ?_⟩
  simp only [readVariable, frame_bind, inspect_bind, unnoted, found]
  rfl

private theorem writeVariable_of_bound (unnoted : rules.depths.find? id = none)
    (bound : Bound machine.store name.name) (value : Value) :
    ∃ after, writeVariable rules id name value machine = .done () after := by
  have held : (machine.store.getHere? Store.globalScope name.name).isSome = true := bound
  simp only [writeVariable, frame_bind, inspect_bind, unnoted, Store.assignHere?, Store.assignAt?,
    Store.holder?, Store.ancestor?, if_pos held]
  exact ⟨_, rfl⟩

theorem Moment.Supplied.findsGlobals {moment : Moment} (supplied : moment.Supplied rules)
    (sound : moment.site.Sound rules.depths) (outside : moment.spot.nesting.Outside) :
    moment.FindsGlobals rules := by
  obtain ⟨spot, node, phase, pending, origins, completed, machine⟩ := moment
  constructor
  · rintro id name steps rfl free
    have unnoted := (sound.recorded id _ rfl).trans free
    exact readVariable_of_bound unnoted (supplied outside id name.name rfl unnoted)
  · rintro id name expr value rfl free
    have unnoted := (sound.recorded id _ rfl).trans free
    exact writeVariable_of_bound unnoted (supplied outside id name.name rfl unnoted) value
  · rintro decl parent rfl inherits free
    have use : Site.use? ⟨spot.nesting, .stmt (.classDecl decl)⟩ =
        some (parent.id, spot.nesting.depth? parent.name.name) := by
      simp [Site.use?, inherits]
    have refers : (Node.stmt (.classDecl decl)).mention? =
        some (parent.id, parent.name.name) := by
      simp [Node.mention?, inherits]
    have unnoted := (sound.recorded parent.id _ use).trans free
    exact readVariable_of_bound unnoted (supplied outside parent.id _ refers unnoted)

end Run

/-- The globals of the store are known to the static checks. In a session in which every text has
run to its end or has been refused before it ran, they are those that the static checks know, and
whatever is asked next, code outside of functions finds the globals that it refers to. -/
theorem globals_agree {chronicle : Chronicle} (reached : chronicle.Reached) :
    (∀ name, Bound chronicle.session.machine.store name →
      chronicle.session.globals.contains name) ∧
    (chronicle.Untroubled →
      (∀ name, Bound chronicle.session.machine.store name ↔
        chronicle.session.globals.contains name) ∧
      ∀ steps input, ∀ moment ∈ (chronicle.ask steps input).1.moments,
        moment.spot.nesting.Outside →
        moment.FindsGlobals (chronicle.session.check input).2.rules) := by
  refine ⟨fun name => reached.known_of_bound, fun untroubled => ⟨fun name => ?_, ?_⟩⟩
  · exact ⟨reached.known_of_bound, untroubled.bound_of_known⟩
  · intro steps input moment member outside
    have sound := reached.sound.moments_sound steps input member
    have siteSound := reached.sound.suits input _ sound.site
    exact (untroubled.supplied steps input moment member).findsGlobals siteSound outside

def fieldText : Input :=
  .program "var x = 1; class A { var f = x; }"

def inField (moment : Moment) : Bool :=
  match moment.node, moment.spot.nesting with
  | .expr (.reference _ _), .fields _ .top => true
  | _, _ => false

def reachesField : Reply (Option Value) → Bool
  | .done _ after =>
    (((Chronicle.start {} (fun _ => 0) .capturing).follow 60 fieldText after).ask 60
      (.expression "A()")).1.moments.any inField
  | _ => false

/-- The field finds the global when an instance is made later. -/
theorem field_finds_global :
    ∃ chronicle : Chronicle, chronicle.Reached ∧ chronicle.Untroubled ∧
      ∃ moment ∈ (chronicle.ask 60 (.expression "A()")).1.moments, inField moment ∧
        moment.FindsGlobals (chronicle.session.check (.expression "A()")).2.rules := by
  have present : reachesField
      ((Session.start {} (fun _ => 0) .capturing).respond 60 fieldText) = true := by
    decide +kernel
  cases answer : (Session.start {} (fun _ => 0) .capturing).respond 60 fieldText with
  | done value after =>
    rw [answer] at present
    have untroubled := (Chronicle.Untroubled.start {} (fun _ => 0) .capturing).answered answer
    have reached := untroubled.reached
    obtain ⟨moment, member, isField⟩ := List.any_eq_true.mp present
    have outside : moment.spot.nesting.Outside := by
      unfold inField at isField
      split at isField
      · rename_i place
        rw [place]
        trivial
      · cases isField
    refine ⟨_, reached, untroubled, moment, member, isField, ?_⟩
    exact ((globals_agree reached).2 untroubled).2 60 _ moment member outside
  | _ =>
    rw [answer] at present
    cases present

end ClassScript
