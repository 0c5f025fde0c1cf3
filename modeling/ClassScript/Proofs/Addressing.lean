import ClassScript.Proofs.Chronicle

/-!
Lexical addressing: the depth that is noted for a reference leads to the scope of the construct
whose names it was found in, and only a variable that is still being declared is missing there.
-/

set_option autoImplicit false

namespace ClassScript

open Run

def Node.reference? : Node → Option (RefId × String)
  | .expr (.reference id name) => some (id, name.name)
  | .expr (.assign id name _) => some (id, name.name)
  | .expr (.this id _) => some (id, "this")
  | .expr (.super id _ _) => some (id, "super")
  | .stmt (.classDecl decl) => decl.superclass.map fun parent => (parent.id, parent.name.name)
  | _ => none

variable {name : String} {depth : Nat}

private theorem Site.use?_eq {site : Site} {id : RefId}
    (reference : site.node.reference? = some (id, name)) :
    site.use? = some (id, site.nesting.depth? name) := by
  obtain ⟨nesting, node⟩ := site
  cases node with
  | expr expr =>
    cases expr <;> simp only [Node.reference?, Option.some.injEq, Prod.mk.injEq, reduceCtorEq]
      at reference <;> obtain ⟨rfl, rfl⟩ := reference <;> rfl
  | stmt stmt =>
    cases stmt with
    | classDecl decl =>
      obtain ⟨parent, known, same⟩ := Option.map_eq_some_iff.mp reference
      obtain ⟨rfl, rfl⟩ := Prod.mk.inj same
      simp [Site.use?, known]
    | _ => simp [Node.reference?] at reference

private theorem contains_of_depthOf {scopes : List (Dict Bool)}
    (found : depthOf name scopes = some depth) :
    ∃ names, scopes[depth]? = some names ∧ names.contains name := by
  induction scopes generalizing depth with
  | nil => simp [depthOf] at found
  | cons names outer ih =>
    unfold depthOf at found
    split at found
    · rename_i here
      obtain rfl := Option.some.inj found
      exact ⟨names, rfl, here⟩
    · obtain ⟨further, foundOuter, rfl⟩ := Option.map_eq_some_iff.mp found
      obtain ⟨names', layer, here⟩ := ih foundOuter
      exact ⟨names', by simpa using layer, here⟩

private theorem Nesting.layer_of_depth? {nesting : Nesting}
    (found : nesting.depth? name = some depth) :
    ∃ construct names, nesting.layers[depth]? = some (construct, names) ∧ names.contains name := by
  obtain ⟨names, layer, here⟩ := contains_of_depthOf found
  rw [Nesting.scopes, List.getElem?_map] at layer
  obtain ⟨⟨construct, names'⟩, layer', rfl⟩ := Option.map_eq_some_iff.mp layer
  exact ⟨construct, names', layer', here⟩

namespace Run

variable {depth : Nat} {after machine : Machine} {id : RefId} {reason : Stop} {rules : Rules}
  {moment : Moment} {text : Site → Prop}

theorem Fits.layer {origins : Array (Option Construct)} {store : Store} {nesting : Nesting}
    {trail : List ScopeRef} (fits : Fits origins store nesting trail)
    {layer : Construct × Dict Bool} (found : nesting.layers[depth]? = some layer) :
    ∃ scope, trail[depth]? = some scope ∧ LayerFits origins store scope layer := by
  have layers := fits.layers
  clear fits
  generalize nesting.layers = all at layers found
  induction layers generalizing depth with
  | nil => simp at found
  | @cons scope first trail rest here _ ih =>
    cases depth with
    | zero =>
      obtain rfl : first = layer := by simpa using found
      exact ⟨scope, rfl, here⟩
    | succ depth =>
      obtain ⟨scope', there, fits'⟩ := @ih depth (by simpa using found)
      exact ⟨scope', by simpa using there, fits'⟩

/-- The place is inside the initial value of a variable of the layer some steps out, and the
declaration of that variable has not completed in the given scope. -/
def Moment.Unfinished (moment : Moment) (name : String) (depth : Nat) (scope : ScopeRef) : Prop :=
  (∃ construct names, moment.spot.nesting.layers[depth]? = some (construct, names) ∧
    names.find? name = some false) ∧ (scope, name) ∉ moment.completed

/-- What a reference with the given depth finds at a moment. -/
structure Reaches (rules : Rules) (moment : Moment) (id : RefId) (name : String) (depth : Nat)
    (scope : ScopeRef) : Prop where
  ancestor : moment.machine.store.ancestor? moment.machine.frame.scope depth = some scope
  /-- It is the scope that was made when the code around was entered. -/
  entered : moment.spot.trail[depth]? = some scope
  /-- No nearer construct declares the name. -/
  nearest : moment.spot.nesting.depth? name = some depth
  /-- The scope was made for the construct that declares the name. -/
  origin : ∃ construct names, moment.spot.nesting.layers[depth]? = some (construct, names) ∧
    names.contains name ∧ moment.origins[scope]? = some (some construct)
  read : ∀ identifier : Identifier, identifier.name = name → ∀ reason after,
    readVariable rules id identifier moment.machine = .stopped reason after →
    moment.Unfinished name depth scope
  write : ∀ identifier : Identifier, identifier.name = name → ∀ value reason after,
    writeVariable rules id identifier value moment.machine = .stopped reason after →
    moment.Unfinished name depth scope

private theorem readVariable_stopped {name : Identifier}
    (recorded : rules.depths.find? id = some depth)
    (stops : readVariable rules id name machine = .stopped reason after) :
    machine.store.getAt? machine.frame.scope depth name.name = none := by
  cases found : machine.store.getAt? machine.frame.scope depth name.name with
  | none => rfl
  | some value =>
    simp [readVariable, Eval.frame, Eval.inspect, bind, pure, recorded, found] at stops

private theorem writeVariable_stopped {name : Identifier} {value : Value}
    (recorded : rules.depths.find? id = some depth)
    (stops : writeVariable rules id name value machine = .stopped reason after) :
    machine.store.assignAt? machine.frame.scope depth name.name value = none := by
  cases found : machine.store.assignAt? machine.frame.scope depth name.name value with
  | none => rfl
  | some store =>
    simp [writeVariable, Eval.frame, Eval.inspect, Eval.change, bind, recorded, found] at stops

theorem Moment.Sound.unfinished (sound : moment.Sound text) {name : String} {scope : ScopeRef}
    {construct : Construct} {names : Dict Bool}
    (layer : moment.spot.nesting.layers[depth]? = some (construct, names))
    (declares : names.contains name)
    (fits : LayerFits moment.origins moment.machine.store scope (construct, names))
    (unbound : moment.machine.store.getHere? scope name = none) :
    moment.Unfinished name depth scope := by
  obtain ⟨complete, known⟩ := Option.isSome_iff_exists.mp declares
  refine ⟨⟨construct, names, layer, ?_⟩, ?_⟩
  · cases complete with
    | false => exact known
    | true =>
      have bound := fits.2 name known
      simp [unbound] at bound
  · intro completed
    have bound := sound.completed scope name completed
    simp [unbound] at bound

/-- At a sound moment, a reference finds the scope that its depth was noted for. -/
theorem Moment.Sound.reaches (sound : moment.Sound text)
    (siteSound : moment.site.Sound rules.depths) {name : String}
    (reference : moment.node.reference? = some (id, name))
    (recorded : rules.depths.find? id = some depth) :
    ∃ scope, Reaches rules moment id name depth scope := by
  have nearest : moment.spot.nesting.depth? name = some depth :=
    (siteSound.recorded id _ (Site.use?_eq reference)).symm.trans recorded
  obtain ⟨construct, names, layer, declares⟩ := Nesting.layer_of_depth? nearest
  obtain ⟨scope, entered, fits⟩ := sound.standing.fits.layer layer
  have ancestor : moment.machine.store.ancestor? moment.machine.frame.scope depth = some scope := by
    rw [sound.standing.scope, sound.standing.fits.chained.ancestor entered]
  refine ⟨scope, ancestor, entered, nearest, ⟨construct, names, layer, declares, fits.1⟩, ?_, ?_⟩
  · rintro identifier rfl reason after stops
    have unbound := readVariable_stopped recorded stops
    rw [Store.getAt?, ancestor] at unbound
    exact sound.unfinished layer declares fits unbound
  · rintro identifier rfl value reason after stops
    have unwritten := writeVariable_stopped recorded stops
    by_cases held : (moment.machine.store.getHere? scope identifier.name).isSome
    · simp [Store.assignAt?, Store.holder?, ancestor, held] at unwritten
    · exact sound.unfinished layer declares fits (Option.not_isSome_iff_eq_none.mp held)

end Run

/-- In whatever a session is asked, every evaluated reference with a noted depth finds the scope of
the construct that declares its name, and nothing fails because `this` or `super` is not bound. -/
theorem references_reach_declaring_scopes {chronicle : Chronicle} (reached : chronicle.Reached)
    (steps : Nat) (input : Input) :
    (chronicle.ask steps input).2 = chronicle.session.respond steps input ∧
    (∀ moment ∈ (chronicle.ask steps input).1.moments,
      moment.site ∈ chronicle.sitesWith input ∧
      ∀ id name depth, moment.node.reference? = some (id, name) →
        (chronicle.session.check input).2.depths.find? id = some depth →
        ∃ scope, Reaches (chronicle.session.check input).2.rules moment id name depth scope) ∧
    ∀ fault after, chronicle.session.respond steps input = .failed (.runtime fault) after →
      fault.value ≠ .thisUnbound ∧ fault.value ≠ .superUnbound := by
  have sound := reached.sound
  refine ⟨Chronicle.ask_reply steps chronicle input, ?_, ?_⟩
  · intro moment member
    have momentSound := sound.moments_sound steps input member
    refine ⟨momentSound.site, ?_⟩
    intro id name depth reference recorded
    exact momentSound.reaches (sound.suits input _ momentSound.site) reference recorded
  · intro fault after failed
    exact sound.respond_innocent failed

def overridingText : Input :=
  .program "class A { virtual fn g() -> this; }
    class B extends A { override fn g() -> super.g(); } var b = B();"

/-- In a later text than the one it stands in, `super` finds the scope that binds the superclass. -/
theorem super_reaches_declaring_scope :
    ∃ chronicle : Chronicle, chronicle.Reached ∧
      ∃ moment ∈ (chronicle.ask 40 (.expression "b.g()")).1.moments, ∃ scope,
        moment.node.reference? = some (2, "super") ∧
        Reaches (chronicle.session.check (.expression "b.g()")).2.rules moment 2 "super" 2
          scope := by
  have present : ((Session.start {} (fun _ => 0) .capturing).respond 40 overridingText).session?.any
      (fun after =>
        let chronicle := (Chronicle.start {} (fun _ => 0) .capturing).follow 40 overridingText after
        ((chronicle.ask 40 (.expression "b.g()")).1.moments.any fun moment =>
          moment.node.reference? == some (2, "super")) &&
        (chronicle.session.check (.expression "b.g()")).2.depths.find? 2 == some 2) = true := by
    decide +kernel
  obtain ⟨after, answer, both⟩ := Option.any_eq_true _ _ |>.mp present
  obtain ⟨some', recorded⟩ := Bool.and_eq_true_iff.mp both
  obtain ⟨moment, member, isSuper⟩ := List.any_eq_true.mp some'
  have reached := (Chronicle.Reached.start {} (fun _ => 0) .capturing).answered answer
  obtain ⟨-, found⟩ :=
    (references_reach_declaring_scopes reached 40 (.expression "b.g()")).2.1 moment member
  obtain ⟨scope, reaches⟩ := found 2 "super" 2 (eq_of_beq isSuper) (eq_of_beq recorded)
  exact ⟨_, reached, moment, member, scope, eq_of_beq isSuper, reaches⟩

end ClassScript
