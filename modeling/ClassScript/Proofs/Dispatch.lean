import ClassScript.Proofs.Privilege

/-!
What `super` leads to: the method that it names, looked up from the superclass of the class that
owns the innermost method around, whatever the class of the instance is.
-/

set_option autoImplicit false

namespace ClassScript

open Run

def Nesting.methodClass? : Nesting → Option (ClassDecl Expr Stmt)
  | top => none
  | inside _ _ outer | fields _ outer => outer.methodClass?
  | methods decl _ => some decl

namespace Run

/-- The two scopes around a method of a class with a superclass: the one that binds `this`, and
right outside of it the one that binds `super`. -/
structure MethodScopes (origins : Array (Option Construct)) (store : Store) (nesting : Nesting)
    (trail : List ScopeRef) (decl : ClassDecl Expr Stmt) (depth : Nat) (inner outer : ScopeRef)
    (receiver : InstanceRef) (parent : ClassRef) : Prop where
  method : nesting.methodClass? = some decl
  thisDepth : nesting.depth? "this" = some depth
  superDepth : nesting.depth? "super" = some (depth + 1)
  innerLayer : trail[depth]? = some inner
  outerLayer : trail[depth + 1]? = some outer
  innerOrigin : origins[inner]? = some (some (.receiver decl))
  outerOrigin : origins[outer]? = some (some (.superclass decl))
  this : store.getHere? inner Store.thisName = some (.object receiver)
  super : store.getHere? outer Store.superName = some (.classObject parent)

theorem Fits.methodScopes {origins : Array (Option Construct)} {store : Store} {nesting : Nesting}
    {trail : List ScopeRef} (fits : Fits origins store nesting trail) (plain : nesting.Plain)
    (derived : nesting.classKind = .derived) :
    ∃ decl depth inner outer receiver parent,
      MethodScopes origins store nesting trail decl depth inner outer receiver parent := by
  induction nesting generalizing trail with
  | top => cases derived
  | inside body names around ih =>
    obtain ⟨ref, rest, rfl, -, -, outerFits⟩ := fits
    obtain ⟨decl, depth, inner, outer, receiver, parent, scopes⟩ := ih outerFits plain.2.2 derived
    have thisDepth := scopes.thisDepth
    have superDepth := scopes.superDepth
    refine ⟨decl, depth + 1, inner, outer, receiver, parent,
      { scopes with thisDepth := ?_, superDepth := ?_, innerLayer := ?_, outerLayer := ?_ }⟩
    · unfold Nesting.depth? at thisDepth ⊢
      simp [depthOf, plain.1, thisDepth]
    · unfold Nesting.depth? at superDepth ⊢
      simp [depthOf, plain.2.1, superDepth]
    · simpa using scopes.innerLayer
    · simpa using scopes.outerLayer
  | fields owner around ih =>
    obtain ⟨decl, depth, inner, outer, receiver, parent, scopes⟩ := ih fits plain derived
    exact ⟨decl, depth, inner, outer, receiver, parent, { scopes with }⟩
  | methods decl around ih =>
    obtain ⟨inner, rest, receiver, rfl, made, this, outerFits⟩ := fits
    have hasParent : decl.superclass.isSome = true := by
      by_contra base
      simp [Nesting.classKind, base] at derived
    obtain ⟨superclass, known⟩ := Option.isSome_iff_exists.mp hasParent
    simp only [SuperclassFits, known] at outerFits
    obtain ⟨outer, last, parent, rfl, made', super, -, -⟩ := outerFits
    refine ⟨decl, 0, inner, outer, receiver, parent,
      rfl, ?_, ?_, rfl, rfl, made.origin, made'.origin, this, super⟩
    · rw [Nesting.depth?, Nesting.scopes_methods]
      rfl
    · rw [Nesting.depth?, Nesting.scopes_methods, if_pos hasParent]
      rfl

/-- The class owns the innermost method around the code of the moment: it is made from the
declaration that the method stands in, and its own methods stand in the scope right outside of the
one that binds the receiver. -/
structure Moment.InMethodOf (moment : Moment) (owner : ClassRef) (found : ClassObject)
    (receiver : InstanceRef) : Prop where
  stored : moment.machine.store.classes[owner]? = some found
  method : moment.spot.nesting.methodClass? = some found.decl
  bound : ∃ depth inner outer, moment.spot.nesting.depth? "this" = some depth ∧
    moment.machine.store.ancestor? moment.machine.frame.scope depth = some inner ∧
    moment.machine.store.ancestor? moment.machine.frame.scope (depth + 1) = some outer ∧
    moment.origins[inner]? = some (some (.receiver found.decl)) ∧
    moment.machine.store.getHere? inner Store.thisName = some (.object receiver) ∧
    Tabled moment.machine.store owner found outer

/-- The function is the method, in a scope of its own that binds `this`. -/
def BoundTo (store : Store) (ref : FunctionRef) (entry : Method) (receiver : InstanceRef) : Prop :=
  ∃ scope, store.functions[ref]? = some { entry.closure with scope } ∧
    store.scopes[scope]? = some (receiverScope entry.closure receiver)

/-- The method that was found, if it may be used. -/
def Dispatched (machine : Machine) (entry : Method) (receiver : InstanceRef) (name : Identifier)
    (outcome : Outcome Value) : Prop :=
  if mayUse machine.store machine.frame.classRef entry.member then
    ∃ ref after, outcome = .done (.function ref) after ∧ BoundTo after.store ref entry receiver
  else
    outcome = .stopped (.fault
      { value := .access entry.member.visibility .method name.name
          ((machine.store.classes[entry.member.owner]?.map ClassObject.name).getD "<unknown>")
        position := name.position }) machine

private theorem exists_boundMethod (method : Method) (receiver : InstanceRef) (machine : Machine) :
    ∃ ref after, boundMethod method receiver machine = .done (.function ref) after ∧
      BoundTo after.store ref method receiver := by
  refine ⟨_, _, rfl, machine.store.scopes.size, ?_, ?_⟩
  · exact Array.getElem?_push_size
  · exact Array.getElem?_push_size

private theorem readSuper_eq {rules : Rules} {id : RefId} {depth : Nat} {machine : Machine}
    (recorded : rules.depths.find? id = some depth) {parent : ClassObject} {receiver : InstanceRef}
    (pair : superPair machine.store machine.frame.scope depth = some (parent, receiver))
    (position : Position) (name : Identifier) :
    readSuper rules id position name machine =
      match parent.methods.find? name.name with
      | none => .stopped (.fault
          { value := .undefinedMethod name.name parent.name, position := name.position }) machine
      | some entry =>
        (checkAccess entry.member .method name.name name.position >>= fun _ =>
          boundMethod entry receiver) machine := by
  simp only [readSuper, frame_bind, inspect_bind, recorded, Option.bind_some, pair]
  cases parent.methods.find? name.name <;> rfl

private theorem dispatched_of_entry (entry : Method) (receiver : InstanceRef) (name : Identifier)
    (machine : Machine) :
    Dispatched machine entry receiver name
      ((checkAccess entry.member .method name.name name.position >>= fun _ =>
        boundMethod entry receiver) machine) := by
  unfold Dispatched
  simp only [bind, checkAccess_eq]
  split
  · exact exists_boundMethod entry receiver machine
  · rfl

end Run

/-- In whatever a session is asked, `super` in a method leads to the first method of that name from
the superclass of the owner of the innermost method towards the root, bound to the instance that
`this` means there. It fails if no ancestor of the owner declares the method, and else only where
the method may not be used. -/
theorem super_dispatch_is_static {chronicle : Chronicle} (reached : chronicle.Reached)
    (steps : Nat) (input : Input) {moment : Moment}
    (member : moment ∈ (chronicle.ask steps input).1.moments) {id : RefId} {position : Position}
    {name : Identifier} (node : moment.node = .expr (.super id position name)) (more : Nat) :
    ∃ owner found parent parentFound receiver, moment.InMethodOf owner found receiver ∧
      found.superclass = some parent ∧
      moment.machine.store.classes[parent]? = some parentFound ∧
      (∀ this place,
        (chronicle.session.check input).2.depths.find? this =
          moment.spot.nesting.depth? "this" →
        evaluate (chronicle.session.check input).2.rules (more + 1) (.this this place)
          moment.machine = .done (.object receiver) moment.machine) ∧
      ((∀ ancestor declared, Inherits moment.machine.store parent ancestor →
          moment.machine.store.classes[ancestor]? = some declared →
          declared.decl.method? name.name = none) ∧
        evaluate (chronicle.session.check input).2.rules (more + 1) (.super id position name)
          moment.machine = .stopped (.fault
            { value := .undefinedMethod name.name parentFound.name
              position := name.position }) moment.machine ∨
      ∃ target method targetFound scope,
        Nearest moment.machine.store (ownMethod name.name) parent (some (target, method)) ∧
        moment.machine.store.classes[target]? = some targetFound ∧
        Tabled moment.machine.store target targetFound scope ∧
        Dispatched moment.machine (Store.methodEntry target scope method) receiver name
          (evaluate (chronicle.session.check input).2.rules (more + 1) (.super id position name)
            moment.machine)) := by
  have sound := reached.sound.moments_sound steps input member
  have siteSound := reached.sound.suits input _ sound.site
  have live := (reached.asked steps input).logged.live moment member
  obtain ⟨spot, nodeAt, phase, pending, origins, completed, machine⟩ := moment
  obtain rfl : nodeAt = .expr (.super id position name) := node
  have standing : Standing origins machine spot := sound.standing
  have formed : Formed { origins, store := machine.store } :=
    live.tended.formed trivial
  obtain ⟨decl, depth, inner, outer, receiver, parent, scopes⟩ :=
    standing.fits.methodScopes siteSound.proper.1 siteSound.placed
  have thisAncestor : machine.store.ancestor? machine.frame.scope depth = some inner := by
    rw [standing.scope, standing.fits.chained.ancestor scopes.innerLayer]
  have superAncestor : machine.store.ancestor? machine.frame.scope (depth + 1) = some outer := by
    rw [standing.scope, standing.fits.chained.ancestor scopes.outerLayer]
  obtain ⟨owner, stands⟩ := formed.supers outer decl scopes.outerOrigin
  obtain ⟨found, other, stored, rfl, inherits, valid, tabled, bound⟩ := stands.stored
  obtain rfl : other = parent := by
    have same := bound.symm.trans scopes.super
    simpa using same
  have parentStored := Array.getElem?_eq_getElem valid
  have recorded : (chronicle.session.check input).2.rules.depths.find? id = some (depth + 1) :=
    (siteSound.recorded id _ rfl).trans scopes.superDepth
  have pair : superPair machine.store machine.frame.scope (depth + 1) =
      some (machine.store.classes[other], receiver) := by
    simp only [superPair, Store.getAt?, thisAncestor, superAncestor, scopes.this, scopes.super]
    rw [parentStored]
  have outcome := readSuper_eq recorded pair position name
  refine ⟨owner, found, other, _, receiver, ?_, inherits, parentStored, ?_, ?_⟩
  · exact ⟨stored, scopes.method, depth, inner, outer, scopes.thisDepth, thisAncestor,
      superAncestor, scopes.innerOrigin, scopes.this, tabled⟩
  · intro this place noted
    have here : (chronicle.session.check input).2.rules.depths.find? this = some depth :=
      noted.trans scopes.thisDepth
    simp only [evaluate, readThis, frame_bind, inspect_bind, here, Option.bind_some, Store.getAt?,
      thisAncestor, scopes.this]
    rfl
  · obtain ⟨result, walk⟩ := formed.exists_nearest (ownMethod name.name) valid
    have looked := formed.find?_methods parentStored walk
    cases result with
    | none =>
      left
      refine ⟨fun ancestor declared above known => walk.lacks above known, ?_⟩
      have missing : machine.store.classes[other].methods.find? name.name = none := looked
      rw [missing] at outcome
      exact outcome
    | some last =>
      right
      obtain ⟨target, method⟩ := last
      obtain ⟨targetFound, entry, targetStored, there, scope, tabledTarget, rfl⟩ := looked
      refine ⟨target, method, targetFound, scope, walk, targetStored, tabledTarget, ?_⟩
      have there : machine.store.classes[other].methods.find? name.name = some _ := there
      rw [there] at outcome
      simp only [evaluate, outcome]
      exact dispatched_of_entry _ receiver name machine

def inheritedText : Input :=
  .program "class A { virtual fn g() -> 1; }
    class B extends A { override fn g() { var f = fn() { return super.g(); }; return f(); } }
    class C extends B { } var c = C();"

def isSuper (node : Node) : Bool :=
  match node with
  | .expr (.super _ _ _) => true
  | _ => false

/-- In a function inside of a method that an heir has inherited, `super` goes by the class of the
method. -/
theorem inherited_super_goes_by_owner :
    ∃ chronicle : Chronicle, chronicle.Reached ∧
      ∃ moment ∈ (chronicle.ask 60 (.expression "c.g()")).1.moments,
      ∃ owner found parent receiver, isSuper moment.node ∧
        moment.InMethodOf owner found receiver ∧ found.superclass = some parent := by
  have present : ((Session.start {} (fun _ => 0) .capturing).respond 60 inheritedText).session?.any
      (fun after =>
        let chronicle := (Chronicle.start {} (fun _ => 0) .capturing).follow 60 inheritedText after
        (chronicle.ask 60 (.expression "c.g()")).1.moments.any fun moment =>
          isSuper moment.node) = true := by
    decide +kernel
  obtain ⟨after, answer, some'⟩ := Option.any_eq_true _ _ |>.mp present
  obtain ⟨moment, member, uses⟩ := List.any_eq_true.mp some'
  have reached := (Chronicle.Reached.start {} (fun _ => 0) .capturing).answered answer
  have node : ∃ id position name, moment.node = .expr (.super id position name) := by
    unfold isSuper at uses
    split at uses
    · exact ⟨_, _, _, by assumption⟩
    · cases uses
  obtain ⟨id, position, name, node⟩ := node
  obtain ⟨owner, found, parent, _, receiver, inMethod, inherits, -⟩ :=
    super_dispatch_is_static reached 60 (.expression "c.g()") member node 0
  exact ⟨_, reached, moment, member, owner, found, parent, receiver, uses, inMethod, inherits⟩

end ClassScript
