import ClassScript.Proofs.RecordedDepths
import ClassScript.Proofs.Trace

/-!
How the scopes of a running program lie against its text. A trail of scopes fits a place when each
scope was made for the layer of the place that it stands for and is enclosed by the next one.
-/

set_option autoImplicit false

namespace ClassScript.Run

/-- The innermost scope of a trail; outside of all layers there are the globals. -/
def innermost (trail : List ScopeRef) : ScopeRef :=
  trail.headD Store.globalScope

/-- A scope of the store that was made for a construct, right inside the given scopes. -/
structure MadeFor (origins : Array (Option Construct)) (store : Store) (construct : Construct)
    (ref : ScopeRef) (outer : List ScopeRef) : Prop where
  origin : origins[ref]? = some (some construct)
  stored : ∃ scope, store.scopes[ref]? = some scope ∧ scope.enclosing = some (innermost outer)

def SuperclassFits (origins : Array (Option Construct)) (store : Store)
    (decl : ClassDecl Expr Stmt) (fitsOuter : List ScopeRef → Prop) (trail : List ScopeRef) :
    Prop :=
  match decl.superclass with
  | none => fitsOuter trail
  | some _ => ∃ above last parent, trail = above :: last ∧
    MadeFor origins store (.superclass decl) above last ∧
    store.getHere? above Store.superName = some (.classObject parent) ∧
    parent < store.classes.size ∧ fitsOuter last

/-- A trail consists of scopes that were made for the layers of a place, and a scope holds the names
whose initial values are complete there. -/
def Fits (origins : Array (Option Construct)) (store : Store) : Nesting → List ScopeRef → Prop
  | .top, trail => trail = []
  | .inside body names outer, trail => ∃ ref rest, trail = ref :: rest ∧
    MadeFor origins store (.body body) ref rest ∧
    (∀ name, names.find? name = some true → (store.getHere? ref name).isSome) ∧
    Fits origins store outer rest
  | .fields _ outer, trail => Fits origins store outer trail
  | .methods decl outer, trail => ∃ ref rest receiver, trail = ref :: rest ∧
    MadeFor origins store (.receiver decl) ref rest ∧
    store.getHere? ref Store.thisName = some (.object receiver) ∧
    SuperclassFits origins store decl (Fits origins store outer) rest

def OwnerFits (store : Store) (nesting : Nesting) (classRef : Option ClassRef) : Prop :=
  match nesting.owner with
  | none => classRef = none
  | some decl => ∃ ref found, classRef = some ref ∧ store.classes[ref]? = some found ∧
    found.decl = decl

structure Standing (origins : Array (Option Construct)) (machine : Machine) (spot : Spot) :
    Prop where
  fits : Fits origins machine.store spot.nesting spot.trail
  scope : machine.frame.scope = innermost spot.trail
  owner : OwnerFits machine.store spot.nesting machine.frame.classRef

structure ScopeGrows (earlier later : Scope) : Prop where
  enclosing : later.enclosing = earlier.enclosing
  names : ∀ name, (earlier.bindings.find? name).isSome → (later.bindings.find? name).isSome
  words : ∀ name, ¬PlainName name → later.bindings.find? name = earlier.bindings.find? name

theorem ScopeGrows.refl (scope : Scope) : ScopeGrows scope scope :=
  ⟨rfl, fun _ bound => bound, fun _ _ => rfl⟩

theorem ScopeGrows.trans {first second third : Scope} (grows : ScopeGrows first second)
    (grows' : ScopeGrows second third) : ScopeGrows first third :=
  ⟨grows'.enclosing.trans grows.enclosing,
    fun name bound => grows'.names name (grows.names name bound),
    fun name word => (grows'.words name word).trans (grows.words name word)⟩

/-- Scopes, classes and functions stay, and what scopes were made for is not forgotten. -/
structure Grows (origins : Array (Option Construct)) (store : Store)
    (origins' : Array (Option Construct)) (store' : Store) : Prop where
  origins : ∀ (ref : Nat) origin, origins[ref]? = some origin → origins'[ref]? = some origin
  scopes : ∀ (ref : Nat) scope, store.scopes[ref]? = some scope →
    ∃ later, store'.scopes[ref]? = some later ∧ ScopeGrows scope later
  classes : ∀ (ref : Nat) found, store.classes[ref]? = some found →
    store'.classes[ref]? = some found
  functions : store.functions.size ≤ store'.functions.size

namespace Grows

variable {origins origins' origins'' : Array (Option Construct)} {store store' store'' : Store}

theorem refl (origins : Array (Option Construct)) (store : Store) :
    Grows origins store origins store :=
  ⟨fun _ _ known => known, fun _ scope known => ⟨scope, known, .refl scope⟩,
    fun _ _ known => known, Nat.le_refl _⟩

section

variable (grows : Grows origins store origins' store')

include grows

theorem trans (grows' : Grows origins' store' origins'' store'') :
    Grows origins store origins'' store'' := by
  refine ⟨?_, ?_, ?_, Nat.le_trans grows.functions grows'.functions⟩
  · exact fun ref origin known => grows'.origins ref origin (grows.origins ref origin known)
  · intro ref scope known
    obtain ⟨middle, known', first⟩ := grows.scopes ref scope known
    obtain ⟨later, known'', second⟩ := grows'.scopes ref middle known'
    exact ⟨later, known'', first.trans second⟩
  · exact fun ref found known => grows'.classes ref found (grows.classes ref found known)

theorem getHere?_isSome {ref : ScopeRef} {name : String}
    (bound : (store.getHere? ref name).isSome) : (store'.getHere? ref name).isSome := by
  unfold Store.getHere? at bound ⊢
  cases known : store.scopes[ref]? with
  | none => simp [known] at bound
  | some scope =>
    obtain ⟨later, known', scopeGrows⟩ := grows.scopes ref scope known
    simp only [known, known'] at bound ⊢
    exact scopeGrows.names name bound

theorem getHere?_word {ref : ScopeRef} {name : String} {value : Value} (word : ¬PlainName name)
    (bound : store.getHere? ref name = some value) : store'.getHere? ref name = some value := by
  unfold Store.getHere? at bound ⊢
  cases known : store.scopes[ref]? with
  | none => simp [known] at bound
  | some scope =>
    obtain ⟨later, known', scopeGrows⟩ := grows.scopes ref scope known
    simp only [known, known'] at bound ⊢
    rw [scopeGrows.words name word, bound]

theorem scope_stays {ref : Nat} (stored : ∃ scope, store.scopes[ref]? = some scope) :
    ∃ scope, store'.scopes[ref]? = some scope := by
  obtain ⟨scope, stored⟩ := stored
  obtain ⟨later, stored', -⟩ := grows.scopes ref scope stored
  exact ⟨later, stored'⟩

theorem classes_size_le : store.classes.size ≤ store'.classes.size := by
  by_contra smaller
  have inside : store'.classes.size < store.classes.size := Nat.lt_of_not_le smaller
  have kept := grows.classes store'.classes.size _ (Array.getElem?_eq_getElem inside)
  simp at kept

theorem madeFor {construct : Construct}
    {ref : ScopeRef} {outer : List ScopeRef} (made : MadeFor origins store construct ref outer) :
    MadeFor origins' store' construct ref outer := by
  obtain ⟨scope, known, enclosing⟩ := made.stored
  obtain ⟨later, known', scopeGrows⟩ := grows.scopes ref scope known
  exact ⟨grows.origins ref _ made.origin, later, known', scopeGrows.enclosing.trans enclosing⟩

end

end Grows

theorem not_plain_this : ¬PlainName Store.thisName :=
  fun plain => plain.1 rfl

theorem not_plain_super : ¬PlainName Store.superName :=
  fun plain => plain.2 rfl

section Growth

variable {origins origins' : Array (Option Construct)} {store store' : Store}

theorem SuperclassFits.grow (grows : Grows origins store origins' store')
    {decl : ClassDecl Expr Stmt} {fitsOuter fitsOuter' : List ScopeRef → Prop}
    (outer : ∀ trail, fitsOuter trail → fitsOuter' trail) {trail : List ScopeRef}
    (fits : SuperclassFits origins store decl fitsOuter trail) :
    SuperclassFits origins' store' decl fitsOuter' trail := by
  unfold SuperclassFits at fits ⊢
  revert fits
  cases decl.superclass with
  | none => exact outer trail
  | some parent =>
    rintro ⟨above, last, parent, split, made, bound, valid, rest⟩
    exact ⟨above, last, parent, split, grows.madeFor made,
      grows.getHere?_word not_plain_super bound, Nat.lt_of_lt_of_le valid grows.classes_size_le,
      outer last rest⟩

theorem Fits.grow (grows : Grows origins store origins' store') {nesting : Nesting}
    {trail : List ScopeRef} (fits : Fits origins store nesting trail) :
    Fits origins' store' nesting trail := by
  induction nesting generalizing trail with
  | top => exact fits
  | inside body names outer ih =>
    obtain ⟨ref, rest, split, made, bound, outerFits⟩ := fits
    exact ⟨ref, rest, split, grows.madeFor made,
      fun name complete => grows.getHere?_isSome (bound name complete), ih outerFits⟩
  | fields decl outer ih => exact ih fits
  | methods decl outer ih =>
    obtain ⟨ref, rest, receiver, split, made, bound, above⟩ := fits
    exact ⟨ref, rest, receiver, split, grows.madeFor made,
      grows.getHere?_word not_plain_this bound, above.grow grows fun trail => ih⟩

theorem OwnerFits.grow (grows : Grows origins store origins' store') {nesting : Nesting}
    {classRef : Option ClassRef} (fits : OwnerFits store nesting classRef) :
    OwnerFits store' nesting classRef := by
  unfold OwnerFits at fits ⊢
  revert fits
  cases nesting.owner with
  | none => exact id
  | some decl =>
    rintro ⟨ref, found, current, known, same⟩
    exact ⟨ref, found, current, grows.classes ref found known, same⟩

end Growth

theorem Standing.grow {origins origins' : Array (Option Construct)} {machine machine' : Machine}
    {spot : Spot} (standing : Standing origins machine spot)
    (grows : Grows origins machine.store origins' machine'.store)
    (same : machine'.frame = machine.frame) : Standing origins' machine' spot :=
  ⟨standing.fits.grow grows, same ▸ standing.scope, same ▸ standing.owner.grow grows⟩

/-- Each scope of a trail is enclosed by the next one, the last one by the globals. -/
def Chained (store : Store) : List ScopeRef → Prop
  | [] => True
  | ref :: rest =>
    (∃ scope, store.scopes[ref]? = some scope ∧ scope.enclosing = some (innermost rest)) ∧
      Chained store rest

theorem Chained.ancestor {store : Store} {trail : List ScopeRef} (chained : Chained store trail)
    {depth : Nat} {ref : ScopeRef} (layer : trail[depth]? = some ref) :
    store.ancestor? (innermost trail) depth = some ref := by
  induction trail generalizing depth with
  | nil => simp at layer
  | cons first rest ih =>
    obtain ⟨⟨scope, known, enclosing⟩, chainedRest⟩ := chained
    cases depth with
    | zero => simpa [innermost, Store.ancestor?] using layer
    | succ depth =>
      obtain ⟨bindings, outer⟩ := scope
      obtain rfl : outer = some (innermost rest) := enclosing
      have layerRest : rest[depth]? = some ref := by simpa using layer
      simp only [innermost, List.headD_cons, Store.ancestor?, known]
      exact ih chainedRest layerRest

section Layers

variable {origins : Array (Option Construct)} {store : Store} {nesting : Nesting}
  {trail : List ScopeRef}

theorem SuperclassFits.chained {decl : ClassDecl Expr Stmt} {fitsOuter : List ScopeRef → Prop}
    (outer : ∀ trail, fitsOuter trail → Chained store trail)
    (fits : SuperclassFits origins store decl fitsOuter trail) : Chained store trail := by
  unfold SuperclassFits at fits
  revert fits
  cases decl.superclass with
  | none => exact outer trail
  | some parent =>
    rintro ⟨above, last, parent, rfl, made, -, -, rest⟩
    exact ⟨made.stored, outer last rest⟩

theorem Fits.chained (fits : Fits origins store nesting trail) : Chained store trail := by
  induction nesting generalizing trail with
  | top =>
    obtain rfl : trail = [] := fits
    trivial
  | inside body names outer ih =>
    obtain ⟨ref, rest, rfl, made, -, outerFits⟩ := fits
    exact ⟨made.stored, ih outerFits⟩
  | fields decl outer ih => exact ih fits
  | methods decl outer ih =>
    obtain ⟨ref, rest, receiver, rfl, made, -, above⟩ := fits
    exact ⟨made.stored, above.chained fun trail => ih⟩

/-- A scope of a trail and the layer that it was made for. -/
def LayerFits (origins : Array (Option Construct)) (store : Store) (ref : ScopeRef)
    (layer : Construct × Dict Bool) : Prop :=
  origins[ref]? = some (some layer.1) ∧
    ∀ name, layer.2.find? name = some true → (store.getHere? ref name).isSome

private theorem layerFits_word {construct : Construct} {ref : ScopeRef} {word : String}
    {value : Value} (origin : origins[ref]? = some (some construct))
    (bound : store.getHere? ref word = some value) :
    LayerFits origins store ref (construct, wordNames word) := by
  refine ⟨origin, ?_⟩
  intro name complete
  have same : name = word := by
    by_contra different
    simp [wordNames, Dict.ofList, Dict.insertAll, Dict.find?_insert_of_ne different] at complete
  rw [same, bound]
  rfl

/-- The scopes of a trail correspond to the layers of the place, one for one. -/
theorem Fits.layers (fits : Fits origins store nesting trail) :
    List.Forall₂ (LayerFits origins store) trail nesting.layers := by
  induction nesting generalizing trail with
  | top =>
    obtain rfl : trail = [] := fits
    exact .nil
  | inside body names outer ih =>
    obtain ⟨ref, rest, rfl, made, bound, outerFits⟩ := fits
    exact .cons ⟨made.origin, bound⟩ (ih outerFits)
  | fields decl outer ih => exact ih fits
  | methods decl outer ih =>
    obtain ⟨ref, rest, receiver, rfl, made, bound, above⟩ := fits
    refine .cons (layerFits_word made.origin bound) ?_
    unfold SuperclassFits at above
    revert above
    cases decl.superclass with
    | none => exact ih
    | some parent =>
      rintro ⟨above, last, parent, rfl, made', bound', -, outerFits⟩
      exact .cons (layerFits_word made'.origin bound') (ih outerFits)

theorem Fits.this_bound (fits : Fits origins store nesting trail) (plain : nesting.Plain)
    (inMethods : nesting.classKind ≠ .none) :
    ∃ depth ref receiver, nesting.depth? "this" = some depth ∧ trail[depth]? = some ref ∧
      store.getHere? ref Store.thisName = some (.object receiver) := by
  induction nesting generalizing trail with
  | top => exact absurd rfl inMethods
  | inside body names outer ih =>
    obtain ⟨ref, rest, rfl, -, -, outerFits⟩ := fits
    obtain ⟨depth, found, receiver, address, layer, bound⟩ := ih outerFits plain.2.2 inMethods
    refine ⟨depth + 1, found, receiver, ?_, by simpa using layer, bound⟩
    unfold Nesting.depth? at address ⊢
    simp [depthOf, plain.1, address]
  | fields decl outer ih => exact ih fits plain inMethods
  | methods decl outer ih =>
    obtain ⟨ref, rest, receiver, rfl, -, bound, -⟩ := fits
    refine ⟨0, ref, receiver, ?_, rfl, bound⟩
    rfl

theorem Fits.super_bound (fits : Fits origins store nesting trail) (plain : nesting.Plain)
    (derived : nesting.classKind = .derived) :
    ∃ depth ref above receiver parent, nesting.depth? "super" = some (depth + 1) ∧
      trail[depth]? = some ref ∧ store.getHere? ref Store.thisName = some (.object receiver) ∧
      trail[depth + 1]? = some above ∧
      store.getHere? above Store.superName = some (.classObject parent) ∧
      parent < store.classes.size := by
  induction nesting generalizing trail with
  | top => cases derived
  | inside body names outer ih =>
    obtain ⟨ref, rest, rfl, -, -, outerFits⟩ := fits
    obtain ⟨depth, found, above, receiver, parent, address, layer, bound, layer', bound', valid⟩ :=
      ih outerFits plain.2.2 derived
    refine ⟨depth + 1, found, above, receiver, parent, ?_, by simpa using layer, bound,
      by simpa using layer', bound', valid⟩
    unfold Nesting.depth? at address ⊢
    simp [depthOf, plain.2.1, address]
  | fields decl outer ih => exact ih fits plain derived
  | methods decl outer ih =>
    obtain ⟨ref, rest, receiver, rfl, -, bound, aboveFits⟩ := fits
    have hasParent : decl.superclass.isSome = true := by
      by_contra base
      simp [Nesting.classKind, base] at derived
    obtain ⟨superclass, known⟩ := Option.isSome_iff_exists.mp hasParent
    simp only [SuperclassFits, known] at aboveFits
    obtain ⟨above, last, parent, rfl, -, bound', valid, -⟩ := aboveFits
    refine ⟨0, ref, above, receiver, parent, ?_, rfl, bound, rfl, bound', valid⟩
    rw [Nesting.depth?, Nesting.scopes_methods, if_pos hasParent]
    rfl

end Layers

end ClassScript.Run
