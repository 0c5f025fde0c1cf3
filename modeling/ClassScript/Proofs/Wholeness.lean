import ClassScript.Proofs.Ancestors

/-!
Instances that have all of their fields. While they are set up nothing holds the instance, and what
a run may do is bound by terms that name the hidden instances. All this is said under the condition
that it is watched at all.
-/

set_option autoImplicit false

namespace ClassScript.Run

/-- The instance has a value for every field that its class or an ancestor declares. -/
def Complete (store : Store) (ref : InstanceRef) : Prop :=
  ∃ found, store.instances[ref]? = some found ∧ found.classRef < store.classes.size ∧
    ∀ ancestor declared field, Inherits store found.classRef ancestor →
      store.classes[ancestor]? = some declared → field ∈ declared.decl.fields →
      (found.fields.find? field.name.name).isSome

/-- Whether it is watched that instances have all of their fields, and the instances that no value
means meanwhile. -/
structure Watch where
  on : Prop
  hidden : InstanceRef → Prop

structure Watch.Covers (less more : Watch) : Prop where
  on : less.on → more.on
  hidden : ∀ ref, less.hidden ref → more.hidden ref

/-- If the value is an instance, it has all of its fields and is not hidden. -/
def Whole (watch : Watch) (store : Store) : Value → Prop
  | .object ref => watch.on → ¬watch.hidden ref ∧ Complete store ref
  | _ => True

/-- Classes are formed, and no value of the store means an instance that is hidden or lacks a
field. -/
structure Tended (watch : Watch) (scene : Scene) : Prop where
  formed : watch.on → Formed scene
  held : ∀ value, Holds scene.store value → Whole watch scene.store value
  inside : watch.on → ∀ ref, watch.hidden ref → ref < scene.store.instances.size

/-- What a run is bound to: what is watched, the instances it leaves alone, and the names it may add
to the scopes it finds. -/
structure Terms where
  watch : Watch
  kept : InstanceRef → Prop
  opened : ScopeRef → String → Prop

/-- Only what is hidden is out of reach. -/
def Terms.Fair (terms : Terms) : Prop :=
  ∀ ref, terms.kept ref → terms.watch.on ∧ terms.watch.hidden ref

/-- The store after a run, as far as the terms go. -/
structure Fared (terms : Terms) (scene scene' : Scene) : Prop where
  changed : Changed scene scene'
  tended : Tended terms.watch scene'
  untouched : ∀ ref : Nat, terms.kept ref →
    scene'.store.instances[ref]? = scene.store.instances[ref]?
  names : NamesFrom terms.opened scene.store scene'.store

variable {scene scene' : Scene} {value : Value} {less more : Watch}

theorem Complete.changed (formed : Formed scene) (changed : Changed scene scene')
    {ref : InstanceRef} (complete : Complete scene.store ref) : Complete scene'.store ref := by
  obtain ⟨found, stored, inside, fields⟩ := complete
  obtain ⟨later, stored', grows⟩ := changed.instance_grows stored
  have classes := changed.grows
  refine ⟨later, stored', ?_, ?_⟩
  · rw [grows.classRef]
    exact Nat.lt_of_lt_of_le inside classes.classes_size_le
  · intro ancestor declared field inherits known isField
    rw [grows.classRef] at inherits
    have inherits := formed.inherits_grow classes inside inherits
    have old : ancestor < scene.store.classes.size := by
      rcases Relation.ReflTransGen.cases_tail inherits with
        rfl | ⟨child, -, heir, childKnown, above⟩
      · exact inside
      · exact Nat.lt_trans (formed.older child heir ancestor childKnown above)
          (Array.getElem?_eq_some_iff.mp childKnown).1
    have known' := Array.getElem?_eq_getElem old
    obtain rfl := Option.some.inj ((classes.classes ancestor _ known').symm.trans known)
    exact grows.fields _ (fields ancestor _ field inherits known' isField)

theorem Whole.changed {watch : Watch} (tended : Tended watch scene) (changed : Changed scene scene')
    (whole : Whole watch scene.store value) : Whole watch scene'.store value := by
  cases value with
  | object ref =>
    intro on
    obtain ⟨reach, complete⟩ := whole on
    exact ⟨reach, complete.changed (tended.formed on) changed⟩
  | _ => trivial

theorem Whole.mono {store : Store} (whole : Whole more store value) (covers : less.Covers more) :
    Whole less store value := by
  cases value with
  | object ref =>
    intro on
    obtain ⟨reach, complete⟩ := whole (covers.on on)
    exact ⟨fun still => reach (covers.hidden ref still), complete⟩
  | _ => trivial

theorem Tended.mono (tended : Tended more scene) (covers : less.Covers more) : Tended less scene :=
  ⟨fun on => tended.formed (covers.on on), fun value holds => (tended.held value holds).mono covers,
    fun on ref still => tended.inside (covers.on on) ref (covers.hidden ref still)⟩

namespace Fared

variable {terms : Terms} {scene scene' scene'' : Scene}

theorem refl (tended : Tended terms.watch scene) : Fared terms scene scene :=
  ⟨.refl scene, tended, fun _ _ => rfl, .refl _ _⟩

theorem trans (fared : Fared terms scene scene') (fared' : Fared terms scene' scene'') :
    Fared terms scene scene'' :=
  ⟨fared.changed.trans fared'.changed, fared'.tended,
    fun ref keep => (fared'.untouched ref keep).trans (fared.untouched ref keep),
    fared.names.trans fared.changed.grows.scopes_size_le fared'.names⟩

theorem loosen {looser : Terms} (fared : Fared terms scene scene')
    (covers : looser.watch.Covers terms.watch)
    (kept : ∀ ref, looser.kept ref → terms.kept ref)
    (opened : ∀ (ref : Nat) name, ref < scene.store.scopes.size → terms.opened ref name →
      looser.opened ref name) : Fared looser scene scene' :=
  ⟨fared.changed, fared.tended.mono covers,
    fun ref keep => fared.untouched ref (kept ref keep), fared.names.mono opened⟩

end Fared

section Single

variable {terms : Terms} {scene scene' : Scene}

theorem Fared.of_change (tended : Tended terms.watch scene) (change : Change scene scene')
    (held : ∀ value, Holds scene'.store value →
      Holds scene.store value ∨ Whole terms.watch scene.store value)
    (untouched : ∀ ref : Nat, terms.kept ref →
      scene'.store.instances[ref]? = scene.store.instances[ref]?)
    (names : NamesFrom terms.opened scene.store scene'.store) : Fared terms scene scene' := by
  have changed := change.changed
  refine ⟨changed, ⟨fun on => (tended.formed on).change change, ?_, ?_⟩, untouched, names⟩
  · intro value holds
    rcases held value holds with old | whole
    · exact (tended.held value old).changed tended changed
    · exact whole.changed tended changed
  · exact fun on ref hides =>
      Nat.lt_of_lt_of_le (tended.inside on ref hides) changed.instances_size_le

private theorem held_or_whole {watch : Watch} {store store' : Store} {new : Value}
    (whole : Whole watch store new)
    (holds : ∀ value, Holds store' value → Holds store value ∨ value = new) (value : Value)
    (held : Holds store' value) : Holds store value ∨ Whole watch store value := by
  rcases holds value held with old | rfl
  · exact .inl old
  · exact .inr whole

variable {value : Value}

section

variable (tended : Tended terms.watch scene)

include tended

theorem fared_define {ref : ScopeRef} {name : String}
    (plain : PlainName name) (whole : Whole terms.watch scene.store value)
    (allowed : terms.opened ref name ∨ (scene.store.getHere? ref name).isSome) :
    Fared terms scene { scene with store := scene.store.define ref name value } :=
  .of_change tended (.define ref value plain)
    (held_or_whole whole fun _ holds => holds_define holds) (fun _ _ => rfl)
    (.define value allowed)

theorem fared_addScope {scope : Scope}
    {origin : Option Construct} (other : ∀ decl, origin ≠ some (.superclass decl))
    (whole : ∀ name value, scope.bindings.find? name = some value →
      Whole terms.watch scene.store value) :
    Fared terms scene
      { origins := scene.origins.push origin, store := (scene.store.addScope scope).2 } := by
  refine .of_change tended (.addScope scope other) ?_ (fun _ _ => rfl) (.addScope _ _ _)
  intro value holds
  rcases holds_addScope holds with old | ⟨name, new⟩
  · exact .inl old
  · exact .inr (whole name value new)

theorem fared_addFunction (closure : Closure) :
    Fared terms scene { scene with store := (scene.store.addFunction closure).2 } :=
  .of_change tended (.addFunction closure)
    (fun _ holds => .inl (holds_of_same holds rfl rfl rfl rfl)) (fun _ _ => rfl)
    (.of_scopes_eq rfl)

theorem fared_addRoot (decl : ClassDecl Expr Stmt) (scope : ScopeRef) :
    Fared terms scene { scene with store := (scene.store.addClass decl none scope scope).2 } :=
  .of_change tended (.addRoot decl scope)
    (fun _ holds => .inl (holds_of_same holds rfl rfl rfl rfl)) (fun _ _ => rfl)
    (.of_scopes_eq rfl)

theorem fared_addHeir (decl : ClassDecl Expr Stmt)
    {parent : Nat} (valid : parent < scene.store.classes.size) (scope : ScopeRef) :
    Fared terms scene
      { origins := scene.origins.push (some (.superclass decl))
        store := ((scene.store.addScope (superclassScope parent scope)).2.addClass decl
          (some parent) scope scene.store.scopes.size).2 } := by
  refine .of_change tended (.addHeir decl valid scope) ?_ (fun _ _ => rfl)
    (.addScope _ _ (superclassScope parent scope))
  intro value holds
  have between : Holds (scene.store.addScope (superclassScope parent scope)).2 value :=
    holds_of_same holds rfl rfl rfl rfl
  rcases holds_addScope between with old | ⟨name, new⟩
  · exact .inl old
  · rw [superclassScope, Dict.find?_insert] at new
    split at new
    · obtain rfl : Value.classObject parent = value := by simpa using new
      exact .inr trivial
    · simp at new

theorem fared_addInstance (fair : terms.Fair) (ref : ClassRef) :
    Fared terms scene { scene with store := (scene.store.addInstance ref).2 } := by
  refine .of_change tended (.addInstance ref) (fun _ holds => .inl (holds_addInstance holds)) ?_
    (.of_scopes_eq rfl)
  intro other keep
  obtain ⟨on, hides⟩ := fair other keep
  have inside := tended.inside on other hides
  simp only [Store.addInstance]
  rw [Array.getElem?_push_lt inside, ← Array.getElem?_eq_getElem inside]

theorem fared_setField {ref : InstanceRef}
    (reach : ¬terms.kept ref) (name : String) (whole : Whole terms.watch scene.store value) :
    Fared terms scene { scene with store := scene.store.setField ref name value } := by
  refine .of_change tended (.setField ref name value)
    (held_or_whole whole fun _ holds => holds_setField holds) ?_ (.of_scopes_eq rfl)
  intro other keep
  have different : ref ≠ other := fun same => reach (same ▸ keep)
  simp only [Store.setField]
  rw [Array.getElem?_modify, if_neg different]

theorem fared_put (place : Place) (whole : Whole terms.watch scene.store value) :
    Fared terms scene { scene with store := put scene.store place value } :=
  .of_change tended (.put place value) (held_or_whole whole fun _ holds => holds_put holds)
    (fun ref _ => by rw [put_instances]) (.of_scopes_eq (put_scopes _ place value))

theorem fared_pushItem (ref : ArrayRef) (whole : Whole terms.watch scene.store value) :
    Fared terms scene { scene with store := scene.store.pushItem ref value } :=
  .of_change tended (.pushItem ref value)
    (held_or_whole whole fun _ holds => holds_pushItem holds) (fun _ _ => rfl) (.of_scopes_eq rfl)

theorem fared_addArray {items : Array Value}
    (whole : ∀ value ∈ items, Whole terms.watch scene.store value) :
    Fared terms scene { scene with store := (scene.store.addArray items).2 } := by
  refine .of_change tended (.addArray items) ?_ (fun _ _ => rfl) (.of_scopes_eq rfl)
  intro value holds
  rcases holds_addArray holds with old | new
  · exact .inl old
  · exact .inr (whole value new)

theorem fared_addMap {entries : Dict Value}
    (whole : ∀ key value, entries.find? key = some value → Whole terms.watch scene.store value) :
    Fared terms scene { scene with store := (scene.store.addMap entries).2 } := by
  refine .of_change tended (.addMap entries) ?_ (fun _ _ => rfl) (.of_scopes_eq rfl)
  intro value holds
  rcases holds_addMap holds with old | ⟨key, new⟩
  · exact .inl old
  · exact .inr (whole key value new)

end

end Single

end ClassScript.Run
