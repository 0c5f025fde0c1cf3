import ClassScript.Proofs.StoreCoherence
import Mathlib.Logic.Relation

/-!
What a run can do to the store: each change is one of a few, and what a single change keeps a whole
run keeps.
-/

set_option autoImplicit false

namespace ClassScript.Run

/-- The store, and what each of its scopes was made for. -/
structure Scene where
  origins : Array (Option Construct)
  store : Store

def Notes.scene (notes : Notes) (machine : Machine) : Scene :=
  { origins := notes.origins, store := machine.store }

def Moment.scene (moment : Moment) : Scene :=
  { origins := moment.origins, store := moment.machine.store }

def superclassScope (parent : ClassRef) (outer : ScopeRef) : Scope :=
  { bindings := Dict.empty.insert Store.superName (.classObject parent), enclosing := some outer }

/-- A single change of the store. A class with a superclass comes with the scope that binds the
superclass for its methods. -/
inductive Change (scene : Scene) : Scene → Prop
  | define (ref : ScopeRef) {name : String} (value : Value) (plain : PlainName name) :
    Change scene { scene with store := scene.store.define ref name value }
  | addScope (scope : Scope) {origin : Option Construct}
    (other : ∀ decl, origin ≠ some (.superclass decl)) :
    Change scene
      { origins := scene.origins.push origin, store := (scene.store.addScope scope).2 }
  | addFunction (closure : Closure) :
    Change scene { scene with store := (scene.store.addFunction closure).2 }
  | addRoot (decl : ClassDecl Expr Stmt) (scope : ScopeRef) :
    Change scene { scene with store := (scene.store.addClass decl none scope scope).2 }
  | addHeir (decl : ClassDecl Expr Stmt) {parent : Nat} (valid : parent < scene.store.classes.size)
    (scope : ScopeRef) :
    Change scene
      { origins := scene.origins.push (some (.superclass decl))
        store := ((scene.store.addScope (superclassScope parent scope)).2.addClass decl
          (some parent) scope scene.store.scopes.size).2 }
  | addInstance (ref : ClassRef) :
    Change scene { scene with store := (scene.store.addInstance ref).2 }
  | setField (ref : InstanceRef) (name : String) (value : Value) :
    Change scene { scene with store := scene.store.setField ref name value }
  | put (place : Place) (value : Value) :
    Change scene { scene with store := Run.put scene.store place value }
  | pushItem (ref : ArrayRef) (value : Value) :
    Change scene { scene with store := scene.store.pushItem ref value }
  | addArray (items : Array Value) :
    Change scene { scene with store := (scene.store.addArray items).2 }
  | addMap (entries : Dict Value) :
    Change scene { scene with store := (scene.store.addMap entries).2 }

def Changed : Scene → Scene → Prop :=
  Relation.ReflTransGen Change

theorem Changed.refl (scene : Scene) : Changed scene scene :=
  Relation.ReflTransGen.refl

theorem Changed.trans {first second third : Scene} (changed : Changed first second)
    (changed' : Changed second third) : Changed first third :=
  Relation.ReflTransGen.trans changed changed'

variable {scene scene' : Scene} {found : Instance}

theorem Change.changed (change : Change scene scene') : Changed scene scene' :=
  Relation.ReflTransGen.single change

theorem put_scopes (store : Store) (place : Place) (value : Value) :
    (put store place value).scopes = store.scopes := by
  cases place <;> rfl

theorem put_classes (store : Store) (place : Place) (value : Value) :
    (put store place value).classes = store.classes := by
  cases place <;> rfl

theorem put_instances (store : Store) (place : Place) (value : Value) :
    (put store place value).instances = store.instances := by
  cases place <;> rfl

theorem Change.grows (change : Change scene scene') :
    Grows scene.origins scene.store scene'.origins scene'.store := by
  cases change with
  | define ref value plain => exact grows_define _ _ ref plain value
  | addScope scope other => exact grows_addScope _ _ _ scope
  | addFunction closure => exact grows_addFunction _ _ closure
  | addRoot decl scope => exact grows_addClass decl none scope scope _ _
  | addHeir decl valid scope =>
    exact (grows_addScope _ _ _ _).trans (grows_addClass decl (some _) scope _ _ _)
  | addInstance ref => exact .of_same rfl rfl (Nat.le_refl _)
  | setField ref name value => exact .of_same rfl rfl (Nat.le_refl _)
  | put place value => cases place <;> exact .of_same rfl rfl (Nat.le_refl _)
  | pushItem ref value => exact .of_same rfl rfl (Nat.le_refl _)
  | addArray items => exact .of_same rfl rfl (Nat.le_refl _)
  | addMap entries => exact .of_same rfl rfl (Nat.le_refl _)

theorem Changed.grows (changed : Changed scene scene') :
    Grows scene.origins scene.store scene'.origins scene'.store := by
  induction changed with
  | refl => exact .refl _ _
  | tail _ change ih => exact ih.trans change.grows

theorem Grows.scopes_size_le {origins origins' : Array (Option Construct)} {store store' : Store}
    (grows : Grows origins store origins' store') : store.scopes.size ≤ store'.scopes.size := by
  by_contra smaller
  have inside : store'.scopes.size < store.scopes.size := Nat.lt_of_not_le smaller
  obtain ⟨later, kept, -⟩ :=
    grows.scopes store'.scopes.size _ (Array.getElem?_eq_getElem inside)
  simp at kept

structure InstanceGrows (earlier later : Instance) : Prop where
  classRef : later.classRef = earlier.classRef
  fields : ∀ name, (earlier.fields.find? name).isSome → (later.fields.find? name).isSome

theorem InstanceGrows.refl (found : Instance) : InstanceGrows found found :=
  ⟨rfl, fun _ set => set⟩

theorem Change.instance_grows (change : Change scene scene') {ref : Nat}
    (stored : scene.store.instances[ref]? = some found) :
    ∃ later, scene'.store.instances[ref]? = some later ∧ InstanceGrows found later := by
  cases change with
  | addInstance classRef =>
    have inside := (Array.getElem?_eq_some_iff.mp stored).1
    refine ⟨found, ?_, .refl found⟩
    simp only [Store.addInstance]
    rw [Array.getElem?_push_lt inside, ← Array.getElem?_eq_getElem inside, stored]
  | setField other name value =>
    simp only [Store.setField, Array.getElem?_modify, stored]
    split
    · refine ⟨_, rfl, rfl, fun key set => ?_⟩
      rw [Dict.find?_insert]
      split
      · rfl
      · exact set
    · exact ⟨found, rfl, .refl found⟩
  | put place value => exact ⟨found, by rw [put_instances, stored], .refl found⟩
  | _ => exact ⟨found, stored, .refl found⟩

theorem Changed.instance_grows (changed : Changed scene scene') {ref : Nat}
    (stored : scene.store.instances[ref]? = some found) :
    ∃ later, scene'.store.instances[ref]? = some later ∧ InstanceGrows found later := by
  induction changed with
  | refl => exact ⟨found, stored, .refl found⟩
  | tail _ change ih =>
    obtain ⟨middle, stored', grows⟩ := ih
    obtain ⟨later, stored'', grows'⟩ := change.instance_grows stored'
    exact ⟨later, stored'', grows'.classRef.trans grows.classRef,
      fun name set => grows'.fields name (grows.fields name set)⟩

theorem Changed.instances_size_le (changed : Changed scene scene') :
    scene.store.instances.size ≤ scene'.store.instances.size := by
  by_contra smaller
  have inside : scene'.store.instances.size < scene.store.instances.size := Nat.lt_of_not_le smaller
  obtain ⟨later, kept, -⟩ := changed.instance_grows (Array.getElem?_eq_getElem inside)
  simp at kept

theorem Changed.getField?_isSome (changed : Changed scene scene') {ref : InstanceRef}
    {name : String} (set : (scene.store.getField? ref name).isSome) :
    (scene'.store.getField? ref name).isSome := by
  unfold Store.getField? at set ⊢
  cases stored : scene.store.instances[ref]? with
  | none => simp [stored] at set
  | some found =>
    obtain ⟨later, stored', grows⟩ := changed.instance_grows stored
    simp only [stored, stored'] at set ⊢
    exact grows.fields name set

def NamesFrom (opened : ScopeRef → String → Prop) (store store' : Store) : Prop :=
  ∀ (ref : Nat) name, ref < store.scopes.size → (store'.getHere? ref name).isSome →
    (store.getHere? ref name).isSome ∨ opened ref name

namespace NamesFrom

variable {opened : ScopeRef → String → Prop} {store store' store'' : Store}

theorem refl (opened : ScopeRef → String → Prop) (store : Store) : NamesFrom opened store store :=
  fun _ _ _ bound => .inl bound

theorem trans (size : store.scopes.size ≤ store'.scopes.size)
    (names : NamesFrom opened store store') (names' : NamesFrom opened store' store'') :
    NamesFrom opened store store'' := by
  intro ref name inside bound
  rcases names' ref name (Nat.lt_of_lt_of_le inside size) bound with before | new
  · exact names ref name inside before
  · exact .inr new

theorem of_scopes_eq (scopes : store'.scopes = store.scopes) : NamesFrom opened store store' := by
  intro ref name inside bound
  exact .inl (by simpa only [Store.getHere?, scopes] using bound)

theorem addScope (opened : ScopeRef → String → Prop) (store : Store) (scope : Scope) :
    NamesFrom opened store (store.addScope scope).2 := by
  intro ref name inside bound
  rw [getHere?_addScope, if_neg (Nat.ne_of_lt inside)] at bound
  exact .inl bound

theorem define {ref : ScopeRef} {name : String} (value : Value)
    (allowed : opened ref name ∨ (store.getHere? ref name).isSome) :
    NamesFrom opened store (store.define ref name value) := by
  intro other key inside bound
  rw [getHere?_define] at bound
  split at bound
  · rename_i same
    obtain ⟨rfl, rfl, -⟩ := same
    exact allowed.symm
  · exact .inl bound

theorem mono {more : ScopeRef → String → Prop} (names : NamesFrom opened store store')
    (weaker : ∀ (ref : Nat) name, ref < store.scopes.size → opened ref name → more ref name) :
    NamesFrom more store store' :=
  fun ref name inside bound => (names ref name inside bound).imp_right (weaker ref name inside)

end NamesFrom

end ClassScript.Run
