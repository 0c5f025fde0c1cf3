import ClassScript.Proofs.Changes

/-!
Classes and their ancestors: looking a member up in the tables of a class is walking towards the
root until a class declares it, and a scope that binds the superclass belongs to one class.
-/

set_option autoImplicit false

namespace ClassScript

def ClassDecl.field? (decl : ClassDecl Expr Stmt) (name : String) : Option (FieldDecl Expr) :=
  decl.fields.reverse.find? fun field => field.name.name == name

def ClassDecl.method? (decl : ClassDecl Expr Stmt) (name : String) : Option (MethodDecl Stmt) :=
  decl.methods.reverse.find? fun method => method.function.name.name == name

namespace Store

private theorem find?_ownFields (owner : ClassRef) (inherited : Dict Member)
    (fields : List (FieldDecl Expr)) (name : String) :
    (ownFields owner inherited fields).find? name =
      match fields.reverse.find? fun field => field.name.name == name with
      | some field => some { visibility := field.visibility, owner }
      | none => inherited.find? name := by
  induction fields generalizing inherited with
  | nil => rfl
  | cons field rest ih =>
    have unrolled : ownFields owner inherited (field :: rest) =
      ownFields owner
        (inherited.insert field.name.name { visibility := field.visibility, owner }) rest := rfl
    rw [unrolled, ih, List.reverse_cons, List.find?_append]
    cases rest.reverse.find? fun field => field.name.name == name with
    | some later => rfl
    | none =>
      rw [Dict.find?_insert]
      by_cases same : field.name.name = name
      · simp [same]
      · simp [same, Ne.symm same]

def methodEntry (owner : ClassRef) (scope : ScopeRef) (method : MethodDecl Stmt) : Method :=
  { member := { visibility := method.visibility, owner }
    closure :=
      { decl := method.function, scope
        isInitializer := method.function.name.name == constructorName
        owner := some owner } }

private theorem find?_ownMethods (owner : ClassRef) (scope : ScopeRef) (inherited : Dict Method)
    (methods : List (MethodDecl Stmt)) (name : String) :
    (ownMethods owner scope inherited methods).find? name =
      match methods.reverse.find? fun method => method.function.name.name == name with
      | some method => some (methodEntry owner scope method)
      | none => inherited.find? name := by
  induction methods generalizing inherited with
  | nil => rfl
  | cons method rest ih =>
    have unrolled : ownMethods owner scope inherited (method :: rest) =
      ownMethods owner scope
        (inherited.insert method.function.name.name (methodEntry owner scope method)) rest := rfl
    rw [unrolled, ih, List.reverse_cons, List.find?_append]
    cases rest.reverse.find? fun method => method.function.name.name == name with
    | some later => rfl
    | none =>
      rw [Dict.find?_insert]
      by_cases same : method.function.name.name = name
      · simp [same]
      · simp [same, Ne.symm same]

end Store

end ClassScript

namespace ClassScript.Run

/-- The first class is the second one or inherits from it. -/
def Inherits (store : Store) : ClassRef → ClassRef → Prop :=
  Relation.ReflTransGen fun ref parent =>
    ∃ found, store.classes[ref]? = some found ∧ found.superclass = some parent

variable {ref ancestor : ClassRef} {store store' : Store} {found : ClassObject} {scope : ScopeRef}
  {origins' : Array (Option Construct)} {scene scene' : Scene} {superclass : Option ClassRef}

theorem inherits_of_mem_chainFrom {bound : Nat} {other : ClassRef}
    (member : other ∈ store.chainFrom bound ref) : Inherits store ref other := by
  induction bound generalizing ref with
  | zero => simp [Store.chainFrom] at member
  | succ bound ih =>
    rcases List.mem_cons.mp member with rfl | above
    · exact .refl
    · split at above
      · rename_i parent _ _ _ _ _ stored
        exact .head ⟨_, stored, rfl⟩ (ih above)
      · simp at above

def parent? (store : Store) (found : ClassObject) : Option ClassObject :=
  found.superclass.bind fun parent => store.classes[parent]?

/-- The tables of a class are those of its superclass with its own members put in; its own methods
stand in the given scope. -/
structure Tabled (store : Store) (ref : ClassRef) (found : ClassObject) (scope : ScopeRef) :
    Prop where
  fields : found.fields = Store.ownFields ref
    (((parent? store found).map ClassObject.fields).getD ∅) found.decl.fields
  methods : found.methods = Store.ownMethods ref scope
    (((parent? store found).map ClassObject.methods).getD ∅) found.decl.methods

/-- The own methods of a class stand in the scope that the class is declared in; if it has a
superclass, in a scope inside of that one, which binds the superclass. -/
def MethodScope (store : Store) (found : ClassObject) (scope : ScopeRef) : Prop :=
  match found.superclass with
  | none => scope = found.scope
  | some parent => ∃ stored, store.scopes[scope]? = some stored ∧
    stored.enclosing = some found.scope ∧
    stored.bindings.find? Store.superName = some (.classObject parent)

structure StandsIn (store : Store) (above : ScopeRef) (decl : ClassDecl Expr Stmt)
    (ref : ClassRef) : Prop where
  intro ::
  stored : ∃ found parent, store.classes[ref]? = some found ∧ found.decl = decl ∧
    found.superclass = some parent ∧ parent < store.classes.size ∧ Tabled store ref found above ∧
    store.getHere? above Store.superName = some (.classObject parent)

/-- Classes are as their declarations made them. -/
structure Formed (scene : Scene) : Prop where
  sizes : scene.origins.size = scene.store.scopes.size
  older : ∀ (ref : Nat) found (parent : Nat), scene.store.classes[ref]? = some found →
    found.superclass = some parent → parent < ref
  tabled : ∀ (ref : Nat) found, scene.store.classes[ref]? = some found →
    ∃ scope, Tabled scene.store ref found scope ∧ MethodScope scene.store found scope
  supers : ∀ (above : Nat) decl, scene.origins[above]? = some (some (.superclass decl)) →
    ∃ ref, StandsIn scene.store above decl ref

theorem Tabled.of_parent (tabled : Tabled store ref found scope)
    (same : parent? store' found = parent? store found) : Tabled store' ref found scope :=
  ⟨same ▸ tabled.fields, same ▸ tabled.methods⟩

theorem MethodScope.grow {origins : Array (Option Construct)}
    (grows : Grows origins store origins' store') (houses : MethodScope store found scope) :
    MethodScope store' found scope := by
  unfold MethodScope at houses ⊢
  split at houses
  · exact houses
  · obtain ⟨stored, known, outer, bound⟩ := houses
    obtain ⟨later, known', scopeGrows⟩ := grows.scopes scope stored known
    refine ⟨later, known', scopeGrows.enclosing.trans outer, ?_⟩
    rw [scopeGrows.words _ not_plain_super, bound]

theorem Formed.parent?_grow (formed : Formed scene)
    (grows : Grows scene.origins scene.store origins' store') {ref : Nat}
    (stored : scene.store.classes[ref]? = some found) :
    parent? store' found = parent? scene.store found := by
  unfold parent?
  cases above : found.superclass with
  | none => rfl
  | some parent =>
    have inside : parent < scene.store.classes.size :=
      Nat.lt_trans (formed.older ref found parent stored above)
        (Array.getElem?_eq_some_iff.mp stored).1
    have known := Array.getElem?_eq_getElem inside
    simp only [Option.bind_some]
    rw [known]
    exact grows.classes parent _ known

theorem Formed.standsIn_grow (formed : Formed scene)
    (grows : Grows scene.origins scene.store origins' store') {above : ScopeRef}
    {decl : ClassDecl Expr Stmt} (stands : StandsIn scene.store above decl ref) :
    StandsIn store' above decl ref := by
  obtain ⟨found, parent, stored, same, inherits, valid, tabled, bound⟩ := stands.stored
  exact .intro ⟨found, parent, grows.classes ref found stored, same, inherits,
    Nat.lt_of_lt_of_le valid grows.classes_size_le,
    tabled.of_parent (formed.parent?_grow grows stored),
    grows.getHere?_word not_plain_super bound⟩

theorem Formed.grow (formed : Formed scene)
    (grows : Grows scene.origins scene.store scene'.origins scene'.store)
    (sizes : scene'.origins.size = scene'.store.scopes.size)
    (classes : scene'.store.classes = scene.store.classes)
    (origins : ∀ (above : Nat) decl, scene'.origins[above]? = some (some (.superclass decl)) →
      scene.origins[above]? = some (some (.superclass decl))) : Formed scene' where
  sizes := sizes
  older := classes ▸ formed.older
  tabled ref found stored := by
    rw [classes] at stored
    obtain ⟨scope, tabled, houses⟩ := formed.tabled ref found stored
    exact ⟨scope, tabled.of_parent (formed.parent?_grow grows stored), houses.grow grows⟩
  supers above decl origin := by
    obtain ⟨ref, stands⟩ := formed.supers above decl (origins above decl origin)
    exact ⟨ref, formed.standsIn_grow grows stands⟩

private theorem getElem?_addClass (store : Store) (decl : ClassDecl Expr Stmt)
    (superclass : Option ClassRef) (scope methodScope : ScopeRef) (ref : Nat) :
    (store.addClass decl superclass scope methodScope).2.classes[ref]? =
      if ref = store.classes.size then
        some { decl, superclass, scope
               fields := Store.ownFields store.classes.size
                (((superclass.bind fun parent => store.classes[parent]?).map
                  ClassObject.fields).getD ∅) decl.fields
               methods := Store.ownMethods store.classes.size methodScope
                (((superclass.bind fun parent => store.classes[parent]?).map
                  ClassObject.methods).getD ∅) decl.methods }
      else store.classes[ref]? := by
  simp only [Store.addClass, Array.getElem?_push]

private theorem tabled_addClass (store : Store) (decl : ClassDecl Expr Stmt)
    (valid : ∀ parent ∈ superclass, parent < store.classes.size) (scope methodScope : ScopeRef) :
    ∃ found, (store.addClass decl superclass scope methodScope).2.classes[store.classes.size]? =
        some found ∧ found.decl = decl ∧ found.superclass = superclass ∧ found.scope = scope ∧
      Tabled (store.addClass decl superclass scope methodScope).2 store.classes.size found
        methodScope := by
  have added := getElem?_addClass store decl superclass scope methodScope store.classes.size
  rw [if_pos rfl] at added
  refine ⟨_, added, rfl, rfl, rfl, ?_⟩
  have same : (superclass.bind fun parent =>
      (store.addClass decl superclass scope methodScope).2.classes[parent]?) =
      superclass.bind fun parent => store.classes[parent]? := by
    cases superclass with
    | none => rfl
    | some parent =>
      have inside : parent ≠ store.classes.size := Nat.ne_of_lt (valid parent rfl)
      simp only [Option.bind_some]
      rw [getElem?_addClass, if_neg inside]
  constructor
  · simp only [parent?, same]
  · simp only [parent?, same]

theorem Formed.addClass (formed : Formed scene) (decl : ClassDecl Expr Stmt)
    (valid : ∀ parent ∈ superclass, parent < scene.store.classes.size)
    (scope methodScope : ScopeRef)
    (houses : ∀ found : ClassObject, found.superclass = superclass → found.scope = scope →
      MethodScope scene.store found methodScope) :
    Formed { scene with
      store := (scene.store.addClass decl superclass scope methodScope).2 } := by
  have grows := grows_addClass decl superclass scope methodScope scene.origins scene.store
  obtain ⟨new, isNew, -, inherits, within, tabled⟩ :=
    tabled_addClass scene.store decl valid scope methodScope
  refine ⟨formed.sizes, ?_, ?_, ?_⟩
  · intro ref found parent stored above
    by_cases last : ref = scene.store.classes.size
    · subst last
      obtain rfl : new = found := Option.some.inj (isNew.symm.trans stored)
      exact valid parent (inherits ▸ above)
    · simp only [getElem?_addClass, if_neg last] at stored
      exact formed.older ref found parent stored above
  · intro ref found stored
    by_cases last : ref = scene.store.classes.size
    · subst last
      obtain rfl : new = found := Option.some.inj (isNew.symm.trans stored)
      exact ⟨methodScope, tabled, (houses new inherits within).grow grows⟩
    · simp only [getElem?_addClass, if_neg last] at stored
      obtain ⟨scope', tabled', houses'⟩ := formed.tabled ref found stored
      exact ⟨scope', tabled'.of_parent (formed.parent?_grow grows stored), houses'.grow grows⟩
  · intro above decl' origin
    obtain ⟨ref, stands⟩ := formed.supers above decl' origin
    exact ⟨ref, formed.standsIn_grow grows stands⟩

theorem Formed.addHeir (formed : Formed scene) (decl : ClassDecl Expr Stmt) {parent : Nat}
    (valid : parent < scene.store.classes.size) (scope : ScopeRef) :
    Formed
      { origins := scene.origins.push (some (.superclass decl))
        store := ((scene.store.addScope (superclassScope parent scope)).2.addClass decl
          (some parent) scope scene.store.scopes.size).2 } := by
  -- While there is the scope and not the class yet, the scope belongs to no class: its origin is
  -- left out in between.
  have between : Formed
      { origins := scene.origins.push none
        store := (scene.store.addScope (superclassScope parent scope)).2 } := by
    refine formed.grow (grows_addScope _ _ _ _) ?_ rfl ?_
    · simp [Store.addScope, formed.sizes]
    · intro above decl' origin
      rw [Array.getElem?_push] at origin
      split at origin
      · simp at origin
      · exact origin
  have valid' : ∀ other ∈ some parent,
      other < (scene.store.addScope (superclassScope parent scope)).2.classes.size := by
    intro other same
    obtain rfl := Option.some.inj same
    exact valid
  have after := between.addClass decl valid' scope scene.store.scopes.size <| by
    intro found inherits within
    unfold MethodScope
    rw [inherits, within]
    exact ⟨superclassScope parent scope, Array.getElem?_push_size, rfl,
      Dict.find?_insert_self _ _ _⟩
  refine ⟨?_, after.older, after.tabled, ?_⟩
  · simpa using after.sizes
  · intro above decl' origin
    simp only [Array.getElem?_push] at origin
    split at origin
    · rename_i last
      obtain rfl : decl = decl' := by simpa using origin
      obtain ⟨new, isNew, same, inherits, -, tabled⟩ := tabled_addClass
        (scene.store.addScope (superclassScope parent scope)).2 decl valid' scope
        scene.store.scopes.size
      refine ⟨scene.store.classes.size, .intro ⟨new, parent, isNew, same, inherits, ?_, ?_, ?_⟩⟩
      · exact Nat.lt_of_lt_of_le valid (by simp [Store.addClass, Store.addScope])
      · rw [last, formed.sizes]
        exact tabled
      · have bound := getHere?_addScope scene.store (superclassScope parent scope) above
          Store.superName
        rw [if_pos (last.trans formed.sizes)] at bound
        exact bound
    · rename_i other
      refine after.supers above decl' ?_
      simp only [Array.getElem?_push, if_neg other]
      exact origin

theorem Formed.change (formed : Formed scene) (change : Change scene scene') : Formed scene' := by
  have grows := change.grows
  cases change with
  | define ref value plain =>
    exact formed.grow grows (by simpa [Store.define] using formed.sizes) rfl fun _ _ same => same
  | addScope scope other =>
    refine formed.grow grows (by simp [Store.addScope, formed.sizes]) rfl ?_
    intro above decl origin
    simp only [Array.getElem?_push] at origin
    split at origin
    · exact absurd (Option.some.inj origin) (other decl)
    · exact origin
  | addRoot decl scope =>
    refine formed.addClass decl (by simp) scope scope ?_
    intro found alone within
    unfold MethodScope
    rw [alone]
    exact within.symm
  | addHeir decl valid scope => exact formed.addHeir decl valid scope
  | put place value =>
    exact formed.grow grows (by rw [put_scopes]; exact formed.sizes) (put_classes _ place value)
      fun _ _ same => same
  | _ => exact formed.grow grows formed.sizes rfl fun _ _ same => same

/-- Walking from a class towards the root, the first class that has something of its own, and what
it has; nothing if no class has. -/
inductive Nearest {α : Type} (store : Store) (own : ClassObject → Option α) :
    ClassRef → Option (ClassRef × α) → Prop
  | here {ref : ClassRef} {found : ClassObject} {what : α}
    (stored : store.classes[ref]? = some found) (has : own found = some what) :
    Nearest store own ref (some (ref, what))
  | above {ref parent : ClassRef} {found : ClassObject} {result : Option (ClassRef × α)}
    (stored : store.classes[ref]? = some found) (lacks : own found = none)
    (inherits : found.superclass = some parent) (rest : Nearest store own parent result) :
    Nearest store own ref result
  | root {ref : ClassRef} {found : ClassObject} (stored : store.classes[ref]? = some found)
    (lacks : own found = none) (alone : found.superclass = none) : Nearest store own ref none

section Walk

variable {α : Type} {scene : Scene} {own : ClassObject → Option α} {ref : ClassRef}

theorem Formed.exists_nearest (formed : Formed scene) (own : ClassObject → Option α)
    (inside : ref < scene.store.classes.size) : ∃ result, Nearest scene.store own ref result := by
  induction ref using Nat.strongRecOn with
  | ind ref ih =>
    have stored := Array.getElem?_eq_getElem inside
    cases mine : own scene.store.classes[ref] with
    | some what => exact ⟨_, .here stored mine⟩
    | none =>
      cases above : scene.store.classes[ref].superclass with
      | none => exact ⟨_, .root stored mine above⟩
      | some parent =>
        have younger := formed.older ref _ parent stored above
        obtain ⟨result, walk⟩ := ih parent younger (Nat.lt_trans younger inside)
        exact ⟨result, .above stored mine above walk⟩

variable {result : Option (ClassRef × α)} {store : Store} {found : ClassObject}

theorem Nearest.stored (walk : Nearest store own ref result) :
    ∃ found, store.classes[ref]? = some found := by
  cases walk with
  | here stored => exact ⟨_, stored⟩
  | above stored => exact ⟨_, stored⟩
  | root stored => exact ⟨_, stored⟩

theorem Nearest.inherits {owner : ClassRef} {what : α}
    (walk : Nearest store own ref (some (owner, what))) :
    Inherits store ref owner ∧ ∃ found, store.classes[owner]? = some found ∧
      own found = some what := by
  generalize same : some (owner, what) = result at walk
  induction walk with
  | here stored has =>
    obtain ⟨rfl, rfl⟩ := Prod.mk.inj (Option.some.inj same)
    exact ⟨.refl, _, stored, has⟩
  | above stored _ inherits _ ih =>
    obtain ⟨rest, known⟩ := ih same
    exact ⟨.head ⟨_, stored, inherits⟩ rest, known⟩
  | root => cases same

theorem Nearest.lacks (walk : Nearest store own ref none) {ancestor : ClassRef}
    (inherits : Inherits store ref ancestor) (known : store.classes[ancestor]? = some found) :
    own found = none := by
  generalize same : (none : Option (ClassRef × α)) = result at walk
  induction walk with
  | here => cases same
  | above stored lacks above _ ih =>
    rcases Relation.ReflTransGen.cases_head inherits with rfl | ⟨parent, ⟨other, stored', up⟩, rest⟩
    · obtain rfl := Option.some.inj (stored.symm.trans known)
      exact lacks
    · obtain rfl := Option.some.inj (stored.symm.trans stored')
      obtain rfl := Option.some.inj (above.symm.trans up)
      exact ih rest same
  | root stored lacks alone =>
    rcases Relation.ReflTransGen.cases_head inherits with rfl | ⟨parent, ⟨other, stored', up⟩, -⟩
    · obtain rfl := Option.some.inj (stored.symm.trans known)
      exact lacks
    · obtain rfl := Option.some.inj (stored.symm.trans stored')
      rw [alone] at up
      cases up

theorem Formed.nearest_none_iff (formed : Formed scene) (inside : ref < scene.store.classes.size) :
    Nearest scene.store own ref none ↔ ∀ ancestor found, Inherits scene.store ref ancestor →
      scene.store.classes[ancestor]? = some found → own found = none := by
  constructor
  · exact fun walk ancestor found inherits known => walk.lacks inherits known
  · intro lack
    obtain ⟨result, walk⟩ := formed.exists_nearest own inside
    cases result with
    | none => exact walk
    | some result =>
      obtain ⟨owner, what⟩ := result
      obtain ⟨inherits, found, known, has⟩ := walk.inherits
      rw [lack owner found inherits known] at has
      cases has

/-- What a table holds after a walk with the given result. -/
def TableSays {β : Type} (store : Store) (entry : ClassRef → ClassObject → α → β → Prop)
    (there : Option β) : Option (ClassRef × α) → Prop
  | none => there = none
  | some (owner, what) => ∃ found held, store.classes[owner]? = some found ∧
    there = some held ∧ entry owner found what held

/-- Looking something up in the tables of a class is walking towards the root, for every table that
a class takes from its superclass where it has nothing of its own. -/
theorem Nearest.table {β : Type} (table : ClassObject → Option β)
    {entry : ClassRef → ClassObject → α → β → Prop}
    (has : ∀ (ref : Nat) found what, store.classes[ref]? = some found → own found = some what →
      ∃ there, table found = some there ∧ entry ref found what there)
    (takes : ∀ (ref : Nat) found, store.classes[ref]? = some found → own found = none →
      table found = (parent? store found).bind table) (walk : Nearest store own ref result)
    (known : store.classes[ref]? = some found) : TableSays store entry (table found) result := by
  induction walk generalizing found with
  | here stored mine =>
    obtain rfl := Option.some.inj (stored.symm.trans known)
    obtain ⟨there, looked, isEntry⟩ := has _ _ _ stored mine
    exact ⟨_, there, stored, looked, isEntry⟩
  | above stored lacks above rest ih =>
    obtain rfl := Option.some.inj (stored.symm.trans known)
    have taken := takes _ _ stored lacks
    obtain ⟨parentFound, parentKnown⟩ := rest.stored
    have looked := ih parentKnown
    simp only [parent?, above, Option.bind_some, parentKnown] at taken
    rw [taken]
    exact looked
  | root stored lacks alone =>
    obtain rfl := Option.some.inj (stored.symm.trans known)
    have taken := takes _ _ stored lacks
    simp only [parent?, alone, Option.bind_none] at taken
    exact taken

end Walk

def ownField (name : String) (found : ClassObject) : Option (FieldDecl Expr) :=
  found.decl.field? name

def ownMethod (name : String) (found : ClassObject) : Option (MethodDecl Stmt) :=
  found.decl.method? name

theorem ownField_eq_none_iff {name : String} :
    ownField name found = none ↔ ∀ field ∈ found.decl.fields, field.name.name ≠ name := by
  simp [ownField, ClassDecl.field?]

private theorem find?_getD_map {α : Type} (table : ClassObject → Dict α)
    (above : Option ClassObject) (name : String) :
    (((above.map table).getD ∅).find? name) = above.bind fun found => (table found).find? name := by
  cases above <;> rfl

section Members

variable {scene : Scene} {name : String} {ref : ClassRef} {found : ClassObject}

theorem Formed.find?_fields (formed : Formed scene)
    (known : scene.store.classes[ref]? = some found) {result : Option (ClassRef × FieldDecl Expr)}
    (walk : Nearest scene.store (ownField name) ref result) :
    found.fields.find? name =
      result.map fun last => { visibility := last.2.visibility, owner := last.1 } := by
  have looked : TableSays scene.store
      (fun ref _ field member => member = { visibility := field.visibility, owner := ref })
      (found.fields.find? name) result := by
    refine walk.table (fun found => found.fields.find? name) ?_ ?_ known
    · intro ref found field stored has
      obtain ⟨scope, tabled, -⟩ := formed.tabled ref found stored
      have declared : found.decl.field? name = some field := has
      unfold ClassDecl.field? at declared
      exact ⟨_, by rw [tabled.fields, Store.find?_ownFields, declared], rfl⟩
    · intro ref found stored lacks
      obtain ⟨scope, tabled, -⟩ := formed.tabled ref found stored
      have undeclared : found.decl.field? name = none := lacks
      unfold ClassDecl.field? at undeclared
      rw [tabled.fields, Store.find?_ownFields, undeclared]
      exact find?_getD_map ClassObject.fields _ name
  cases result with
  | none => exact looked
  | some last =>
    obtain ⟨-, member, -, there, rfl⟩ := looked
    exact there

theorem Formed.exists_methodScopes (formed : Formed scene) :
    ∃ methodScope : ClassRef → ScopeRef, ∀ (ref : Nat) found,
      scene.store.classes[ref]? = some found →
        Tabled scene.store ref found (methodScope ref) ∧
          MethodScope scene.store found (methodScope ref) := by
  have scopes (ref : ClassRef) : ∃ scope, ∀ found, scene.store.classes[ref]? = some found →
      Tabled scene.store ref found scope ∧ MethodScope scene.store found scope := by
    cases stored : scene.store.classes[ref]? with
    | none => exact ⟨Store.globalScope, by simp⟩
    | some found =>
      obtain ⟨scope, both⟩ := formed.tabled ref found stored
      refine ⟨scope, fun other same => ?_⟩
      obtain rfl := Option.some.inj same
      exact both
  choose methodScope both using scopes
  exact ⟨methodScope, both⟩

/-- The table of methods holds the method that is declared nearest to the class, in the scope of the
methods of its owner. -/
theorem Nearest.find?_methods {store : Store} {methodScope : ClassRef → ScopeRef}
    (tabled : ∀ (ref : Nat) found, store.classes[ref]? = some found →
      Tabled store ref found (methodScope ref))
    {result : Option (ClassRef × MethodDecl Stmt)}
    (walk : Nearest store (ownMethod name) ref result)
    (known : store.classes[ref]? = some found) :
    found.methods.find? name =
      result.map fun last => Store.methodEntry last.1 (methodScope last.1) last.2 := by
  have looked : TableSays store
      (fun owner _ method held => held = Store.methodEntry owner (methodScope owner) method)
      (found.methods.find? name) result := by
    refine walk.table (fun found => found.methods.find? name) ?_ ?_ known
    · intro ref found method stored has
      have declared : found.decl.method? name = some method := has
      unfold ClassDecl.method? at declared
      exact ⟨_, by rw [(tabled ref found stored).methods, Store.find?_ownMethods, declared], rfl⟩
    · intro ref found stored lacks
      have undeclared : found.decl.method? name = none := lacks
      unfold ClassDecl.method? at undeclared
      rw [(tabled ref found stored).methods, Store.find?_ownMethods, undeclared]
      exact find?_getD_map ClassObject.methods _ name
  cases result with
  | none => exact looked
  | some last =>
    obtain ⟨-, held, -, there, rfl⟩ := looked
    exact there

theorem Formed.find?_methods (formed : Formed scene)
    (known : scene.store.classes[ref]? = some found) {result : Option (ClassRef × MethodDecl Stmt)}
    (walk : Nearest scene.store (ownMethod name) ref result) :
    TableSays scene.store
      (fun owner found method entry => ∃ scope, Tabled scene.store owner found scope ∧
        entry = Store.methodEntry owner scope method)
      (found.methods.find? name) result := by
  obtain ⟨methodScope, both⟩ := formed.exists_methodScopes
  have looked := walk.find?_methods (fun ref found stored => (both ref found stored).1) known
  cases result with
  | none => exact looked
  | some last =>
    obtain ⟨-, found, stored, -⟩ := walk.inherits
    exact ⟨found, _, stored, looked, _, (both last.1 found stored).1, rfl⟩

end Members

theorem Formed.mem_chainFrom (formed : Formed scene)
    (inherits : Inherits scene.store ref ancestor) :
    ∀ bound, ref < bound → ancestor ∈ scene.store.chainFrom bound ref := by
  induction inherits using Relation.ReflTransGen.head_induction_on with
  | refl =>
    intro bound inside
    obtain ⟨bound, rfl⟩ := Nat.exists_eq_succ_of_ne_zero (Nat.ne_zero_of_lt inside)
    simp [Store.chainFrom]
  | @head first parent step rest ih =>
    intro bound inside
    obtain ⟨bound, rfl⟩ := Nat.exists_eq_succ_of_ne_zero (Nat.ne_zero_of_lt inside)
    obtain ⟨found, stored, above⟩ := step
    have older := formed.older first found parent stored above
    obtain ⟨decl, superclass, scope, fields, methods⟩ := found
    obtain rfl : superclass = some parent := above
    rw [Store.chainFrom, stored]
    exact List.mem_cons_of_mem _ (ih bound (Nat.lt_of_lt_of_le older (Nat.lt_succ_iff.mp inside)))

theorem Formed.mem_lineage_iff (formed : Formed scene) (inside : ref < scene.store.classes.size) :
    ancestor ∈ scene.store.lineage ref ↔ Inherits scene.store ref ancestor := by
  rw [Store.lineage, List.mem_reverse]
  exact ⟨inherits_of_mem_chainFrom, fun inherits => formed.mem_chainFrom inherits _ inside⟩

theorem Formed.inherits_grow (formed : Formed scene)
    (grows : Grows scene.origins scene.store origins' store')
    (inside : ref < scene.store.classes.size) (inherits : Inherits store' ref ancestor) :
    Inherits scene.store ref ancestor := by
  induction inherits using Relation.ReflTransGen.head_induction_on with
  | refl => exact .refl
  | @head first parent step rest ih =>
    obtain ⟨found, stored', above⟩ := step
    have stored := Array.getElem?_eq_getElem inside
    obtain rfl := Option.some.inj ((grows.classes first _ stored).symm.trans stored')
    have older := formed.older first _ parent stored above
    exact .head ⟨_, stored, above⟩ (ih (Nat.lt_trans older inside))

end ClassScript.Run
