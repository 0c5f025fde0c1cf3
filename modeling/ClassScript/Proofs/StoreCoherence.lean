import ClassScript.Proofs.ScopeTrails

/-!
What is kept up while a program runs: every function and every class of the store fits the place
that its declaration has in the text.
-/

set_option autoImplicit false

namespace ClassScript.Run

/-- A class or a function that the value means exists. -/
def Known (store : Store) : Value → Prop
  | .classObject ref => ref < store.classes.size
  | .function ref => ref < store.functions.size
  | _ => True

/-- The store holds the value somewhere. -/
inductive Holds (store : Store) : Value → Prop
  | scope {ref : ScopeRef} {name : String} {value : Value}
      (bound : store.getHere? ref name = some value) : Holds store value
  | field {ref : InstanceRef} {name : String} {value : Value}
      (set : store.getField? ref name = some value) : Holds store value
  | item {ref : ArrayRef} {slot : Nat} {value : Value}
      (stored : (store.items ref)[slot]? = some value) : Holds store value
  | entry {ref : MapRef} {key : String} {value : Value}
      (stored : (store.entries ref).find? key = some value) : Holds store value

/-- The store holds no class and no function that does not exist. -/
def AllKnown (store : Store) : Prop :=
  ∀ value, Holds store value → Known store value

def DeclaresField (decl : ClassDecl Expr Stmt) (name : String) (visibility : Visibility) : Prop :=
  ∃ field ∈ decl.fields, field.name.name = name ∧ field.visibility = visibility

def DeclaresMethod (decl : ClassDecl Expr Stmt) (name : String) (visibility : Visibility)
    (function : FunctionDecl Stmt) : Prop :=
  ∃ method ∈ decl.methods, method.function.name.name = name ∧ method.visibility = visibility ∧
    method.function = function

/-- The owner that the tables of classes give for a member declares it. -/
structure TablesFit (store : Store) : Prop where
  fields : ∀ (ref : Nat) found name member, store.classes[ref]? = some found →
    found.fields.find? name = some member →
    ∃ owner, store.classes[member.owner]? = some owner ∧
      DeclaresField owner.decl name member.visibility
  methods : ∀ (ref : Nat) found name method, store.classes[ref]? = some found →
    found.methods.find? name = some method →
    method.closure.owner = some method.member.owner ∧
    ∃ owner, store.classes[method.member.owner]? = some owner ∧
      DeclaresMethod owner.decl name method.member.visibility method.closure.decl

structure ClosureFits (text : Site → Prop) (origins : Array (Option Construct)) (store : Store)
    (closure : Closure) (spot : Spot) : Prop where
  fits : Fits origins store spot.nesting spot.trail
  scope : closure.scope = innermost spot.trail
  owner : OwnerFits store spot.nesting closure.owner
  sites : Covered text (functionSites spot.nesting closure.decl)
  receiver : closure.isInitializer = true →
    ∃ receiver, store.getHere? closure.scope Store.thisName = some (.object receiver)

structure ClassFits (text : Site → Prop) (origins : Array (Option Construct)) (store : Store)
    (found : ClassObject) (note : ClassNote) : Prop where
  decl : note.decl = found.decl
  fits : Fits origins store note.spot.nesting note.spot.trail
  scope : found.scope = innermost note.spot.trail
  methods : SuperclassFits origins store found.decl (Fits origins store note.spot.nesting)
    note.methodTrail
  fieldSites : Covered text (fieldsSites (.fields found.decl note.spot.nesting) found.decl.fields)
  methodSites : Covered text
    (methodsSites (.methods found.decl note.spot.nesting) found.decl.methods)
  declared : ∃ nesting, Covered text (stmtSites nesting (.classDecl found.decl))

/-- Functions, classes and values of the store are as the text and the notes say. -/
structure Coherent (text : Site → Prop) (notes : Notes) (store : Store) : Prop where
  origins_size : notes.origins.size = store.scopes.size
  functions_size : notes.functions.size = store.functions.size
  classes_size : notes.classes.size = store.classes.size
  functions : ∀ (ref : Nat) closure spot, store.functions[ref]? = some closure →
    notes.functions[ref]? = some spot → ClosureFits text notes.origins store closure spot
  classes : ∀ (ref : Nat) found note, store.classes[ref]? = some found →
    notes.classes[ref]? = some note → ClassFits text notes.origins store found note
  /-- Methods stand in the scope that was noted for the methods of their owner. -/
  methods : ∀ (ref : Nat) found name method note, store.classes[ref]? = some found →
    found.methods.find? name = some method → notes.classes[method.member.owner]? = some note →
    method.closure.scope = innermost note.methodTrail
  tables : TablesFit store
  known : AllKnown store
  globals : ∃ scope, store.scopes[Store.globalScope]? = some scope
  completed : ∀ ref name, (ref, name) ∈ notes.completed → (store.getHere? ref name).isSome

section Growth

variable {text : Site → Prop} {origins origins' : Array (Option Construct)} {store store' : Store}

theorem Known.grow (grows : Grows origins store origins' store') {value : Value}
    (known : Known store value) : Known store' value := by
  cases value with
  | classObject ref => exact Nat.lt_of_lt_of_le known grows.classes_size_le
  | function ref => exact Nat.lt_of_lt_of_le known grows.functions
  | _ => trivial

theorem ClosureFits.grow (grows : Grows origins store origins' store') {closure : Closure}
    {spot : Spot} (fits : ClosureFits text origins store closure spot) :
    ClosureFits text origins' store' closure spot :=
  ⟨fits.fits.grow grows, fits.scope, fits.owner.grow grows, fits.sites, fun initializer =>
    (fits.receiver initializer).imp fun _ bound => grows.getHere?_word not_plain_this bound⟩

theorem ClassFits.grow (grows : Grows origins store origins' store') {found : ClassObject}
    {note : ClassNote} (fits : ClassFits text origins store found note) :
    ClassFits text origins' store' found note :=
  ⟨fits.decl, fits.fits.grow grows, fits.scope,
    fits.methods.grow grows fun _ outer => outer.grow grows, fits.fieldSites, fits.methodSites,
    fits.declared⟩

theorem TablesFit.of_classes_eq (tables : TablesFit store) (same : store'.classes = store.classes) :
    TablesFit store' :=
  ⟨same ▸ tables.fields, same ▸ tables.methods⟩

end Growth

variable {notes : Notes} {store store' : Store} {text : Site → Prop}
  {origins : Array (Option Construct)} {name : String} {nesting : Nesting} {trail : List ScopeRef}
  {decl : ClassDecl Expr Stmt} {site : Site}

theorem Coherent.grow {notes' : Notes} (coherent : Coherent text notes store)
    (grows : Grows notes.origins store notes'.origins store')
    (functions : store'.functions = store.functions) (classes : store'.classes = store.classes)
    (functionNotes : notes'.functions = notes.functions)
    (classNotes : notes'.classes = notes.classes) (completed : notes'.completed = notes.completed)
    (sizes : notes'.origins.size = store'.scopes.size) (known : AllKnown store') :
    Coherent text notes' store' where
  origins_size := sizes
  functions_size := by rw [functions, functionNotes, coherent.functions_size]
  classes_size := by rw [classes, classNotes, coherent.classes_size]
  functions ref closure spot found noted :=
    (coherent.functions ref closure spot (functions ▸ found) (functionNotes ▸ noted)).grow grows
  classes ref found note known' noted :=
    (coherent.classes ref found note (classes ▸ known') (classNotes ▸ noted)).grow grows
  methods ref found name method note known' lookup noted :=
    coherent.methods ref found name method note (classes ▸ known') lookup (classNotes ▸ noted)
  tables := coherent.tables.of_classes_eq classes
  known := known
  globals := grows.scope_stays coherent.globals
  completed ref name noted :=
    grows.getHere?_isSome (coherent.completed ref name (completed ▸ noted))

theorem Coherent.mono {text' : Site → Prop} (coherent : Coherent text notes store)
    (larger : ∀ site, text site → text' site) : Coherent text' notes store :=
  { coherent with
    functions := fun ref closure spot found noted =>
      let fits := coherent.functions ref closure spot found noted
      { fits with sites := fun site member => larger site (fits.sites site member) }
    classes := fun ref found note known noted =>
      let fits := coherent.classes ref found note known noted
      { fits with
        fieldSites := fun site member => larger site (fits.fieldSites site member)
        methodSites := fun site member => larger site (fits.methodSites site member)
        declared := fits.declared.imp fun _ covered site member =>
          larger site (covered site member) } }

@[simp] theorem find?_emptyCollection {α : Type} (key : String) :
    (∅ : Dict α).find? key = none := rfl

theorem mem_of_find?_insertAll {α : Type} {dict : Dict α} {pairs : List (String × α)} {key : String}
    {value : α} (found : (dict.insertAll pairs).find? key = some value) :
    dict.find? key = some value ∨ ∃ other, (other, value) ∈ pairs := by
  induction pairs generalizing dict with
  | nil => exact .inl found
  | cons pair rest ih =>
    rcases ih found with before | ⟨other, member⟩
    · rw [Dict.find?_insert] at before
      split at before
      · exact .inr ⟨pair.1, by simp [← Option.some.inj before]⟩
      · exact .inl before
    · exact .inr ⟨other, List.mem_cons_of_mem _ member⟩

section Changes

variable {store : Store} {value : Value}

theorem holds_of_same {store' : Store} (holds : Holds store' value)
    (scopes : store'.scopes = store.scopes) (instances : store'.instances = store.instances)
    (arrays : store'.arrays = store.arrays) (maps : store'.maps = store.maps) :
    Holds store value := by
  cases holds with
  | scope bound => exact .scope (by simpa only [Store.getHere?, scopes] using bound)
  | field set => exact .field (by simpa only [Store.getField?, instances] using set)
  | item stored => exact .item (by simpa only [Store.items, arrays] using stored)
  | entry stored => exact .entry (by simpa only [Store.entries, maps] using stored)

theorem modify_modify {α : Type} (items : Array α) (slot : Nat) (first second : α → α) :
    (items.modify slot first).modify slot second =
      items.modify slot fun item => second (first item) := by
  refine Array.ext_getElem? fun other => ?_
  simp only [Array.getElem?_modify]
  split
  · exact Option.map_map second first _
  · rfl

theorem define_define (store : Store) (ref : ScopeRef) (name : String) (value other : Value) :
    (store.define ref name value).define ref name other = store.define ref name other := by
  have insert (bindings : Dict Value) :
      (bindings.insert name value).insert name other = bindings.insert name other := by
    refine Dict.ext_find? fun key => ?_
    simp only [Dict.find?_insert]
    split <;> rfl
  simp only [Store.define, modify_modify, insert]

theorem addFunction_define (store : Store) (closure : Closure) (ref : ScopeRef) (name : String)
    (value : Value) :
    ((store.define ref name value).addFunction closure).2 =
      (store.addFunction closure).2.define ref name value :=
  rfl

theorem getHere?_define (store : Store) (ref other : ScopeRef) (name key : String) (value : Value) :
    (store.define ref name value).getHere? other key =
      if ref = other ∧ key = name ∧ ref < store.scopes.size then some value
      else store.getHere? other key := by
  simp only [Store.getHere?, Store.define, Array.getElem?_modify]
  by_cases same : ref = other
  · subst same
    by_cases inside : ref < store.scopes.size
    · by_cases sameName : key = name <;> simp [inside, sameName, Dict.find?_insert]
    · simp [inside]
  · simp [same]

variable {name : String} {new : Value}

theorem holds_define {ref : ScopeRef} (holds : Holds (store.define ref name new) value) :
    Holds store value ∨ value = new := by
  cases holds with
  | scope bound =>
    rw [getHere?_define] at bound
    split at bound
    · exact .inr (by simpa using bound.symm)
    · exact .inl (.scope bound)
  | field set => exact .inl (.field set)
  | item stored => exact .inl (.item stored)
  | entry stored => exact .inl (.entry stored)

theorem getHere?_addScope (store : Store) (scope : Scope) (ref : ScopeRef) (name : String) :
    (store.addScope scope).2.getHere? ref name =
      if ref = store.scopes.size then scope.bindings.find? name else store.getHere? ref name := by
  simp only [Store.addScope, Store.getHere?, Array.getElem?_push]
  by_cases last : ref = store.scopes.size <;> simp [last]

theorem holds_addScope {scope : Scope} (holds : Holds (store.addScope scope).2 value) :
    Holds store value ∨ ∃ name, scope.bindings.find? name = some value := by
  cases holds with
  | @scope _ name _ bound =>
    rw [getHere?_addScope] at bound
    split at bound
    · exact .inr ⟨name, bound⟩
    · exact .inl (.scope bound)
  | field set => exact .inl (.field set)
  | item stored => exact .inl (.item stored)
  | entry stored => exact .inl (.entry stored)

theorem getField?_setField (store : Store) (ref other : InstanceRef) (name key : String)
    (value : Value) :
    (store.setField ref name value).getField? other key =
      if ref = other ∧ key = name ∧ ref < store.instances.size then some value
      else store.getField? other key := by
  simp only [Store.getField?, Store.setField, Array.getElem?_modify]
  by_cases same : ref = other
  · subst same
    by_cases inside : ref < store.instances.size
    · by_cases sameName : key = name <;> simp [inside, sameName, Dict.find?_insert]
    · simp [inside]
  · simp [same]

theorem holds_setField {ref : InstanceRef} (holds : Holds (store.setField ref name new) value) :
    Holds store value ∨ value = new := by
  cases holds with
  | scope bound => exact .inl (.scope bound)
  | field set =>
    rw [getField?_setField] at set
    split at set
    · exact .inr (by simpa using set.symm)
    · exact .inl (.field set)
  | item stored => exact .inl (.item stored)
  | entry stored => exact .inl (.entry stored)

theorem holds_addInstance {classRef : ClassRef}
    (holds : Holds (store.addInstance classRef).2 value) : Holds store value := by
  cases holds with
  | scope bound => exact .scope bound
  | @field ref name _ set =>
    simp only [Store.addInstance, Store.getField?, Array.getElem?_push] at set
    split at set
    · rename_i found known
      split at known
      · obtain rfl : { classRef, fields := ∅ } = found := by simpa using known
        simp at set
      · have old : store.getField? ref name = some value := by
          simpa [Store.getField?, known] using set
        exact .field old
    · simp at set
  | item stored => exact .item stored
  | entry stored => exact .entry stored

theorem holds_addArray {items : Array Value} (holds : Holds (store.addArray items).2 value) :
    Holds store value ∨ value ∈ items := by
  cases holds with
  | scope bound => exact .inl (.scope bound)
  | field set => exact .inl (.field set)
  | @item ref slot _ stored =>
    simp only [Store.addArray, Store.items, Array.getElem?_push] at stored
    split at stored
    · exact .inr (Array.mem_of_getElem? stored)
    · exact .inl (.item stored)
  | entry stored => exact .inl (.entry stored)

theorem holds_addMap {entries : Dict Value} (holds : Holds (store.addMap entries).2 value) :
    Holds store value ∨ ∃ key, entries.find? key = some value := by
  cases holds with
  | scope bound => exact .inl (.scope bound)
  | field set => exact .inl (.field set)
  | item stored => exact .inl (.item stored)
  | @entry ref key _ stored =>
    simp only [Store.addMap, Store.entries, Array.getElem?_push] at stored
    split at stored
    · exact .inr ⟨key, stored⟩
    · exact .inl (.entry stored)

private theorem holds_arrays {arrays : Array (Array Value)}
    (changed : ∀ (ref slot : Nat) value, (arrays[ref]?.getD #[])[slot]? = some value →
      (store.items ref)[slot]? = some value ∨ value = new)
    (holds : Holds { store with arrays } value) : Holds store value ∨ value = new := by
  cases holds with
  | scope bound => exact .inl (.scope bound)
  | field set => exact .inl (.field set)
  | @item ref slot _ stored =>
    rcases changed ref slot value stored with old | here
    · exact .inl (.item old)
    · exact .inr here
  | entry stored => exact .inl (.entry stored)

theorem holds_pushItem {ref : ArrayRef} (holds : Holds (store.pushItem ref new) value) :
    Holds store value ∨ value = new := by
  refine holds_arrays ?_ holds
  intro other slot value stored
  rw [Array.getElem?_modify] at stored
  unfold Store.items
  split at stored
  · cases known : store.arrays[other]? with
    | none => simp [known] at stored
    | some items =>
      simp only [known, Option.map_some, Option.getD_some,
        Array.getElem?_push] at stored ⊢
      split at stored
      · exact .inr (by simpa using stored.symm)
      · exact .inl stored
  · exact .inl stored

theorem holds_put {place : Place} (holds : Holds (put store place new) value) :
    Holds store value ∨ value = new := by
  cases place with
  | slot ref n =>
    refine holds_arrays ?_ holds
    intro other slot value stored
    rw [Array.getElem?_modify] at stored
    unfold Store.items
    split at stored
    · cases known : store.arrays[other]? with
      | none => simp [known] at stored
      | some items =>
        simp only [known, Option.map_some, Option.getD_some,
          Array.getElem?_setIfInBounds] at stored ⊢
        split at stored
        · split at stored
          · exact .inr (by simpa using stored.symm)
          · simp at stored
        · exact .inl stored
    · exact .inl stored
  | key ref key =>
    cases holds with
    | scope bound => exact .inl (.scope bound)
    | field set => exact .inl (.field set)
    | item stored => exact .inl (.item stored)
    | @entry other key' _ stored =>
      simp only [put, Store.setEntry, Store.entries, Array.getElem?_modify] at stored
      split at stored
      · cases known : store.maps[other]? with
        | none => simp [known] at stored
        | some entries =>
          simp only [known, Option.map_some, Option.getD_some,
            Dict.find?_insert] at stored
          split at stored
          · exact .inr (by simpa using stored.symm)
          · have old : (store.entries other).find? key' = some value := by
              simpa [Store.entries, known] using stored
            exact .inl (.entry old)
      · exact .inl (.entry stored)

end Changes

structure Kept (text : Site → Prop) (notes : Notes) (machine : Machine) (notes' : Notes)
    (machine' : Machine) : Prop where
  coherent : Coherent text notes' machine'.store
  grows : Grows notes.origins machine.store notes'.origins machine'.store
  frame : machine'.frame = machine.frame

structure Ready (text : Site → Prop) (notes : Notes) (machine : Machine) (spot : Spot) : Prop where
  coherent : Coherent text notes machine.store
  standing : Standing notes.origins machine spot

namespace Kept

variable {text : Site → Prop} {notes notes' notes'' : Notes} {machine machine' machine'' : Machine}

theorem refl (coherent : Coherent text notes machine.store) :
    Kept text notes machine notes machine :=
  ⟨coherent, .refl _ _, rfl⟩

theorem trans (kept : Kept text notes machine notes' machine')
    (kept' : Kept text notes' machine' notes'' machine'') :
    Kept text notes machine notes'' machine'' :=
  ⟨kept'.coherent, kept.grows.trans kept'.grows, kept'.frame.trans kept.frame⟩

theorem ready (kept : Kept text notes machine notes' machine') {spot : Spot}
    (ready : Ready text notes machine spot) : Ready text notes' machine' spot :=
  ⟨kept.coherent, ready.standing.grow kept.grows kept.frame⟩

theorem reframe (kept : Kept text notes machine notes' machine') (frame : Frame) :
    Kept text notes { machine with frame } notes' { machine' with frame } :=
  ⟨kept.coherent, kept.grows, rfl⟩

end Kept

theorem Grows.of_same (scopes : store'.scopes = store.scopes)
    (classes : store'.classes = store.classes)
    (functions : store.functions.size ≤ store'.functions.size) :
    Grows origins store origins store' :=
  ⟨fun _ _ known => known, fun _ scope known => ⟨scope, scopes ▸ known, .refl scope⟩,
    fun _ _ known => classes ▸ known, functions⟩

section Steps

variable {text : Site → Prop} {notes : Notes} {machine : Machine}

private theorem kept_of_same {machine' : Machine} (coherent : Coherent text notes machine.store)
    (scopes : machine'.store.scopes = machine.store.scopes)
    (functions : machine'.store.functions = machine.store.functions)
    (classes : machine'.store.classes = machine.store.classes)
    (frame : machine'.frame = machine.frame) (known : AllKnown machine'.store) :
    Kept text notes machine notes machine' := by
  have grows : Grows notes.origins machine.store notes.origins machine'.store :=
    .of_same scopes classes (Nat.le_of_eq (congrArg Array.size functions.symm))
  refine ⟨coherent.grow grows functions classes rfl rfl rfl ?_ known, grows, frame⟩
  rw [scopes, coherent.origins_size]

theorem kept_moments (coherent : Coherent text notes machine.store) (moments : List Moment) :
    Kept text notes machine { notes with moments } machine :=
  ⟨coherent.grow (.refl _ _) rfl rfl rfl rfl rfl coherent.origins_size coherent.known, .refl _ _,
    rfl⟩

theorem AllKnown.of_new {store store' : Store} {new : Value} (all : AllKnown store)
    (known : Known store new) (classes : store'.classes = store.classes)
    (functions : store'.functions = store.functions)
    (holds : ∀ value, Holds store' value → Holds store value ∨ value = new) : AllKnown store' := by
  intro value held
  have still : ∀ value, Known store value → Known store' value := by
    intro value known
    cases value with
    | classObject ref => simpa only [Known, classes] using known
    | function ref => simpa only [Known, functions] using known
    | _ => trivial
  rcases holds value held with old | rfl
  · exact still value (all value old)
  · exact still value known

variable {value : Value} {name : String} {scope : Scope}

section

variable (coherent : Coherent text notes machine.store)

include coherent

theorem kept_setField (known : Known machine.store value) (ref : InstanceRef) (name : String) :
    Kept text notes machine notes { machine with store := machine.store.setField ref name value } :=
  kept_of_same coherent rfl rfl rfl rfl
    (coherent.known.of_new known rfl rfl fun _ holds => holds_setField holds)

theorem kept_put (known : Known machine.store value) (place : Place) :
    Kept text notes machine notes { machine with store := put machine.store place value } := by
  refine kept_of_same coherent ?_ ?_ ?_ rfl
    (coherent.known.of_new known ?_ ?_ fun _ holds => holds_put holds) <;> cases place <;> rfl

theorem kept_pushItem (known : Known machine.store value) (ref : ArrayRef) :
    Kept text notes machine notes { machine with store := machine.store.pushItem ref value } :=
  kept_of_same coherent rfl rfl rfl rfl
    (coherent.known.of_new known rfl rfl fun _ holds => holds_pushItem holds)

theorem kept_addInstance (classRef : ClassRef) :
    Kept text notes machine notes
      { machine with store := (machine.store.addInstance classRef).2 } :=
  kept_of_same coherent rfl rfl rfl rfl fun value holds =>
    coherent.known value (holds_addInstance holds)

theorem kept_addArray {items : Array Value} (known : ∀ value ∈ items, Known machine.store value) :
    Kept text notes machine notes { machine with store := (machine.store.addArray items).2 } := by
  refine kept_of_same coherent rfl rfl rfl rfl ?_
  intro value holds
  rcases holds_addArray holds with old | new
  · exact coherent.known value old
  · exact known value new

theorem kept_addMap {entries : Dict Value}
    (known : ∀ key value, entries.find? key = some value → Known machine.store value) :
    Kept text notes machine notes { machine with store := (machine.store.addMap entries).2 } := by
  refine kept_of_same coherent rfl rfl rfl rfl ?_
  intro value holds
  rcases holds_addMap holds with old | ⟨key, new⟩
  · exact coherent.known value old
  · exact known key value new

end

theorem grows_define (origins : Array (Option Construct)) (store : Store) (ref : ScopeRef)
    (plain : PlainName name) (value : Value) :
    Grows origins store origins (store.define ref name value) := by
  refine ⟨fun _ _ known => known, ?_, fun _ _ known => known, Nat.le_refl _⟩
  intro other scope known
  simp only [Store.define, Array.getElem?_modify, known]
  split
  · refine ⟨_, rfl, rfl, ?_, ?_⟩
    · intro key bound
      rw [Dict.find?_insert]
      split
      · rfl
      · exact bound
    · intro key word
      have different : key ≠ name := fun same => word (same ▸ plain)
      exact Dict.find?_insert_of_ne different
  · exact ⟨scope, rfl, .refl scope⟩

theorem kept_define (coherent : Coherent text notes machine.store) (plain : PlainName name)
    (known : Known machine.store value) (ref : ScopeRef) :
    Kept text notes machine notes
      { machine with store := machine.store.define ref name value } := by
  have grows := grows_define notes.origins machine.store ref plain value
  refine ⟨coherent.grow grows rfl rfl rfl rfl rfl ?_ ?_, grows, rfl⟩
  · simpa [Store.define] using coherent.origins_size
  · exact coherent.known.of_new known rfl rfl fun _ holds => holds_define holds

theorem grows_addScope (origins : Array (Option Construct)) (origin : Option Construct)
    (store : Store) (scope : Scope) :
    Grows origins store (origins.push origin) (store.addScope scope).2 := by
  refine ⟨?_, ?_, fun _ _ known => known, Nat.le_refl _⟩
  · intro ref origin' known
    have inside := (Array.getElem?_eq_some_iff.mp known).1
    rw [Array.getElem?_push_lt inside, ← Array.getElem?_eq_getElem inside, known]
  · intro ref old known
    have inside := (Array.getElem?_eq_some_iff.mp known).1
    refine ⟨old, ?_, .refl old⟩
    simp only [Store.addScope]
    rw [Array.getElem?_push_lt inside, ← Array.getElem?_eq_getElem inside, known]

theorem kept_addScope (coherent : Coherent text notes machine.store) (origin : Option Construct)
    (known : ∀ name value, scope.bindings.find? name = some value → Known machine.store value) :
    Kept text notes machine (notes.addOrigin origin)
      { machine with store := (machine.store.addScope scope).2 } := by
  have grows := grows_addScope notes.origins origin machine.store scope
  refine ⟨coherent.grow grows rfl rfl rfl rfl rfl ?_ ?_, grows, rfl⟩
  · simp [Notes.addOrigin, Store.addScope, coherent.origins_size]
  · intro value holds
    rcases holds_addScope holds with old | ⟨name, new⟩
    · exact coherent.known value old
    · exact known name value new

theorem madeFor_addScope (coherent : Coherent text notes machine.store) (construct : Construct)
    {outer : List ScopeRef} (enclosing : scope.enclosing = some (innermost outer)) :
    MadeFor (notes.addOrigin (some construct)).origins (machine.store.addScope scope).2 construct
      machine.store.scopes.size outer := by
  refine ⟨?_, scope, ?_, enclosing⟩
  · simp [Notes.addOrigin, ← coherent.origins_size]
  · simp [Store.addScope]

theorem grows_addFunction (origins : Array (Option Construct)) (store : Store)
    (closure : Closure) : Grows origins store origins (store.addFunction closure).2 :=
  .of_same rfl rfl (by simp [Store.addFunction])

theorem kept_addFunction (coherent : Coherent text notes machine.store) {closure : Closure}
    {spot : Spot} (fits : ClosureFits text notes.origins machine.store closure spot) :
    Kept text notes machine (notes.addFunction spot)
      { machine with store := (machine.store.addFunction closure).2 } := by
  have grows := grows_addFunction notes.origins machine.store closure
  refine ⟨?_, grows, rfl⟩
  exact {
    origins_size := coherent.origins_size
    functions_size := by simp [Notes.addFunction, Store.addFunction, coherent.functions_size]
    classes_size := coherent.classes_size
    functions := by
      intro ref found noted
      simp only [Notes.addFunction, Store.addFunction, Array.getElem?_push,
        coherent.functions_size]
      split
      · rintro ⟨⟩ ⟨⟩
        exact fits.grow grows
      · exact fun known known' => (coherent.functions ref found noted known known').grow grows
    classes := fun ref found note known noted =>
      (coherent.classes ref found note known noted).grow grows
    methods := coherent.methods
    tables := coherent.tables.of_classes_eq rfl
    known := fun value holds =>
      (coherent.known value (holds_of_same holds rfl rfl rfl rfl)).grow grows
    globals := coherent.globals
    completed := coherent.completed }

end Steps

theorem Fits.complete (fits : Fits origins store nesting trail)
    (bound : ∀ ref rest, trail = ref :: rest → (store.getHere? ref name).isSome) :
    Fits origins store ((nesting.declare name).define name) trail := by
  cases nesting with
  | inside body names outer =>
    obtain ⟨ref, rest, split, made, complete, outerFits⟩ := fits
    refine ⟨ref, rest, split, made, ?_, outerFits⟩
    intro other flag
    by_cases same : other = name
    · exact same ▸ bound ref rest split
    · rw [Dict.find?_insert_of_ne same, Dict.find?_insert_of_ne same] at flag
      exact complete other flag
  | top => exact fits
  | fields decl outer => exact fits
  | methods decl outer => exact fits

theorem Fits.declare (fits : Fits origins store nesting trail) (name : String) :
    Fits origins store (nesting.declare name) trail := by
  cases nesting with
  | inside body names outer =>
    obtain ⟨ref, rest, split, made, complete, outerFits⟩ := fits
    refine ⟨ref, rest, split, made, ?_, outerFits⟩
    intro other flag
    by_cases same : other = name
    · simp [same] at flag
    · rw [Dict.find?_insert_of_ne same] at flag
      exact complete other flag
  | top => exact fits
  | fields decl outer => exact fits
  | methods decl outer => exact fits

@[simp] private theorem owner_declare (nesting : Nesting) (name : String) :
    (nesting.declare name).owner = nesting.owner := by
  cases nesting <;> rfl

@[simp] private theorem owner_define (nesting : Nesting) (name : String) :
    (nesting.define name).owner = nesting.owner := by
  cases nesting <;> rfl

theorem Standing.declare {machine : Machine} {spot : Spot}
    (standing : Standing origins machine spot) (name : String) :
    Standing origins machine (spot.declare name) :=
  ⟨standing.fits.declare name, standing.scope, by
    simpa [OwnerFits, Spot.declare] using standing.owner⟩

theorem Fits.defined (fits : Fits origins store nesting trail) (plain : PlainName name)
    (value : Value) :
    Fits origins (store.define (innermost trail) name value)
      ((nesting.declare name).define name) trail := by
  have kept := fits.grow (grows_define origins store (innermost trail) plain value)
  refine kept.complete ?_
  rintro ref rest rfl
  obtain ⟨⟨scope, stored, -⟩, -⟩ := fits.chained
  have inside := (Array.getElem?_eq_some_iff.mp stored).1
  rw [getHere?_define, if_pos ⟨rfl, rfl, inside⟩]
  rfl

section Tables

variable {owner : ClassRef} {name : String}

private theorem ownFields_find? {inherited : Dict Member} {fields : List (FieldDecl Expr)}
    {member : Member} (found : (Store.ownFields owner inherited fields).find? name = some member) :
    inherited.find? name = some member ∨
      member.owner = owner ∧ ∃ field ∈ fields, field.name.name = name ∧
        field.visibility = member.visibility := by
  induction fields generalizing inherited with
  | nil => exact .inl found
  | cons field rest ih =>
    rcases ih found with before | ⟨mine, other, isField, same⟩
    · rw [Dict.find?_insert] at before
      split at before
      · rename_i here
        obtain rfl : { visibility := field.visibility, owner } = member := by simpa using before
        exact .inr ⟨rfl, field, List.mem_cons_self, here.symm, rfl⟩
      · exact .inl before
    · exact .inr ⟨mine, other, List.mem_cons_of_mem _ isField, same⟩

private theorem ownMethods_find? {scope : ScopeRef} {inherited : Dict Method}
    {methods : List (MethodDecl Stmt)} {method : Method}
    (found : (Store.ownMethods owner scope inherited methods).find? name = some method) :
    inherited.find? name = some method ∨
      method.member.owner = owner ∧ method.closure.owner = some owner ∧
      method.closure.scope = scope ∧ ∃ decl ∈ methods, decl.function.name.name = name ∧
        decl.visibility = method.member.visibility ∧ decl.function = method.closure.decl := by
  induction methods generalizing inherited with
  | nil => exact .inl found
  | cons decl rest ih =>
    rcases ih found with before | ⟨mine, mine', there, other, isMethod, same⟩
    · rw [Dict.find?_insert] at before
      split at before
      · rename_i here
        simp only [Option.some.injEq] at before
        subst before
        exact .inr ⟨rfl, rfl, rfl, decl, List.mem_cons_self, here.symm, rfl, rfl⟩
      · exact .inl before
    · exact .inr ⟨mine, mine', there, other, List.mem_cons_of_mem _ isMethod, same⟩

variable {store : Store} (decl : ClassDecl Expr Stmt) (superclass : Option ClassRef)
  (scope methodScope : ScopeRef)

theorem grows_addClass (origins : Array (Option Construct)) (store : Store) :
    Grows origins store origins (store.addClass decl superclass scope methodScope).2 := by
  refine ⟨fun _ _ known => known, fun _ found known => ⟨found, known, .refl found⟩, ?_,
    Nat.le_refl _⟩
  intro ref found known
  have inside := (Array.getElem?_eq_some_iff.mp known).1
  simp only [Store.addClass]
  rw [Array.getElem?_push_lt inside, ← Array.getElem?_eq_getElem inside, known]

private theorem exists_of_inherited {α : Type} {superclass : Option ClassRef}
    {table : ClassObject → Dict α} {entry : α}
    (found : (((superclass.bind fun parent => store.classes[parent]?).map
      table).getD ∅).find? name = some entry) :
    ∃ (parentRef : Nat) (parent : ClassObject), store.classes[parentRef]? = some parent ∧
      (table parent).find? name = some entry := by
  cases above : superclass.bind fun parent => store.classes[parent]? with
  | none => simp [above] at found
  | some parent =>
    obtain ⟨parentRef, -, stored⟩ := Option.bind_eq_some_iff.mp above
    exact ⟨parentRef, parent, stored, by simpa [above] using found⟩

theorem TablesFit.addClass (tables : TablesFit store) :
    TablesFit (store.addClass decl superclass scope methodScope).2 := by
  have grows := grows_addClass decl superclass scope methodScope #[] store
  have added : (store.addClass decl superclass scope methodScope).2.classes[store.classes.size]?.map
      ClassObject.decl = some decl := by
    simp [Store.addClass]
  obtain ⟨new, isNew, sameDecl⟩ := Option.map_eq_some_iff.mp added
  refine ⟨?_, ?_⟩
  · intro ref found name member known lookup
    simp only [Store.addClass, Array.getElem?_push] at known
    split at known
    · obtain rfl := Option.some.inj known
      rcases ownFields_find? lookup with old | ⟨mine, declares⟩
      · obtain ⟨parentRef, parent, stored, inherited⟩ := exists_of_inherited old
        obtain ⟨owner, ownerStored, declares⟩ :=
          tables.fields parentRef parent name member stored inherited
        exact ⟨owner, grows.classes _ _ ownerStored, declares⟩
      · exact ⟨new, mine ▸ isNew, sameDecl ▸ declares⟩
    · obtain ⟨owner, ownerStored, declares⟩ := tables.fields ref found name member known lookup
      exact ⟨owner, grows.classes _ _ ownerStored, declares⟩
  · intro ref found name method known lookup
    simp only [Store.addClass, Array.getElem?_push] at known
    split at known
    · obtain rfl := Option.some.inj known
      rcases ownMethods_find? lookup with old | ⟨mine, mine', -, declares⟩
      · obtain ⟨parentRef, parent, stored, inherited⟩ := exists_of_inherited old
        obtain ⟨same, owner, ownerStored, declares⟩ :=
          tables.methods parentRef parent name method stored inherited
        exact ⟨same, owner, grows.classes _ _ ownerStored, declares⟩
      · exact ⟨mine ▸ mine', new, mine ▸ isNew, sameDecl ▸ declares⟩
    · obtain ⟨same, owner, ownerStored, declares⟩ :=
        tables.methods ref found name method known lookup
      exact ⟨same, owner, grows.classes _ _ ownerStored, declares⟩

end Tables

private theorem mem_of_mem_fieldsSites
    (member : site ∈ fieldsSites (.fields decl (nesting.past (.classDecl decl))) decl.fields) :
    site ∈ stmtSites nesting (.classDecl decl) := by
  exact List.mem_cons_of_mem _ (List.mem_append_left _ member)

private theorem mem_of_mem_methodsSites
    (member : site ∈ methodsSites (.methods decl (nesting.past (.classDecl decl))) decl.methods) :
    site ∈ stmtSites nesting (.classDecl decl) := by
  exact List.mem_cons_of_mem _ (List.mem_append_right _ member)

section Declared

variable {text : Site → Prop} {notes : Notes} {machine : Machine} {spot : Spot}

variable {name : String} {origins : Array (Option Construct)} {decl : ClassDecl Expr Stmt}

theorem Standing.defined (standing : Standing origins machine spot) (plain : PlainName name)
    (value : Value) {spot' : Spot} (trail : spot'.trail = spot.trail)
    (nesting : spot'.nesting = (spot.nesting.declare name).define name) :
    Standing origins
      { machine with store := machine.store.define machine.frame.scope name value } spot' := by
  obtain ⟨nesting', trail'⟩ := spot'
  obtain rfl : trail' = spot.trail := trail
  obtain rfl : nesting' = (spot.nesting.declare name).define name := nesting
  refine ⟨?_, standing.scope, ?_⟩
  · rw [standing.scope]
    exact standing.fits.defined plain value
  · have grows := grows_define origins machine.store machine.frame.scope plain value
    simpa [OwnerFits] using standing.owner.grow grows

theorem Ready.scope_exists (ready : Ready text notes machine spot) :
    ∃ scope, machine.store.scopes[machine.frame.scope]? = some scope := by
  rw [ready.standing.scope]
  have chained := ready.standing.fits.chained
  cases trail : spot.trail with
  | nil => exact ready.coherent.globals
  | cons ref rest =>
    rw [trail] at chained
    obtain ⟨⟨scope, stored, -⟩, -⟩ := chained
    exact ⟨scope, stored⟩

theorem kept_addCompleted (ready : Ready text notes machine spot) {value : Value}
    (plain : PlainName name) (known : Known machine.store value) :
    Kept text notes machine (notes.addCompleted machine.frame.scope name)
      { machine with store := machine.store.define machine.frame.scope name value } := by
  have kept := kept_define ready.coherent plain known machine.frame.scope
  refine ⟨{ kept.coherent with completed := ?_ }, kept.grows, rfl⟩
  intro ref other noted
  rcases List.mem_cons.mp noted with here | before
  · obtain ⟨rfl, rfl⟩ := Prod.mk.inj here
    obtain ⟨scope, stored⟩ := ready.scope_exists
    have inside := (Array.getElem?_eq_some_iff.mp stored).1
    rw [getHere?_define, if_pos ⟨rfl, rfl, inside⟩]
    rfl
  · exact kept.coherent.completed ref other before

theorem kept_addClass (ready : Ready text notes machine spot) (superclass : Option ClassRef)
    {methodTrail : List ScopeRef} (plain : PlainName decl.name.name)
    (sites : Covered text (stmtSites spot.nesting (.classDecl decl)))
    (above : SuperclassFits notes.origins machine.store decl (· = spot.trail) methodTrail) :
    Kept text notes machine
      (notes.addClass { decl, spot := spot.past (.classDecl decl), methodTrail })
      { machine with
        store := (machine.store.addClass decl superclass machine.frame.scope
          (innermost methodTrail)).2.define machine.frame.scope decl.name.name
            (.classObject machine.store.classes.size) } := by
  obtain ⟨coherent, standing⟩ := ready
  set added := (machine.store.addClass decl superclass machine.frame.scope
    (innermost methodTrail)).2 with isAdded
  set note : ClassNote := { decl, spot := spot.past (.classDecl decl), methodTrail } with isNote
  have adds : Grows notes.origins machine.store notes.origins added :=
    grows_addClass decl superclass machine.frame.scope (innermost methodTrail) _ _
  have defines := grows_define notes.origins added machine.frame.scope plain
    (.classObject machine.store.classes.size)
  have grows := adds.trans defines
  -- the class may use its own name, so it fits only once the name is defined
  have fits : Fits notes.origins (added.define machine.frame.scope decl.name.name
      (.classObject machine.store.classes.size)) (spot.nesting.past (.classDecl decl))
      spot.trail := by
    rw [standing.scope]
    exact (standing.fits.grow adds).defined plain _
  have oldOwner {ref : Nat} {found : ClassObject} {name : String} {method : Method}
      (known : machine.store.classes[ref]? = some found)
      (lookup : found.methods.find? name = some method) :
      method.member.owner < machine.store.classes.size := by
    obtain ⟨-, owner, stored, -⟩ := coherent.tables.methods ref found name method known lookup
    exact (Array.getElem?_eq_some_iff.mp stored).1
  refine ⟨?_, grows, rfl⟩
  exact {
    origins_size := by
      simpa [Notes.addClass, Store.define, isAdded, Store.addClass] using coherent.origins_size
    functions_size := coherent.functions_size
    classes_size := by
      simp [Notes.addClass, Store.define, isAdded, Store.addClass, coherent.classes_size]
    functions := fun ref closure home found noted =>
      (coherent.functions ref closure home found noted).grow grows
    classes := by
      intro ref found noted
      simp only [Notes.addClass, Store.define, isAdded, Store.addClass, Array.getElem?_push,
        coherent.classes_size]
      split
      · rintro ⟨⟩ ⟨⟩
        exact ⟨rfl, fits, standing.scope, above.grow grows fun trail same => same ▸ fits,
          fun site member => sites site (mem_of_mem_fieldsSites member),
          fun site member => sites site (mem_of_mem_methodsSites member), ⟨spot.nesting, sites⟩⟩
      · exact fun known known' => (coherent.classes ref found noted known known').grow grows
    methods := by
      intro ref found name method noted
      simp only [Notes.addClass, Store.define, isAdded, Store.addClass, Array.getElem?_push,
        coherent.classes_size]
      split
      · rintro ⟨⟩ lookup
        rcases ownMethods_find? lookup with old | ⟨mine, -, there, -⟩
        · obtain ⟨parentRef, parent, stored, inherited⟩ := exists_of_inherited old
          rw [if_neg (Nat.ne_of_lt (oldOwner stored inherited))]
          exact coherent.methods parentRef parent name method noted stored inherited
        · rw [if_pos mine]
          rintro ⟨⟩
          exact there
      · intro known lookup
        rw [if_neg (Nat.ne_of_lt (oldOwner known lookup))]
        exact coherent.methods ref found name method noted known lookup
    tables := (coherent.tables.addClass decl superclass machine.frame.scope
      (innermost methodTrail)).of_classes_eq rfl
    known := by
      have addedKnown : AllKnown added := fun value holds =>
        (coherent.known value (holds_of_same holds rfl rfl rfl rfl)).grow adds
      refine addedKnown.of_new ?_ rfl rfl fun value holds => holds_define holds
      simp [Known, isAdded, Store.addClass]
    globals := grows.scope_stays coherent.globals
    completed := fun ref name noted =>
      grows.getHere?_isSome (coherent.completed ref name noted) }

theorem Standing.addClass (standing : Standing origins machine spot)
    (superclass : Option ClassRef) (methodScope : ScopeRef) (plain : PlainName decl.name.name) :
    Standing origins
      { machine with
        store := (machine.store.addClass decl superclass machine.frame.scope
          methodScope).2.define machine.frame.scope decl.name.name
            (.classObject machine.store.classes.size) } (spot.past (.classDecl decl)) := by
  have adds := grows_addClass decl superclass machine.frame.scope methodScope origins machine.store
  have added : Standing origins { machine with
      store := (machine.store.addClass decl superclass machine.frame.scope methodScope).2 } spot :=
    standing.grow adds rfl
  exact added.defined plain _ rfl rfl

end Declared

end ClassScript.Run
