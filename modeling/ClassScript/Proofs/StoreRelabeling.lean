import ClassScript.Proofs.Renumber

/-!
Values and stores under other numbers. Whatever is looked up in stores that are alike is alike, and
whatever is put into both leaves them so.
-/

set_option autoImplicit false

namespace ClassScript

namespace Dict

variable {α β : Type}

def map (f : α → β) (dict : Dict α) : Dict β where
  entries := dict.entries.map fun entry => (entry.1, f entry.2)
  sorted := List.pairwise_map.mpr dict.sorted

theorem find?_map (f : α → β) (dict : Dict α) (key : String) :
    (dict.map f).find? key = (dict.find? key).map f := by
  obtain ⟨entries, sorted⟩ := dict
  simp only [find?, map]
  clear sorted
  induction entries with
  | nil => rfl
  | cons entry rest ih =>
    simp only [List.map_cons, lookup]
    split
    · rfl
    · exact ih

theorem map_insert (f : α → β) (dict : Dict α) (key : String) (value : α) :
    (dict.insert key value).map f = (dict.map f).insert key (f value) := by
  refine ext_find? fun other => ?_
  rw [find?_map, find?_insert, find?_insert, find?_map]
  split <;> rfl

theorem map_insertAll (f : α → β) (dict : Dict α) (entries : List (String × α)) :
    (dict.insertAll entries).map f =
      (dict.map f).insertAll (entries.map fun entry => (entry.1, f entry.2)) := by
  induction entries generalizing dict with
  | nil => rfl
  | cons entry rest ih =>
    refine (ih _).trans ?_
    rw [map_insert]
    rfl

theorem map_eq_self {f : α → α} (dict : Dict α)
    (same : ∀ key value, dict.find? key = some value → f value = value) : dict.map f = dict := by
  refine ext_find? fun key => ?_
  rw [find?_map]
  cases found : dict.find? key with
  | none => rfl
  | some value => rw [Option.map_some, same key value found]

theorem map_id (dict : Dict α) : dict.map id = dict :=
  dict.map_eq_self fun _ _ _ => rfl

end Dict

structure Relabeling where
  ids : RefId → RefId
  functions : FunctionRef → FunctionRef
  apart : Function.Injective functions
  boundary : Nat
  /-- From the boundary on functions keep their numbers. -/
  fixed : ∀ ref, boundary ≤ ref → functions ref = ref

namespace Relabeling

def ofIds (ids : RefId → RefId) : Relabeling where
  ids
  functions := id
  apart := Function.injective_id
  boundary := 0
  fixed _ _ := rfl

def same : Relabeling := ofIds id

variable (labels : Relabeling)

def value : Value → Value
  | .function ref => .function (labels.functions ref)
  | other => other

def scope (found : Scope) : Scope :=
  { found with bindings := found.bindings.map labels.value }

def object (found : Instance) : Instance :=
  { found with fields := found.fields.map labels.value }

def closure (found : Closure) : Closure :=
  { found with decl := renumberFunction labels.ids found.decl }

def method (found : Method) : Method :=
  { found with closure := labels.closure found.closure }

def classObject (found : ClassObject) : ClassObject :=
  { found with
    decl := renumberClass labels.ids found.decl
    methods := found.methods.map labels.method }

theorem value_ofIds (ids : RefId → RefId) : (ofIds ids).value = id := by
  funext value
  cases value <;> rfl

theorem scope_ofIds (ids : RefId → RefId) : (ofIds ids).scope = id := by
  funext found
  simp only [scope, value_ofIds, Dict.map_id, id]

theorem object_ofIds (ids : RefId → RefId) : (ofIds ids).object = id := by
  funext found
  simp only [object, value_ofIds, Dict.map_id, id]

theorem closure_same : same.closure = id := by
  funext found
  simp only [closure, same, ofIds, renumber_id_function, id]

theorem classObject_same : same.classObject = id := by
  funext found
  have methods : same.method = id := by
    funext found
    simp only [method, closure_same, id]
  simp only [classObject, methods, Dict.map_id, id]
  exact congrArg (fun decl => { found with decl }) (renumberClass_id found.decl)

@[simp] theorem kind_value (found : Value) : (labels.value found).kind = found.kind := by
  cases found <;> rfl

theorem truth_value (found : Value) : Run.truth (labels.value found) = Run.truth found := by
  cases found <;> rfl

theorem mapKey_value (found : Value) : Run.mapKey (labels.value found) = Run.mapKey found := by
  cases found <;> rfl

theorem slot_value (index : Value) (length : Nat) :
    Run.slot (labels.value index) length = Run.slot index length := by
  cases index <;> rfl

theorem ofLiteral_value (literal : Literal) :
    labels.value (.ofLiteral literal) = .ofLiteral literal := by
  cases literal <;> rfl

theorem equals_value (left right : Value) :
    (labels.value left).equals (labels.value right) = left.equals right := by
  cases left <;> cases right <;> try rfl
  case function.function first second =>
    exact decide_eq_decide.mpr labels.apart.eq_iff

theorem applyUnary_value (operator : UnaryOp) (operand : Value) :
    Run.applyUnary operator (labels.value operand) =
      (Run.applyUnary operator operand).map labels.value := by
  cases operator <;> cases operand <;> rfl

theorem applyNumbers_value (operator : BinaryOp) (a b : Float) :
    (Run.applyNumbers operator a b).map labels.value = Run.applyNumbers operator a b := by
  cases operator <;> simp only [Run.applyNumbers] <;> (try split) <;> rfl

theorem applyBinary_value (operator : BinaryOp) (left right : Value) :
    Run.applyBinary operator (labels.value left) (labels.value right) =
      (Run.applyBinary operator left right).map labels.value := by
  have same := labels.equals_value left right
  have numbers := labels.applyNumbers_value operator
  cases operator
  case equal => exact congrArg (fun holds => Except.ok (Value.boolean holds)) same
  case notEqual => exact congrArg (fun holds => Except.ok (Value.boolean !holds)) same
  all_goals
    cases left <;> cases right <;> first | exact (numbers _ _).symm | rfl

theorem bindParameters_value (parameters : List Parameter) (arguments : List Value) :
    Run.bindParameters parameters (arguments.map labels.value) =
      (Run.bindParameters parameters arguments).map labels.value := by
  unfold Run.bindParameters Dict.ofList
  rw [Dict.map_insertAll, List.zip_map_right]
  rfl

theorem arity_classObject (found : ClassObject) :
    (labels.classObject found).arity = found.arity := by
  simp only [ClassObject.arity, classObject, Dict.find?_map]
  cases found.methods.find? constructorName with
  | none => rfl
  | some method => exact renumberFunction_arity _ _

theorem ownFields_renumber (owner : ClassRef) (inherited : Dict Member)
    (fields : List (FieldDecl Expr)) :
    Store.ownFields owner inherited (renumberFields labels.ids fields) =
      Store.ownFields owner inherited fields := by
  simp only [Store.ownFields, renumberFields_eq_map, List.foldl_map]

theorem ownMethods_renumber (owner : ClassRef) (scope : ScopeRef) (inherited : Dict Method)
    (methods : List (MethodDecl Stmt)) :
    Store.ownMethods owner scope (inherited.map labels.method)
        (renumberMethods labels.ids methods) =
      (Store.ownMethods owner scope inherited methods).map labels.method := by
  induction methods generalizing inherited with
  | nil => rw [renumberMethods]; rfl
  | cons method rest ih =>
    rw [renumberMethods]
    refine Eq.trans ?_ (ih _)
    rw [Dict.map_insert]
    simp only [Store.ownMethods, List.foldl_cons, renumberFunction_name]
    rfl

end Relabeling

/-- A store with the same things under other numbers. -/
structure StoreAlike (labels : Relabeling) (first second : Store) : Prop where
  scopes : second.scopes = first.scopes.map labels.scope
  functions_size : second.functions.size = first.functions.size
  functions : ∀ ref : Nat,
    second.functions[labels.functions ref]? = first.functions[ref]?.map labels.closure
  /-- Functions that are made now keep their numbers. -/
  settled : labels.boundary ≤ first.functions.size
  classes : second.classes = first.classes.map labels.classObject
  instances : second.instances = first.instances.map labels.object
  arrays : second.arrays = first.arrays.map (Array.map labels.value)
  maps : second.maps = first.maps.map (Dict.map labels.value)

private theorem Array.map_modify_of_comm {α β : Type} (xs : Array α) (ref : Nat) {f : α → β}
    {g : α → α} {g' : β → β} (commutes : ∀ x, f (g x) = g' (f x)) :
    (xs.map f).modify ref g' = (xs.modify ref g).map f := by
  refine Array.ext_getElem? fun i => ?_
  simp only [Array.getElem?_modify, Array.getElem?_map]
  split
  · cases xs[i]? with
    | none => rfl
    | some x => simp [commutes]
  · rfl

namespace StoreAlike

variable {labels : Relabeling} {first second : Store}

theorem of_ids {ids : RefId → RefId}
    (functions : second.functions = first.functions.map (Relabeling.ofIds ids).closure)
    (classes : second.classes = first.classes.map (Relabeling.ofIds ids).classObject)
    (rest : second = { first with functions := second.functions, classes := second.classes }) :
    StoreAlike (.ofIds ids) first second := by
  have entries : Dict.map (Relabeling.ofIds ids).value = id := by
    rw [Relabeling.value_ofIds]
    exact funext Dict.map_id
  rw [rest]
  refine ⟨?_, ?_, fun ref => ?_, Nat.zero_le _, classes, ?_, ?_, ?_⟩
  · rw [Relabeling.scope_ofIds, Array.map_id]
  · rw [functions, Array.size_map]
  · rw [functions, Array.getElem?_map]
    rfl
  · rw [Relabeling.object_ofIds, Array.map_id]
  · simp [Relabeling.value_ofIds]
  · rw [entries, Array.map_id]

theorem refl (store : Store) : StoreAlike .same store store := by
  have functions : store.functions.map Relabeling.same.closure = store.functions := by
    rw [Relabeling.closure_same, Array.map_id]
  have classes : store.classes.map Relabeling.same.classObject = store.classes := by
    rw [Relabeling.classObject_same, Array.map_id]
  exact of_ids functions.symm classes.symm rfl

theorem unique {ids : RefId → RefId} {third : Store} (alike : StoreAlike (.ofIds ids) first second)
    (alike' : StoreAlike (.ofIds ids) first third) : third = second := by
  have functions : third.functions = second.functions :=
    Array.ext_getElem? fun ref => (alike'.functions ref).trans (alike.functions ref).symm
  obtain ⟨scopes, _, classes, instances, arrays, maps⟩ := second
  obtain ⟨scopes', _, classes', instances', arrays', maps'⟩ := third
  obtain rfl : scopes' = scopes := alike'.scopes.trans alike.scopes.symm
  obtain rfl : classes' = classes := alike'.classes.trans alike.classes.symm
  obtain rfl : instances' = instances := alike'.instances.trans alike.instances.symm
  obtain rfl : arrays' = arrays := alike'.arrays.trans alike.arrays.symm
  obtain rfl : maps' = maps := alike'.maps.trans alike.maps.symm
  obtain rfl := functions
  rfl

section

variable (alike : StoreAlike labels first second)

include alike

theorem ancestor? (ref : ScopeRef) (depth : Nat) :
    second.ancestor? ref depth = first.ancestor? ref depth := by
  induction depth generalizing ref with
  | zero => rfl
  | succ depth ih =>
    simp only [Store.ancestor?, alike.scopes, Array.getElem?_map]
    rcases first.scopes[ref]? with _ | ⟨bindings, _ | outer⟩
    · rfl
    · rfl
    · exact ih outer

theorem getHere? (ref : ScopeRef) (name : String) :
    second.getHere? ref name = (first.getHere? ref name).map labels.value := by
  simp only [Store.getHere?, alike.scopes, Array.getElem?_map]
  cases first.scopes[ref]? with
  | none => rfl
  | some scope => exact Dict.find?_map _ _ _

theorem getAt? (ref : ScopeRef) (depth : Nat) (name : String) :
    second.getAt? ref depth name = (first.getAt? ref depth name).map labels.value := by
  simp only [Store.getAt?, alike.ancestor?]
  cases first.ancestor? ref depth with
  | none => rfl
  | some target => exact alike.getHere? target name

theorem holder? (ref : ScopeRef) (depth : Nat)
    (name : String) : second.holder? ref depth name = first.holder? ref depth name := by
  simp only [Store.holder?, alike.ancestor?, alike.getHere?, Option.isSome_map]

theorem classOf? (ref : InstanceRef) :
    second.classOf? ref = (first.classOf? ref).map labels.classObject := by
  simp only [Store.classOf?, alike.instances, Array.getElem?_map]
  cases first.instances[ref]? with
  | none => rfl
  | some found => simp only [Option.map_some, alike.classes, Array.getElem?_map]; rfl

theorem getField? (ref : InstanceRef) (name : String) :
    second.getField? ref name = (first.getField? ref name).map labels.value := by
  simp only [Store.getField?, alike.instances, Array.getElem?_map]
  cases first.instances[ref]? with
  | none => rfl
  | some found => exact Dict.find?_map _ _ _

theorem items (ref : ArrayRef) : second.items ref = (first.items ref).map labels.value := by
  simp only [Store.items, alike.arrays, Array.getElem?_map]
  cases first.arrays[ref]? <;> simp

theorem entries (ref : MapRef) : second.entries ref = (first.entries ref).map labels.value := by
  simp only [Store.entries, alike.maps, Array.getElem?_map]
  cases first.maps[ref]? <;> rfl

theorem chainFrom (bound : Nat) (ref : ClassRef) :
    second.chainFrom bound ref = first.chainFrom bound ref := by
  induction bound generalizing ref with
  | zero => rfl
  | succ bound ih =>
    simp only [Store.chainFrom, alike.classes, Array.getElem?_map]
    rcases first.classes[ref]? with _ | ⟨decl, _ | parent, scope, fields, methods⟩
    · rfl
    · rfl
    · exact congrArg (ref :: ·) (ih parent)

theorem lineage (ref : ClassRef) : second.lineage ref = first.lineage ref := by
  rw [Store.lineage, Store.lineage, alike.chainFrom, alike.classes, Array.size_map]

theorem mayUse (current : Option ClassRef)
    (member : Member) : Run.mayUse second current member = Run.mayUse first current member := by
  have heirs (ref other : ClassRef) : second.isSubclass ref other = first.isSubclass ref other := by
    rw [Store.isSubclass, Store.isSubclass, alike.chainFrom, alike.classes, Array.size_map]
  unfold Run.mayUse
  split <;> first | rfl | exact heirs _ _

theorem superPair (scope : ScopeRef) (depth : Nat) :
    Run.superPair second scope depth =
      (Run.superPair first scope depth).map (Prod.map labels.classObject id) := by
  simp only [Run.superPair, alike.getAt?, alike.classes, Array.getElem?_map]
  cases depth with
  | zero => rcases first.getAt? scope 0 Store.superName with _ | (_ | _) <;> rfl
  | succ nearer =>
    rcases first.getAt? scope (nearer + 1) Store.superName with _ | (_ | _ | _ | _ | _ | _ | _ | _ |
      parent | _) <;> try rfl
    simp only [Option.map_some, Relabeling.value]
    rcases first.getAt? scope nearer Store.thisName with _ | (_ | _) <;>
      cases first.classes[parent]? <;> rfl

theorem readIndex (object index : Value) :
    Run.readIndex second (labels.value object) (labels.value index) =
      (Run.readIndex first object index).map labels.value := by
  cases object <;> try rfl
  case array ref =>
    show Run.readIndex second (.array ref) _ = _
    simp only [Run.readIndex, alike.items, Array.size_map, labels.slot_value, Array.getElem?_map]
    cases Run.slot index (first.items ref).size with
    | error fault => rfl
    | ok n =>
      simp only [bind, Except.bind]
      cases (first.items ref)[n]? <;> rfl
  case map ref =>
    show Run.readIndex second (.map ref) _ = _
    simp only [Run.readIndex, alike.entries, labels.mapKey_value, Dict.find?_map]
    cases Run.mapKey index with
    | error fault => rfl
    | ok key =>
      simp only [bind, Except.bind]
      cases (first.entries ref).find? key <;> rfl
  case text text =>
    show Run.readIndex second (.text text) _ = _
    simp only [Run.readIndex, labels.slot_value]
    cases Run.slot index text.toList.length <;> rfl

theorem findPlace (object index : Value) :
    Run.findPlace second (labels.value object) (labels.value index) =
      Run.findPlace first object index := by
  cases object <;> try rfl
  case array ref =>
    show Run.findPlace second (.array ref) _ = _
    simp only [Run.findPlace, alike.items, Array.size_map, labels.slot_value]
  case map ref =>
    show Run.findPlace second (.map ref) _ = _
    simp only [Run.findPlace, labels.mapKey_value]

theorem shownScalar (inside : Bool) (value : Value) :
    second.shownScalar inside (labels.value value) = first.shownScalar inside value := by
  cases value with
  | function ref =>
    simp only [Relabeling.value, Store.shownScalar, alike.functions]
    cases first.functions[ref]? with
    | none => rfl
    | some closure => simp [Relabeling.closure]
  | classObject ref =>
    simp only [Relabeling.value, Store.shownScalar, alike.classes, Array.getElem?_map]
    cases first.classes[ref]? <;> rfl
  | object ref =>
    simp only [Relabeling.value, Store.shownScalar, alike.classOf?]
    cases first.classOf? ref <;> rfl
  | _ => rfl

theorem shownWithin (bound : Nat) (path : List Store.Container) (inside : Bool) (value : Value) :
    second.shownWithin bound path inside (labels.value value) =
      first.shownWithin bound path inside value := by
  induction bound generalizing path inside value with
  | zero => exact alike.shownScalar inside value
  | succ bound ih =>
    have scalar := alike.shownScalar inside value
    cases value with
    | array ref =>
      show second.shownWithin (bound + 1) path inside (.array ref) = _
      simp only [Store.shownWithin, alike.items, Array.toList_map, List.map_map, Function.comp_def,
        ih]
    | map ref =>
      show second.shownWithin (bound + 1) path inside (.map ref) = _
      simp only [Store.shownWithin, alike.entries, Dict.map, List.map_map, Function.comp_def, ih]
    | _ => exact scalar

theorem shown (value : Value) : second.shown (labels.value value) = first.shown value := by
  have count : second.containerCount = first.containerCount := by
    rw [Store.containerCount, Store.containerCount, alike.arrays, alike.maps, Array.size_map,
      Array.size_map]
  rw [Store.shown, Store.shown, alike.shownWithin, count]

end

section

variable (alike : StoreAlike labels first second)

include alike

theorem addScope (scope : Scope) :
    (second.addScope (labels.scope scope)).1 = (first.addScope scope).1 ∧
      StoreAlike labels (first.addScope scope).2 (second.addScope (labels.scope scope)).2 := by
  refine ⟨?_, { alike with scopes := ?_ }⟩
  · simp only [Store.addScope, alike.scopes, Array.size_map]
  · simp only [Store.addScope, alike.scopes, Array.map_push]

theorem define (ref : ScopeRef) (name : String) (value : Value) :
    StoreAlike labels (first.define ref name value)
      (second.define ref name (labels.value value)) := by
  refine { alike with scopes := ?_ }
  simp only [Store.define, alike.scopes]
  refine Array.map_modify_of_comm _ _ fun scope => ?_
  simp only [Relabeling.scope, Dict.map_insert]

theorem addFunction (closure : Closure) :
    (second.addFunction (labels.closure closure)).1 =
        labels.functions (first.addFunction closure).1 ∧
      StoreAlike labels (first.addFunction closure).2
        (second.addFunction (labels.closure closure)).2 := by
  have own : labels.functions first.functions.size = first.functions.size :=
    labels.fixed _ alike.settled
  refine ⟨alike.functions_size.trans own.symm,
    { alike with functions_size := ?_, functions := fun ref => ?_, settled := ?_ }⟩
  · simp only [Store.addFunction, Array.size_push, alike.functions_size]
  · simp only [Store.addFunction, Array.getElem?_push, alike.functions_size, alike.functions]
    by_cases new : ref = first.functions.size
    · rw [if_pos new, if_pos (new ▸ own), Option.map_some]
    · rw [if_neg new, if_neg fun same => new (labels.apart (same.trans own.symm))]
  · simp only [Store.addFunction, Array.size_push]
    exact Nat.le_succ_of_le alike.settled

theorem addClass (decl : ClassDecl Expr Stmt)
    (superclass : Option ClassRef) (scope methodScope : ScopeRef) :
    (second.addClass (renumberClass labels.ids decl) superclass scope methodScope).1 =
        (first.addClass decl superclass scope methodScope).1 ∧
      StoreAlike labels (first.addClass decl superclass scope methodScope).2
        (second.addClass (renumberClass labels.ids decl) superclass scope methodScope).2 := by
  have parents : (superclass.bind fun parent => second.classes[parent]?) =
      (superclass.bind fun parent => first.classes[parent]?).map labels.classObject := by
    cases superclass with
    | none => rfl
    | some parent => simp only [Option.bind_some, alike.classes, Array.getElem?_map]
  have size : second.classes.size = first.classes.size := by rw [alike.classes, Array.size_map]
  refine ⟨size, { alike with classes := ?_ }⟩
  have fields : ((superclass.bind fun parent => second.classes[parent]?).map
      ClassObject.fields).getD ∅ =
      ((superclass.bind fun parent => first.classes[parent]?).map ClassObject.fields).getD ∅ := by
    rw [parents]
    cases superclass.bind fun parent => first.classes[parent]? <;> rfl
  have methods : ((superclass.bind fun parent => second.classes[parent]?).map
      ClassObject.methods).getD ∅ =
      (((superclass.bind fun parent => first.classes[parent]?).map
        ClassObject.methods).getD ∅).map labels.method := by
    rw [parents]
    cases superclass.bind fun parent => first.classes[parent]? <;> rfl
  simp only [Store.addClass, size, fields, methods, renumberClass, labels.ownFields_renumber,
    labels.ownMethods_renumber]
  rw [alike.classes, Array.map_push]
  rfl

theorem addInstance (ref : ClassRef) :
    (second.addInstance ref).1 = (first.addInstance ref).1 ∧
      StoreAlike labels (first.addInstance ref).2 (second.addInstance ref).2 := by
  refine ⟨?_, { alike with instances := ?_ }⟩
  · simp only [Store.addInstance, alike.instances, Array.size_map]
  · simp only [Store.addInstance, alike.instances, Array.map_push]
    rfl

theorem setField (ref : InstanceRef) (name : String) (value : Value) :
    StoreAlike labels (first.setField ref name value)
      (second.setField ref name (labels.value value)) := by
  refine { alike with instances := ?_ }
  simp only [Store.setField, alike.instances]
  refine Array.map_modify_of_comm _ _ fun found => ?_
  simp only [Relabeling.object, Dict.map_insert]

theorem addArray (items : Array Value) :
    (second.addArray (items.map labels.value)).1 = (first.addArray items).1 ∧
      StoreAlike labels (first.addArray items).2
        (second.addArray (items.map labels.value)).2 := by
  refine ⟨?_, { alike with arrays := ?_ }⟩
  · simp only [Store.addArray, alike.arrays, Array.size_map]
  · simp only [Store.addArray, alike.arrays, Array.map_push]

theorem pushItem (ref : ArrayRef) (value : Value) :
    StoreAlike labels (first.pushItem ref value) (second.pushItem ref (labels.value value)) := by
  refine { alike with arrays := ?_ }
  simp only [Store.pushItem, alike.arrays]
  exact Array.map_modify_of_comm _ _ fun _ => Array.map_push

theorem addMap (entries : Dict Value) :
    (second.addMap (entries.map labels.value)).1 = (first.addMap entries).1 ∧
      StoreAlike labels (first.addMap entries).2 (second.addMap (entries.map labels.value)).2 := by
  refine ⟨?_, { alike with maps := ?_ }⟩
  · simp only [Store.addMap, alike.maps, Array.size_map]
  · simp only [Store.addMap, alike.maps, Array.map_push]

theorem put (place : Run.Place) (value : Value) :
    StoreAlike labels (Run.put first place value) (Run.put second place (labels.value value)) := by
  cases place with
  | slot ref n =>
    refine { alike with arrays := ?_ }
    simp only [Run.put, Store.setItem, alike.arrays]
    refine Array.map_modify_of_comm _ _ fun items => ?_
    simp
  | key ref key =>
    refine { alike with maps := ?_ }
    simp only [Run.put, Store.setEntry, alike.maps]
    exact Array.map_modify_of_comm _ _ fun _ => Dict.map_insert _ _ _ _

end

end StoreAlike

end ClassScript
