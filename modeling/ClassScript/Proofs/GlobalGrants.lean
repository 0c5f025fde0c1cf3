import ClassScript.Proofs.Ledger
import Mathlib.Data.List.Basic

/-!
What a walk through a text knows of globals.
-/

set_option autoImplicit false

namespace ClassScript

/-- The place lies outside of the bodies of all functions and methods. -/
def Nesting.Outside : Nesting → Prop
  | top => True
  | inside (.function _) _ _ | methods _ _ => False
  | inside (.block _) _ outer | inside (.countedLoop _ _ _ _) _ outer => outer.Outside
  | fields _ outer => outer.Outside

/-- The variable that an expression or a statement itself refers to. -/
def Node.mention? : Node → Option (RefId × String)
  | .expr (.reference id name) => some (id, name.name)
  | .expr (.assign id name _) => some (id, name.name)
  | .stmt (.classDecl decl) => decl.superclass.map fun parent => (parent.id, parent.name.name)
  | _ => none

/-- Outside of functions, a variable without a depth is one of the names. -/
def Site.Granted (names : String → Prop) (depths : Binding.Depths) (site : Site) : Prop :=
  site.nesting.Outside → ∀ id name, site.node.mention? = some (id, name) →
    depths.find? id = none → names name

theorem Site.Granted.mono {names more : String → Prop} {depths later : Binding.Depths}
    {site : Site} (granted : site.Granted names depths) (larger : ∀ name, names name → more name)
    (noted : ∀ id, later.find? id = none → depths.find? id = none) : site.Granted more later :=
  fun outside id name refers unnoted =>
    larger name (granted outside id name refers (noted id unnoted))

variable {name : String} {nesting : Nesting}

theorem Nesting.outside_declare : (nesting.declare name).Outside ↔ nesting.Outside := by
  cases nesting with
  | inside body names outer => cases body <;> rfl
  | _ => rfl

private theorem Nesting.outside_define : (nesting.define name).Outside ↔ nesting.Outside := by
  cases nesting with
  | inside body names outer => cases body <;> rfl
  | _ => rfl

theorem Nesting.outside_past {stmt : Stmt} : (nesting.past stmt).Outside ↔ nesting.Outside := by
  cases stmt <;> simp [past, outside_declare, outside_define]

namespace Binding

def State.Grants (state : State) (site : Site) : Prop :=
  site.Granted (fun name => state.globals.contains name) state.depths

/-- A walk that passes by the declarations of some names; at the top these become globals. -/
structure Passes (declared : List String) (state after : State) : Prop where
  names : ∀ name, after.globals.contains name ↔
    state.globals.contains name ∨ state.scopes = [] ∧ name ∈ declared
  height : after.scopes.length = state.scopes.length
  depths : ∀ id, after.depths.find? id = none → state.depths.find? id = none

namespace Passes

variable {declared more : List String} {state middle after : State}

theorem refl (state : State) : Passes [] state state :=
  ⟨by simp, rfl, fun _ noted => noted⟩

theorem top_iff (passes : Passes declared state after) : after.scopes = [] ↔ state.scopes = [] := by
  rw [← List.length_eq_zero_iff, passes.height, List.length_eq_zero_iff]

theorem trans (passes : Passes declared state middle) (passes' : Passes more middle after) :
    Passes (declared ++ more) state after := by
  refine ⟨?_, passes'.height.trans passes.height, fun id noted =>
    passes.depths id (passes'.depths id noted)⟩
  intro name
  rw [passes'.names, passes.names, passes.top_iff, List.mem_append]
  tauto

theorem contains (passes : Passes declared state after) {name : String}
    (known : state.globals.contains name) : after.globals.contains name :=
  (passes.names name).mpr (.inl known)

theorem grants (passes : Passes declared state after) {site : Site} (grants : state.Grants site) :
    after.Grants site :=
  Site.Granted.mono grants (fun _ known => passes.contains known) passes.depths

theorem grants_back (passes : Passes [] state after) {site : Site} (grants : after.Grants site) :
    site.Granted (fun name => state.globals.contains name) after.depths := by
  refine Site.Granted.mono grants (fun name known => ?_) fun _ noted => noted
  simpa using (passes.names name).mp known

theorem leave {names : List String} (passes : Passes declared (state.enter names) after) :
    Passes [] state after.leave := by
  refine ⟨?_, ?_, passes.depths⟩
  · intro name
    have same := passes.names name
    simp only [State.enter, reduceCtorEq, false_and, or_false] at same
    simpa [State.leave] using same
  · have height := passes.height
    simp only [State.enter, List.length_cons] at height
    simp [State.leave, height]

end Passes

theorem passes_declare {state after : State} {name : Identifier}
    (declares : state.declare name = .ok after) : Passes [name.name] state after := by
  unfold State.declare at declares
  cases scopes : state.scopes with
  | nil =>
    simp only [scopes, Except.ok.injEq] at declares
    subst declares
    refine ⟨?_, by simp [scopes], fun _ noted => noted⟩
    intro other
    simp only [Globals.contains, Dict.contains_insert, Bool.or_eq_true, decide_eq_true_eq, scopes,
      List.mem_singleton, true_and]
    exact or_comm
  | cons scope outer =>
    simp only [scopes] at declares
    split at declares
    · cases declares
    · obtain rfl := Except.ok.inj declares
      exact ⟨by simp [scopes], by simp [scopes], fun _ noted => noted⟩

theorem passes_define (state : State) (name : String) : Passes [] state (state.define name) := by
  unfold State.define
  cases scopes : state.scopes with
  | nil => exact .refl state
  | cons scope outer => exact ⟨by simp, by simp [scopes], fun _ noted => noted⟩

private theorem passes_recordClass (state : State) (name : String) (outline : Outline) :
    Passes [] state (state.recordClass name outline) := by
  unfold State.recordClass
  cases scopes : state.scopes with
  | nil => exact ⟨by simp [Globals.contains], by simp [scopes], fun _ noted => noted⟩
  | cons scope outer => exact ⟨by simp, by simp [scopes], fun _ noted => noted⟩

private theorem passes_record (state : State) (id : RefId) (depth : Nat) :
    Passes [] state { state with depths := state.depths.record id depth } := by
  refine ⟨by simp, rfl, ?_⟩
  intro other noted
  simp only [Depths.find?_record] at noted
  split at noted
  · cases noted
  · exact noted

section Moves

variable {place : Place} {state after : State} {site : Site}

variable {id : RefId}

theorem grants_bindName {name : Identifier}
    (outside : site.nesting.Outside → place.function = .none)
    (refers : site.node.mention? = some (id, name.name))
    (binds : bindName place id name state = .ok after) :
    Passes [] state after ∧ after.Grants site := by
  unfold bindName State.bindLocal at binds
  cases bound : State.depthIn name.name state.scopes with
  | some depth =>
    simp only [bound, Option.map_some, Except.ok.injEq] at binds
    subst binds
    refine ⟨passes_record state id depth, ?_⟩
    intro _ other found refers' noted
    obtain ⟨rfl, -⟩ := Prod.mk.inj (Option.some.inj (refers.symm.trans refers'))
    simp [Depths.find?_record] at noted
  | none =>
    simp only [bound, Option.map_none] at binds
    split at binds
    · rename_i visible
      obtain rfl := Except.ok.inj binds
      refine ⟨.refl state, ?_⟩
      intro isOutside other found refers' _
      obtain ⟨-, rfl⟩ := Prod.mk.inj (Option.some.inj (refers.symm.trans refers'))
      simpa [outside isOutside] using visible
    · cases binds

theorem passes_bindWord {word : String} (binds : bindWord id word state = .ok after) :
    Passes [] state after := by
  unfold bindWord State.bindLocal at binds
  obtain rfl := Except.ok.inj binds
  cases State.depthIn word state.scopes with
  | some depth => exact passes_record state id depth
  | none => exact .refl state

theorem grants_declareClass {decl : ClassDecl Expr Stmt}
    (outside : site.nesting.Outside → place.function = .none)
    (node : site.node = .stmt (.classDecl decl))
    (accepts : declareClass place decl state = .ok after) :
    Passes [decl.name.name] state after ∧ after.Grants site := by
  obtain ⟨-, bound, declared, binds, declares, rfl⟩ := introduced_of_declareClass accepts
  have named : Passes [decl.name.name] bound
      ((declared.define decl.name.name).recordClass decl.name.name (outlineOf decl)) :=
    ((passes_declare declares).trans (passes_define declared _)).trans (passes_recordClass _ _ _)
  cases parent : decl.superclass with
  | none =>
    rw [parent] at binds
    obtain rfl : state = bound := Except.ok.inj binds
    refine ⟨named, ?_⟩
    intro _ id name refers
    simp [node, Node.mention?, parent] at refers
  | some found =>
    rw [parent] at binds
    have refers : site.node.mention? = some (found.id, found.name.name) := by
      simp [node, Node.mention?, parent]
    obtain ⟨passes, grants⟩ := grants_bindName outside refers binds
    exact ⟨passes.trans named, named.grants grants⟩

end Moves

end Binding

end ClassScript
