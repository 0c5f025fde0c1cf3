import ClassScript.Proofs.Walking

/-!
The walk through a text with a ledger, which gets an entry wherever the walk comes to a reference.
Main statement: the table that the walk ends with holds what the entries say.
-/

set_option autoImplicit false

namespace ClassScript.Binding

namespace Depths

@[simp] theorem find?_empty (id : RefId) : empty.find? id = none := by
  simp [empty, find?]

theorem find?_record (depths : Depths) (id other : RefId) (depth : Nat) :
    (depths.record id depth).find? other =
      if other = id then some depth else depths.find? other := by
  simp only [record, find?, Std.TreeMap.getElem?_insert, Nat.compare_eq_eq]
  by_cases same : id = other
  · simp [same]
  · simp [same, Ne.symm same]

end Depths

/-- The number of a reference and how many scopes out its name was declared. -/
abbrev Entry := RefId × Option Nat

def Depths.noting (depths : Depths) : Entry → Depths
  | (id, some depth) => depths.record id depth
  | (_, none) => depths

namespace State

def entry (state : State) (id : RefId) (name : String) : Entry :=
  (id, depthIn name state.scopes)

def parentEntry? (state : State) (decl : ClassDecl Expr Stmt) : Option Entry :=
  decl.superclass.map fun parent => state.entry parent.id parent.name.name

end State

structure Ledger where
  state : State
  /-- An entry for every reference that the walk has come to, latest first. -/
  entries : List Entry

namespace Ledger

def carry (ledger : Ledger) (new : Option Entry) :
    Except (Located Fault) State → Except (Located Fault) Ledger
  | .ok state => .ok { state, entries := new.toList ++ ledger.entries }
  | .error fault => .error fault

def start (globals : Globals) : Ledger :=
  { state := .start globals, entries := [] }

end Ledger

def bookkeeper (hoisted : Dict Unit) : Walker Ledger (Located Fault) where
  refuse position fault ledger := ledger.carry none (Binding.refuse position fault)
  read place id name ledger :=
    ledger.carry (ledger.state.entry id name.name)
      ((resolver hoisted).read place id name ledger.state)
  bind place id name ledger :=
    ledger.carry (ledger.state.entry id name.name)
      ((resolver hoisted).bind place id name ledger.state)
  word id word ledger :=
    ledger.carry (ledger.state.entry id word) ((resolver hoisted).word id word ledger.state)
  enter names ledger := { ledger with state := ledger.state.enter names }
  leave ledger := { ledger with state := ledger.state.leave }
  declare name ledger := ledger.carry none (ledger.state.declare name)
  define name ledger := { ledger with state := ledger.state.define name }
  nested ledger := (resolver hoisted).nested ledger.state
  declareClass place decl ledger :=
    ledger.carry (ledger.state.parentEntry? decl)
      ((resolver hoisted).declareClass place decl ledger.state)

def ledgerOfProgram (globals : Globals) (program : List Stmt) : Except (Located Fault) Ledger :=
  walkStmts (bookkeeper (hoistedNames program)) (.top (hoistedNames program)) program
    (.start globals)

def ledgerOfLone (globals : Globals) (expr : Expr) : Except (Located Fault) Ledger :=
  walkExpr (bookkeeper ∅) (.top ∅) expr (.start globals)

section Notes

variable {place : Place} {id : RefId} {name : Identifier} {state after : State}

private theorem depths_bindLocal (state : State) (id : RefId) (name : String) :
    ((state.bindLocal id name).getD state).depths = state.depths.noting (state.entry id name) := by
  unfold State.bindLocal State.entry
  cases State.depthIn name state.scopes <;> rfl

private theorem depths_bindName (bound : bindName place id name state = .ok after) :
    after.depths = state.depths.noting (state.entry id name.name) := by
  rw [← depths_bindLocal]
  unfold bindName at bound
  split at bound
  · rename_i found isLocal
    rw [isLocal]
    obtain rfl : found = after := Except.ok.inj bound
    rfl
  · rename_i isGlobal
    rw [isGlobal]
    split at bound
    · obtain rfl : state = after := Except.ok.inj bound
      rfl
    · cases bound

private theorem depths_declare (declares : state.declare name = .ok after) :
    after.depths = state.depths := by
  unfold State.declare at declares
  split at declares
  · obtain rfl := Except.ok.inj declares
    rfl
  · split at declares
    · cases declares
    · obtain rfl := Except.ok.inj declares
      rfl

@[simp] private theorem depths_define (state : State) (name : String) :
    (state.define name).depths = state.depths := by
  unfold State.define
  split <;> rfl

@[simp] private theorem depths_recordClass (state : State) (name : String) (outline : Outline) :
    (state.recordClass name outline).depths = state.depths := by
  unfold State.recordClass
  split <;> rfl

theorem Introduced.depths {decl : ClassDecl Expr Stmt}
    (introduced : Introduced place decl state after) :
    after.depths = (state.parentEntry? decl).elim state.depths state.depths.noting := by
  obtain ⟨-, bound, declared, binds, declares, rfl⟩ := introduced
  rw [depths_recordClass, depths_define, depths_declare declares]
  unfold State.parentEntry?
  cases clause : decl.superclass with
  | none =>
    rw [clause] at binds
    obtain rfl : state = bound := Except.ok.inj binds
    rfl
  | some parent =>
    rw [clause] at binds
    exact depths_bindName binds

end Notes

structure Ledger.Kept (ledger : Ledger) : Prop where
  origin : ∀ id depth, ledger.state.depths.find? id = some depth →
    (id, some depth) ∈ ledger.entries
  covers : ∀ id depth, (id, some depth) ∈ ledger.entries →
    (ledger.state.depths.find? id).isSome

structure Ledger.Follows (ledger : Ledger) (state : State) : Prop where
  same : ledger.state = state
  kept : ledger.Kept

namespace Ledger.Kept

variable {ledger : Ledger} {after : State}

theorem of_depths (kept : ledger.Kept) (same : after.depths = ledger.state.depths) :
    Kept { ledger with state := after } := by
  refine ⟨?_, ?_⟩
  · intro id depth noted
    rw [same] at noted
    exact kept.origin id depth noted
  · intro id depth member
    rw [same]
    exact kept.covers id depth member

theorem note (kept : ledger.Kept) {entry : Entry}
    (noted : after.depths = ledger.state.depths.noting entry) :
    Kept { state := after, entries := entry :: ledger.entries } := by
  obtain ⟨id, _ | depth⟩ := entry
  · have same := kept.of_depths noted
    refine ⟨fun other depth found => List.mem_cons_of_mem _ (same.origin other depth found), ?_⟩
    intro other depth member
    rcases List.mem_cons.mp member with new | old
    · cases new
    · exact same.covers other depth old
  · have table (other : RefId) : after.depths.find? other =
        if other = id then some depth else ledger.state.depths.find? other := by
      rw [noted]
      exact Depths.find?_record _ _ _ _
    refine ⟨?_, ?_⟩
    · intro other depth' found
      rw [table] at found
      split at found
      · rename_i same
        obtain rfl := Option.some.inj found
        exact same ▸ List.mem_cons_self
      · exact List.mem_cons_of_mem _ (kept.origin other depth' found)
    · intro other depth' member
      rw [table]
      split
      · rfl
      · rename_i apart
        rcases List.mem_cons.mp member with new | old
        · exact absurd (Prod.mk.inj new).1 apart
        · exact kept.covers other depth' old

theorem ends_carry (kept : ledger.Kept) {new : Option Entry}
    {moved : Except (Located Fault) State}
    (noted : ∀ after, moved = .ok after →
      after.depths = new.elim ledger.state.depths ledger.state.depths.noting) :
    Ends Ledger.Follows (fun fault ending => ending = .error fault) (ledger.carry new moved)
      moved := by
  cases moved with
  | error fault => exact .error rfl
  | ok after =>
    refine .ok ⟨rfl, ?_⟩
    have depths := noted after rfl
    cases new with
    | none => exact kept.of_depths depths
    | some entry => exact kept.note depths

end Ledger.Kept

private theorem keep_ledger (hoisted : Dict Unit) :
    (bookkeeper hoisted).Keep id (fun _ _ => True) (fun _ => Ledger.Follows)
      (fun fault ending => ending = .error fault) (resolver hoisted) where
  final := by
    rintro fault ending rfl next
    rfl
  loop _ := trivial
  block _ := trivial
  methodsFit _ _ := trivial
  body _ _ _ _ := trivial
  nested follows := by
    rw [← follows.same]
    rfl
  refuse := by
    rintro _ ledger _ ⟨rfl, kept⟩ position fault
    exact .error rfl
  read := by
    rintro _ place ledger _ _ ⟨rfl, kept⟩ id name
    refine kept.ends_carry fun after bound => ?_
    simp only [resolver] at bound
    split at bound
    · cases bound
    · exact depths_bindName bound
  bind := by
    rintro _ place ledger _ _ ⟨rfl, kept⟩ id name
    exact kept.ends_carry fun after bound => depths_bindName bound
  word := by
    rintro _ ledger _ ⟨rfl, kept⟩ id word
    change Ends _ _ (ledger.carry (ledger.state.entry id word) (bindWord id word ledger.state))
      (bindWord id word ledger.state)
    refine kept.ends_carry fun after bound => ?_
    obtain rfl := Except.ok.inj bound
    exact depths_bindLocal ledger.state id word
  enter := by
    rintro _ ledger _ ⟨rfl, kept⟩ names
    exact ⟨rfl, kept.of_depths rfl⟩
  leave := by
    rintro _ ledger _ ⟨rfl, kept⟩
    exact ⟨rfl, kept.of_depths rfl⟩
  declare := by
    rintro _ _ ledger _ _ ⟨rfl, kept⟩ name
    exact kept.ends_carry fun after declares => depths_declare declares
  define := by
    rintro _ ledger _ ⟨rfl, kept⟩ name
    exact ⟨rfl, kept.of_depths (depths_define ledger.state name)⟩
  declareClass := by
    rintro _ place ledger _ _ ⟨rfl, kept⟩ decl
    rw [renumberClass_id]
    exact kept.ends_carry fun after accepts => (introduced_of_declareClass accepts).depths

theorem Ledger.follows_start (globals : Globals) : (start globals).Follows (.start globals) :=
  ⟨rfl, fun id depth noted => by simp [start, State.start] at noted,
    fun id depth member => by cases member⟩

theorem Ends.of_ok {ending : Except (Located Fault) Ledger} {state : State}
    (ends : Ends Ledger.Follows (fun fault ending => ending = .error fault) ending (.ok state)) :
    ∃ ledger, ending = .ok ledger ∧ ledger.Follows state := by
  cases ends with
  | ok follows => exact ⟨_, rfl, follows⟩
  | error answer => cases answer

theorem ledger_of_resolveStmts (hoisted : Dict Unit) (place : Place) {stmts : List Stmt}
    {globals : Globals} {state : State}
    (resolved : resolveStmts (place.within hoisted) stmts (.start globals) = .ok state) :
    ∃ ledger, walkStmts (bookkeeper hoisted) place stmts (.start globals) = .ok ledger ∧
      ledger.Follows state := by
  have ends := (keep_ledger hoisted).sameStmts place stmts (Ledger.follows_start globals)
  rw [walkStmts_resolver, resolved] at ends
  exact ends.of_ok

theorem ledger_of_resolveExpr (hoisted : Dict Unit) (place : Place) {expr : Expr}
    {globals : Globals} {state : State}
    (resolved : resolveExpr (place.within hoisted) expr (.start globals) = .ok state) :
    ∃ ledger, walkExpr (bookkeeper hoisted) place expr (.start globals) = .ok ledger ∧
      ledger.Follows state := by
  have ends := (keep_ledger hoisted).sameExpr place expr (Ledger.follows_start globals)
  rw [walkExpr_resolver, resolved] at ends
  exact ends.of_ok

end ClassScript.Binding
