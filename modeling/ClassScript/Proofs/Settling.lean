import ClassScript.Proofs.Invariant
import ClassScript.Proofs.Discipline

/-!
Code without loops comes to an end, unless set-ups of fields nest without a bound.
-/

set_option autoImplicit false

namespace ClassScript

def Nesting.isFields : Nesting → Bool
  | .fields _ _ => true
  | _ => false

/-- Whether a call stands right in the initial value of a field, and not in a function inside it. -/
def Site.isInitialCall (site : Site) : Bool :=
  match site.node with
  | .expr (.call _ _ _) => site.nesting.isFields
  | _ => false

namespace Run

def Terms.blind : Terms where
  watch := ⟨False, fun _ => True⟩
  kept _ := False
  opened _ _ := True

theorem blind_fair : Terms.blind.Fair :=
  fun _ keep => keep.elim

private theorem whole_blind (store : Store) (value : Value) :
    Whole Terms.blind.watch store value := by
  cases value <;> first | exact fun on => on.elim | trivial

theorem Coherent.blind {text : Site → Prop} {notes : Notes} {machine : Machine}
    (coherent : Coherent text notes machine.store) : Upheld text .blind notes machine :=
  ⟨coherent, fun on => on.elim, fun value _ => whole_blind _ value, fun on => on.elim⟩

/-- The initial value of a field makes a call when more set-ups of fields than the bound are under
way. -/
def Notes.Deep (bound : Nat) (notes : Notes) : Prop :=
  ∃ moment ∈ notes.moments, bound < moment.pending ∧ moment.site.isInitialCall

/-- A run ends once it has enough steps, or it comes to a moment in too many set-ups of fields. -/
structure Settles {α : Type} (bound : Nat) (body : Nat → Traced α) (notes : Notes)
    (machine : Machine) : Prop where
  grows : ∀ steps, notes.moments ⊆ (body steps notes machine).1.moments
  ends : (∃ enough result, result.2 ≠ .exhausted ∧
      ∀ steps, enough ≤ steps → body steps notes machine = result) ∨
    ∃ enough, ∀ steps, enough ≤ steps → (body steps notes machine).1.Deep bound

namespace Settles

variable {α β : Type} {bound : Nat} {notes : Notes} {machine : Machine}

theorem of_brief {body : Traced α} (brief : Traced.Brief False body) (notes : Notes)
    (machine : Machine) : Settles bound (fun _ => body) notes machine := by
  obtain ⟨moments, after, ends, -⟩ := brief notes machine
  refine ⟨fun _ _ member => moments ▸ member, .inl ⟨0, _, ?_, fun _ _ => rfl⟩⟩
  intro exhausted
  simp [exhausted, Outcome.machine?] at ends

theorem pure (value : α) (notes : Notes) (machine : Machine) :
    Settles bound (fun _ => Pure.pure value) notes machine :=
  of_brief (.pure value) notes machine

theorem prints (line : String) (value : α) (notes : Notes) (machine : Machine) :
    Settles bound (fun _ => Traced.lift (Eval.emit line) >>= fun _ => Pure.pure value) notes
      machine := by
  obtain ⟨outcome, ended, result⟩ : ∃ outcome : Outcome α, outcome ≠ .exhausted ∧
      (Traced.lift (Eval.emit line) >>= fun _ => Pure.pure value) notes machine =
        (notes, outcome) := by
    simp only [Bind.bind, Traced.lift, Eval.emit]
    rcases machine.sink.emit line with ⟨_ | _, sink⟩ <;> exact ⟨_, by simp, rfl⟩
  exact ⟨fun _ _ member => by rwa [result], .inl ⟨0, _, ended, fun _ _ => result⟩⟩

theorem map {body : Nat → Traced α} {made : Nat → Traced β} {notes' : Notes} {machine' : Machine}
    (change : Notes × Outcome α → Notes × Outcome β) (settles : Settles bound body notes' machine')
    (grown : notes.moments ⊆ notes'.moments)
    (same : ∀ steps, made steps notes machine = change (body steps notes' machine'))
    (moments : ∀ result, (change result).1.moments = result.1.moments)
    (ends : ∀ result, (change result).2 = .exhausted → result.2 = .exhausted) :
    Settles bound made notes machine := by
  refine ⟨fun steps => ?_, ?_⟩
  · rw [same, moments]
    exact List.Subset.trans grown (settles.grows steps)
  · rcases settles.ends with ⟨enough, result, ended, fixed⟩ | ⟨enough, deep⟩
    · refine .inl ⟨enough, change result, fun out => ended (ends result out), fun steps more => ?_⟩
      rw [same, fixed steps more]
    · refine .inr ⟨enough, fun steps more => ?_⟩
      rw [Notes.Deep, same, moments]
      exact deep steps more

theorem of_deep {body : Nat → Traced α} (deep : notes.Deep bound)
    (grows : ∀ steps, notes.moments ⊆ (body steps notes machine).1.moments) :
    Settles bound body notes machine := by
  obtain ⟨moment, member, beyond⟩ := deep
  exact ⟨grows, .inr ⟨0, fun steps _ => ⟨moment, grows steps member, beyond⟩⟩⟩

theorem succ {body rest : Nat → Traced α} (zero : body 0 = Traced.lift Eval.exhaust)
    (opens : ∀ steps, body (steps + 1) = rest steps) (settles : Settles bound rest notes machine) :
    Settles bound body notes machine := by
  obtain rfl : (fun steps => body (steps + 1)) = rest := funext opens
  refine ⟨fun steps => ?_, ?_⟩
  · cases steps with
    | zero =>
      rw [zero]
      exact fun _ member => member
    | succ steps => exact settles.grows steps
  · rcases settles.ends with ⟨enough, result, ended, same⟩ | ⟨enough, deep⟩
    · refine .inl ⟨enough + 1, result, ended, fun steps more => ?_⟩
      obtain ⟨steps, rfl⟩ := Nat.exists_eq_add_of_le' (Nat.le_of_add_left_le more)
      exact same _ (by omega)
    · refine .inr ⟨enough + 1, fun steps more => ?_⟩
      obtain ⟨steps, rfl⟩ := Nat.exists_eq_add_of_le' (Nat.le_of_add_left_le more)
      exact deep _ (by omega)

section Parts

variable {text : Site → Prop} {body : Nat → Traced α} {next : Nat → α → Traced β}
  {middle : α → Notes → Machine → Prop}

section Two

variable (runs : ∀ steps, Fares text .blind notes machine (body steps) middle)
  (rest : ∀ value notes' machine', Passed text .blind notes machine notes' machine' →
    middle value notes' machine' →
    Settles bound (fun steps => next steps value) notes' machine')

include runs rest

theorem carries (steps : Nat) :
    (body steps notes machine).1.moments ⊆
      ((body steps >>= next steps) notes machine).1.moments := by
  have ends := runs steps
  simp only [Fares, Bind.bind] at ends ⊢
  generalize body steps notes machine = result at ends ⊢
  obtain ⟨notes', outcome⟩ := result
  obtain ⟨_, -, -, ends⟩ := ends
  cases outcome with
  | done value after => exact (rest value notes' after ends.2.1 ends.2.2).grows steps
  | stopped reason after => exact fun _ member => member
  | exhausted => exact fun _ member => member

theorem bind (settles : Settles bound body notes machine) :
    Settles bound (fun steps => body steps >>= next steps) notes machine := by
  refine ⟨fun steps => List.Subset.trans (settles.grows steps) (carries runs rest steps), ?_⟩
  rcases settles.ends with ⟨enough, ⟨notes', outcome⟩, ended, same⟩ | ⟨enough, deep⟩
  · cases outcome with
    | exhausted => exact absurd rfl ended
    | stopped reason after =>
      refine .inl ⟨enough, (notes', .stopped reason after), by simp, fun steps more => ?_⟩
      simp only [Bind.bind, same steps more]
    | done value after =>
      have joined (steps : Nat) (more : enough ≤ steps) :
          (body steps >>= next steps) notes machine = next steps value notes' after := by
        simp only [Bind.bind, same steps more]
      have reaches := (runs enough).ended (same enough (Nat.le_refl _))
      rcases (rest value notes' after reaches.1 reaches.2).ends with
        ⟨enough', result, ended', same'⟩ | ⟨enough', deep⟩
      · refine .inl ⟨max enough enough', result, ended', fun steps more => ?_⟩
        rw [joined steps (by omega)]
        exact same' steps (by omega)
      · refine .inr ⟨max enough enough', fun steps more => ?_⟩
        rw [joined steps (by omega)]
        exact deep steps (by omega)
  · refine .inr ⟨enough, fun steps more => ?_⟩
    obtain ⟨moment, member, beyond⟩ := deep steps more
    exact ⟨moment, carries runs rest steps member, beyond⟩

end Two

theorem brief_after {next : α → Traced β} (settles : Settles bound body notes machine)
    (brief : ∀ value, Traced.Brief False (next value)) :
    Settles bound (fun steps => body steps >>= next) notes machine := by
  refine settles.map (fun result => ((fun _ _ => result) >>= next : Traced β) notes machine)
    (List.Subset.refl _) (fun _ => rfl) (fun result => ?_) fun result exhausted => ?_
  all_goals
    obtain ⟨notes', outcome⟩ := result
    cases outcome with
    | done value after =>
      obtain ⟨moments, last, ends, -⟩ := brief value notes' after
      simp_all [Bind.bind, Outcome.machine?]
    | _ => simp_all [Bind.bind]

theorem step {first : Traced α} {value : α} {notes' : Notes} {machine' : Machine}
    (result : first notes machine = (notes', .done value machine'))
    (moments : notes'.moments = notes.moments)
    (rest : Settles bound (fun steps => next steps value) notes' machine') :
    Settles bound (fun steps => first >>= next steps) notes machine := by
  refine rest.map id (moments ▸ List.Subset.refl _) (fun steps => ?_) (fun _ => rfl) fun _ => id
  simp only [Bind.bind, result, id]

theorem mark {pending : Nat} {spot : Spot} {node : Node} {phase : Phase}
    {next : Nat → Unit → Traced β} (ready : Poised text .blind notes machine spot)
    (rest : ∀ notes', Poised text .blind notes' machine spot →
      (bound < pending → (⟨spot.nesting, node⟩ : Site).isInitialCall → notes'.Deep bound) →
      Settles bound (fun steps => next steps ()) notes' machine) :
    Settles bound (fun steps => Traced.mark pending spot node phase >>= next steps) notes
      machine := by
  have kept := kept_moments ready.coherent
    ({ spot, node, phase, pending, origins := notes.origins, completed := notes.completed,
       machine } :: notes.moments)
  have ready : Poised text .blind _ machine spot := ⟨kept.coherent.blind, ready.standing⟩
  have settles := rest _ ready fun beyond call => ⟨_, List.mem_cons_self, beyond, call⟩
  exact settles.map id (List.subset_cons_self _ _) (fun _ => rfl) (fun _ => rfl) fun _ => id

theorem within {frame : Frame} (inside : Settles bound body notes { machine with frame }) :
    Settles bound (fun steps => Traced.within frame (body steps)) notes machine := by
  refine inside.map (fun result => Traced.within frame (fun _ _ => result) notes machine)
    (List.Subset.refl _) (fun _ => rfl) (fun result => ?_) fun result exhausted => ?_
  all_goals
    obtain ⟨notes', outcome⟩ := result
    cases outcome <;> simp_all [Traced.within]

theorem withinScope {scope : ScopeRef}
    (inside : Settles bound body notes { machine with frame := { machine.frame with scope } }) :
    Settles bound (fun steps => Traced.withinScope scope (body steps)) notes machine :=
  ⟨(within inside).grows, (within inside).ends⟩

end Parts

end Settles

/-- What is left of the limit on calls and of the bound on set-ups of fields. -/
structure Room (rules : Rules) (bound budget pending : Nat) (spot : Spot) (machine : Machine) :
    Prop where
  depth : machine.frame.depth ≤ rules.maxDepth
  left : (rules.maxDepth - machine.frame.depth) + (bound + 1 - pending) ≤ budget
  place : pending ≤ bound ∨ spot.nesting.isFields

namespace Room

variable {rules : Rules} {bound budget pending : Nat} {spot : Spot} {machine machine' : Machine}

theorem passed {text : Site → Prop} {terms : Terms} {notes notes' : Notes}
    (room : Room rules bound budget pending spot machine)
    (passed : Passed text terms notes machine notes' machine') :
    Room rules bound budget pending spot machine' :=
  ⟨passed.frame ▸ room.depth, passed.frame ▸ room.left, room.place⟩

theorem moved (room : Room rules bound budget pending spot machine) (shallow : pending ≤ bound)
    (spot' : Spot) : Room rules bound budget pending spot' machine :=
  ⟨room.depth, room.left, .inl shallow⟩

end Room

structure Settled (text : Site → Prop) (rules : Rules) (bound budget : Nat) : Prop where
  executeAll : ∀ pending spot stmts notes machine, pending ≤ bound →
    Covered text (stmtsSites spot.nesting stmts) → Poised text .blind notes machine spot →
    Room rules bound budget pending spot machine →
    Settles bound (fun steps => Traced.executeAll rules steps pending spot stmts) notes machine
  setUpFields : ∀ pending spot fields receiver notes machine,
    Covered text (fieldsSites spot.nesting fields) → Poised text .blind notes machine spot →
    Room rules bound budget pending spot machine →
    Settles bound (fun steps => Traced.setUpFields rules steps pending spot fields receiver) notes
      machine

/-- Whatever is left of less than the budget settles. -/
def SettledBelow (text : Site → Prop) (rules : Rules) (bound budget : Nat) : Prop :=
  ∀ smaller, smaller < budget → Settled text rules bound smaller

section Calls

open Steady

variable {text : Site → Prop} {rules : Rules} {bound budget pending : Nat} {spot : Spot}

variable {notes : Notes} {arguments : List Value} {machine : Machine} {position : Position}

private theorem isFields_fieldSpot {store : Store} {ref : Nat} {found : ClassObject}
    (coherent : Coherent text notes store) (stored : store.classes[ref]? = some found) :
    (notes.fieldSpot ref).nesting.isFields := by
  obtain ⟨note, noted, -⟩ := coherent.noted_class stored
  simp only [Notes.fieldSpot, noted]
  rfl

variable (sound : rules.Suits text) (below : SettledBelow text rules bound budget)

include sound below

private theorem settles_callClosure (shallow : pending ≤ bound) {home : Spot} {closure : Closure}
    (upheld : Upheld text .blind notes machine)
    (fits : ClosureFits text notes.origins machine.store closure home)
    (fine : FineValues Terms.blind.watch arguments notes machine)
    (room : Room rules bound budget pending spot machine) :
    Settles bound (fun steps =>
      Traced.callClosure rules steps pending home closure arguments position) notes machine := by
  refine .succ (by rw [Traced.callClosure]) (fun _ => by rw [Traced.callClosure]) ?_
  refine (Settles.of_brief (brief_checkArity _ _ _) _ _).bind
    (fun _ => fares_checkArity upheld _ _ position) fun _ notes machine passed arity => ?_
  have fits := fits.grow passed.grows
  have fine := fine.passed upheld passed
  have room := room.passed passed
  refine .step rfl rfl ?_
  by_cases full : rules.maxDepth ≤ machine.frame.depth
  · simp only [if_pos full]
    exact .of_brief (.fail _ _) _ _
  simp only [if_neg full]
  have added := passed_callee passed.upheld closure fine
  have standing := standing_callee passed.coherent fits arity (machine.frame.depth + 1)
  have ready := standing.poised added.coherent added.tended
  have covered := covered_body fits.sites
  have left := room.left
  have deeper : Room rules bound (budget - 1) pending
      (home.enter (.function closure.decl) (parameterNames closure.decl.parameters)
        machine.store.scopes.size)
      { machine with
        store := (machine.store.addScope (calleeScope closure arguments)).2
        frame := {
          scope := machine.store.scopes.size
          classRef := closure.owner
          depth := machine.frame.depth + 1 } } := by
    exact ⟨by simp only; omega, by simp only; omega, .inl shallow⟩
  refine .step rfl rfl (.step rfl rfl ?_)
  refine (Settles.within ((below (budget - 1) (by omega)).executeAll pending _ _ _ _ shallow
    covered ready deeper)).bind (fun steps => Fares.within _
      (Steady.executeAll sound steps pending blind_fair ready covered fun _ _ _ _ => trivial))
    fun flow notes machine _ _ => ?_
  exact .of_brief (brief_callResult _ _) _ _

private theorem settles_setUpLineage (shallow : pending ≤ bound) (receiver : InstanceRef)
    (lineage : List ClassRef) (upheld : Upheld text .blind notes machine)
    (room : Room rules bound budget pending spot machine) :
    Settles bound (fun steps => Traced.setUpLineage rules steps pending lineage receiver) notes
      machine := by
  induction lineage generalizing notes machine with
  | nil =>
    refine .succ (by rw [Traced.setUpLineage]) (fun _ => by rw [Traced.setUpLineage]) ?_
    exact .pure _ _ _
  | cons ref rest ih =>
    refine .succ (by rw [Traced.setUpLineage]) (fun _ => by rw [Traced.setUpLineage]) ?_
    refine .step rfl rfl ?_
    cases stored : machine.store.classes[ref]? with
    | none =>
      simp only [stored]
      exact ih upheld room
    | some found =>
      simp only [stored]
      obtain ⟨covered, ready⟩ := ready_fields upheld.coherent stored
      have ready := ready.standing.poised ready.coherent upheld.tended
      have left := room.left
      have deeper : Room rules bound (budget - 1) (pending + 1) (notes.fieldSpot ref)
          { machine with
            frame := { machine.frame with scope := found.scope, classRef := some ref } } :=
        ⟨room.depth, by simp only; omega, .inr (isFields_fieldSpot upheld.coherent stored)⟩
      have fields := (below (budget - 1) (by omega)).setUpFields (pending + 1) _ _
        receiver _ _ covered ready deeper
      refine .step rfl rfl (.step rfl rfl ?_)
      refine (Settles.within fields).bind (fun steps => Fares.within _
        (Steady.setUpFields sound steps (pending + 1) blind_fair ready covered trivial id))
        fun _ notes machine passed _ => ?_
      exact ih passed.upheld (room.passed passed)

private theorem settles_instantiate (shallow : pending ≤ bound) (ref : ClassRef)
    (upheld : Upheld text .blind notes machine)
    (fine : FineValues Terms.blind.watch arguments notes machine)
    (room : Room rules bound budget pending spot machine) :
    Settles bound (fun steps => Traced.instantiate rules steps pending ref arguments position) notes
      machine := by
  refine .succ (by rw [Traced.instantiate]) (fun _ => by rw [Traced.instantiate]) ?_
  refine .step rfl rfl ?_
  cases stored : machine.store.classes[ref]? with
  | none =>
    simp only [stored]
    exact .of_brief (.fail _ _) _ _
  | some made =>
    simp only [stored]
    refine (Settles.of_brief (brief_checkArity _ _ _) _ _).bind
      (fun _ => fares_checkArity upheld _ _ position) fun _ notes machine passed _ => ?_
    have stored := passed.grows.classes ref made stored
    have fine := fine.passed upheld passed
    have room := room.passed passed
    cases lookup : made.methods.find? constructorName with
    | none =>
      have added := passed_addInstance blind_fair passed.upheld ref
      refine .step rfl rfl (.step rfl rfl ?_)
      refine (settles_setUpLineage sound below shallow _ _ added.upheld (room.passed added)).bind
        (fun steps => Steady.setUpLineage sound steps pending blind_fair added.upheld trivial id
          fun on => on.elim)
        fun _ notes machine _ _ => ?_
      exact .pure _ _ _
    | some constructor =>
      refine (Settles.of_brief (brief_checkAccess _ _ _ _) _ _).bind
        (fun _ => fares_checkAccess passed.upheld _ _ _ _) fun _ notes machine passed' _ => ?_
      have added := passed_addInstance blind_fair passed'.upheld ref
      have stored := added.grows.classes ref made (passed'.grows.classes ref made stored)
      have fine := (fine.passed passed.upheld passed').passed passed'.upheld added
      have room := (room.passed passed').passed added
      refine .step rfl rfl (.step rfl rfl ?_)
      refine (settles_setUpLineage sound below shallow _ _ added.upheld room).bind
        (fun steps => Steady.setUpLineage sound steps pending blind_fair added.upheld trivial id
          fun on => on.elim) fun _ notes machine passed _ => ?_
      have stored := passed.grows.classes ref made stored
      have fine := fine.passed added.upheld passed
      have room := room.passed passed
      refine (Settles.of_brief (brief_bindMethod _ _) _ _).bind
        (fun _ => fares_bindMethod passed.upheld stored lookup (whole_blind _ _))
        fun closure notes machine passed' fits => ?_
      have fine := fine.passed passed.upheld passed'
      refine .step rfl rfl ?_
      refine (settles_callClosure sound below shallow passed'.upheld fits fine
        (room.passed passed')).bind (fun steps => Steady.callClosure sound steps pending
          blind_fair passed'.upheld fits fine) fun _ notes machine _ _ => ?_
      exact .pure _ _ _

theorem settles_call (shallow : pending ≤ bound) (callee : Value)
    (upheld : Upheld text .blind notes machine)
    (fine : FineValues Terms.blind.watch arguments notes machine)
    (room : Room rules bound budget pending spot machine) :
    Settles bound (fun steps => Traced.call rules steps pending callee arguments position) notes
      machine := by
  refine .succ (Traced.call.eq_def ..) (fun _ => Traced.call.eq_def ..) ?_
  cases callee
  case builtin which =>
    refine (Settles.of_brief (brief_checkArity _ _ _) _ _).bind
      (fun _ => fares_checkArity upheld _ _ position) fun _ notes machine _ _ => ?_
    exact .of_brief (brief_applyBuiltin _ _ _ _) _ _
  case function ref =>
    refine .step rfl rfl ?_
    cases stored : machine.store.functions[ref]? with
    | some closure =>
      simp only [stored]
      refine .step rfl rfl ?_
      exact settles_callClosure sound below shallow upheld
        (upheld.coherent.noted_function stored) fine room
    | none =>
      simp only [stored]
      exact .of_brief (.fail _ _) _ _
  case classObject ref => exact settles_instantiate sound below shallow ref upheld fine room
  all_goals exact .of_brief (.fail _ _) _ _

end Calls

end Run

end ClassScript
