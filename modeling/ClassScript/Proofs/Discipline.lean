import ClassScript.Proofs.Trace

/-!
How evaluation is put together, with notes and without. Main statement: every rule keeps every
relation that goes through the moves of evaluation.
-/

set_option autoImplicit false

namespace ClassScript

/-- The statement declares nothing in the scope it stands in, and neither do the branches and bodies
that stand in the same scope. -/
def Stmt.Idle : Stmt → Prop
  | .var _ _ _ | .function _ | .classDecl _ => False
  | .branch _ whenTrue none => whenTrue.Idle
  | .branch _ whenTrue (some whenFalse) => whenTrue.Idle ∧ whenFalse.Idle
  | .loop _ body => body.Idle
  | _ => True

namespace Run

def Machine.over (machine : Machine) (sink : Sink) : Machine :=
  { machine with sink }

def Rules.allowing (rules : Rules) (limit : Nat) : Rules :=
  { rules with maxDepth := limit }

def Outcome.over {α : Type} (sink : Sink) : Outcome α → Outcome α
  | .done value machine => .done value (machine.over sink)
  | .stopped reason machine => .stopped reason (machine.over sink)
  | .exhausted => .exhausted

namespace Outcome

variable {α : Type}

def machine? : Outcome α → Option Machine
  | .done _ machine | .stopped _ machine => some machine
  | .exhausted => none

def backTo (frame : Frame) : Outcome α → Outcome α
  | .done value machine => .done value { machine with frame }
  | .stopped reason machine => .stopped reason { machine with frame }
  | .exhausted => .exhausted

theorem machine?_backTo (frame : Frame) (outcome : Outcome α) :
    (outcome.backTo frame).machine? =
      outcome.machine?.map fun machine => { machine with frame } := by
  cases outcome <;> rfl

end Outcome

theorem Eval.within_eq {α : Type} (frame : Frame) (body : Eval α) (machine : Machine) :
    Eval.within frame body machine = (body { machine with frame }).backTo machine.frame := by
  rw [Eval.within]
  rcases body { machine with frame } with _ | _ | _ <;> rfl

namespace Traced

variable {α β : Type}

theorem within_eq (frame : Frame) (body : Traced α) (notes : Notes) (machine : Machine) :
    (within frame body notes machine).2 =
      (body notes { machine with frame }).2.backTo machine.frame := by
  rw [within]
  rcases body notes { machine with frame } with ⟨notes, _ | _ | _⟩ <;> rfl

/-- An action that takes no steps: it notes no moment, ends, stands where it stood, and is the same
over every sink. A gentle one leaves all scopes as they are. -/
def Brief (gentle : Prop) (body : Traced α) : Prop :=
  ∀ notes machine, (body notes machine).1.moments = notes.moments ∧
    ∃ after, (body notes machine).2.machine? = some after ∧ after.frame = machine.frame ∧
      (gentle → machine.store.scopes.toList <+: after.store.scopes.toList) ∧
      ∀ sink, body notes (machine.over sink) =
        ((body notes machine).1, (body notes machine).2.over sink)

namespace Brief

variable {gentle : Prop}

theorem pure (value : α) : Brief gentle (Pure.pure value) :=
  fun _ machine => ⟨rfl, machine, rfl, rfl, fun _ => List.prefix_rfl, fun _ => rfl⟩

theorem bind {body : Traced α} {next : α → Traced β} (brief : Brief gentle body)
    (continues : ∀ value, Brief gentle (next value)) : Brief gentle (body >>= next) := by
  intro notes machine
  obtain ⟨moments, after, ends, frame, scopes, silent⟩ := brief notes machine
  simp only [Bind.bind, silent]
  generalize body notes machine = result at moments ends ⊢
  obtain ⟨notes', outcome⟩ := result
  cases outcome with
  | done value machine' =>
    obtain rfl : machine' = after := Option.some.inj ends
    obtain ⟨moments', last, ends', frame', scopes', silent'⟩ := continues value notes' machine'
    exact ⟨moments'.trans moments, last, ends', frame'.trans frame,
      fun isGentle => (scopes isGentle).trans (scopes' isGentle), silent'⟩
  | stopped reason machine' => exact ⟨moments, after, ends, frame, scopes, fun _ => rfl⟩
  | exhausted => simp [Outcome.machine?] at ends

theorem sink {body : Traced α} (brief : Brief gentle body) {notes : Notes} {machine last : Machine}
    (ends : (body notes machine).2.machine? = some last) : last.sink = machine.sink := by
  obtain ⟨-, -, -, -, -, silent⟩ := brief notes machine
  have same : (body notes machine).2 = (body notes machine).2.over machine.sink :=
    congrArg Prod.snd (silent machine.sink)
  rw [same] at ends
  generalize (body notes machine).2 = outcome at ends
  cases outcome with
  | done value after | stopped reason after => rw [← Option.some.inj ends]; rfl
  | exhausted => cases ends

theorem rough {body : Traced α} (brief : Brief gentle body) : Brief False body := by
  intro notes machine
  obtain ⟨moments, after, ends, frame, -, silent⟩ := brief notes machine
  exact ⟨moments, after, ends, frame, False.elim, silent⟩

theorem fail (position : Position) (fault : RuntimeFault) :
    Brief gentle (lift (Eval.fail position fault) : Traced α) :=
  fun _ machine => ⟨rfl, machine, rfl, rfl, fun _ => List.prefix_rfl, fun _ => rfl⟩

theorem attempt (position : Position) (result : Except RuntimeFault α) :
    Brief gentle (lift (Eval.attempt position result)) := by
  cases result with
  | ok value => exact pure value
  | error fault => exact fail position fault

theorem frame : Brief gentle (lift Eval.frame) :=
  fun _ machine => ⟨rfl, machine, rfl, rfl, fun _ => List.prefix_rfl, fun _ => rfl⟩

theorem inspect (look : Store → α) : Brief gentle (lift (Eval.inspect look)) :=
  fun _ machine => ⟨rfl, machine, rfl, rfl, fun _ => List.prefix_rfl, fun _ => rfl⟩

theorem change {update : Store → Store}
    (keeps : gentle → ∀ store, store.scopes.toList <+: (update store).scopes.toList) :
    Brief gentle (lift (Eval.change update)) :=
  fun _ machine => ⟨rfl, _, rfl, rfl, fun isGentle => keeps isGentle machine.store, fun _ => rfl⟩

theorem add {extend : Store → α × Store}
    (keeps : gentle → ∀ store, store.scopes.toList <+: (extend store).2.scopes.toList) :
    Brief gentle (lift (Eval.add extend)) :=
  fun _ machine => ⟨rfl, _, rfl, rfl, fun isGentle => keeps isGentle machine.store, fun _ => rfl⟩

theorem addScope (scope : Scope) :
    Brief gentle (lift (Eval.add fun store => store.addScope scope)) :=
  .add fun _ store => by simp [Store.addScope]

theorem readClock (rules : Rules) : Brief gentle (lift (Eval.readClock rules)) :=
  fun _ _ => ⟨rfl, _, rfl, rfl, fun _ => List.prefix_rfl, fun _ => rfl⟩

theorem noting {update : Notes → Notes} (keeps : ∀ notes, (update notes).moments = notes.moments) :
    Brief gentle (noting update) :=
  fun notes machine => ⟨keeps notes, machine, rfl, rfl, fun _ => List.prefix_rfl, fun _ => rfl⟩

end Brief

end Traced

section Leaves

open Traced

variable {gentle : Prop}

theorem brief_define (name : String) (value : Value) :
    Brief False (lift (Eval.define name value)) := by
  simp only [Eval.define, lift_bind]
  exact .bind .frame fun _ => .change False.elim

theorem brief_readVariable (rules : Rules) (id : RefId) (name : Identifier) :
    Brief gentle (lift (readVariable rules id name)) := by
  simp only [readVariable, lift_bind]
  refine .bind .frame fun frame => .bind (.inspect _) fun found => ?_
  cases found with
  | some value => exact .pure _
  | none => exact .fail _ _

theorem brief_writeVariable (rules : Rules) (id : RefId) (name : Identifier) (value : Value) :
    Brief False (lift (writeVariable rules id name value)) := by
  simp only [writeVariable, lift_bind]
  refine .bind .frame fun frame => .bind (.inspect _) fun written => ?_
  cases written with
  | some store => exact .change False.elim
  | none => exact .fail _ _

theorem brief_readThis (rules : Rules) (id : RefId) (position : Position) :
    Brief gentle (lift (readThis rules id position)) := by
  simp only [readThis, lift_bind]
  refine .bind .frame fun frame => .bind (.inspect _) fun found => ?_
  cases found with
  | some value => exact .pure _
  | none => exact .fail _ _

theorem brief_checkAccess (member : Member) (what : MemberKind) (name : String)
    (position : Position) : Brief gentle (lift (checkAccess member what name position)) := by
  simp only [checkAccess, lift_bind]
  refine .bind .frame fun frame => .bind (.inspect _) fun allowed => ?_
  split
  · exact .pure _
  · rw [lift_bind]
    exact .bind (.inspect _) fun owner => .fail _ _

private theorem brief_checkField (member : Option Member) (name : Identifier) :
    Brief gentle (lift (checkField member name)) := by
  cases member with
  | some member => exact brief_checkAccess member .field name.name name.position
  | none => exact .pure _

theorem brief_writeProperty (ref : InstanceRef) (name : Identifier) (value : Value) :
    Brief gentle (lift (writeProperty ref name value)) := by
  simp only [writeProperty, lift_bind]
  exact .bind (.inspect _) fun found => .bind (brief_checkField _ name) fun _ =>
    .change fun _ _ => List.prefix_rfl

theorem brief_assignIndex (object index value : Value) (position : Position) :
    Brief gentle (lift (assignIndex object index value position)) := by
  simp only [assignIndex, lift_bind]
  refine .bind (.inspect _) fun found => .bind (.attempt position found) fun place => .change ?_
  cases place <;> exact fun _ _ => List.prefix_rfl

theorem brief_checkArity (expected got : Nat) (position : Position) :
    Brief gentle (lift (checkArity expected got position)) := by
  unfold checkArity
  split
  · exact .pure _
  · exact .fail _ _

theorem brief_applyBuiltin (rules : Rules) (which : Builtin) (arguments : List Value)
    (position : Position) : Brief gentle (lift (applyBuiltin rules which arguments position)) := by
  unfold applyBuiltin
  split
  · rw [lift_bind]
    exact .bind (.readClock rules) fun reading => .pure _
  · exact .pure _
  · rw [lift_bind]
    exact .bind (.inspect _) fun size => .pure _
  · rw [lift_bind]
    exact .bind (.inspect _) fun size => .pure _
  · exact .fail _ _
  · rw [lift_bind]
    exact .bind (.inspect _) fun text => .pure _
  · simp only [lift_bind]
    exact .bind (.change fun _ _ => List.prefix_rfl) fun _ => .bind (.inspect _) fun size => .pure _
  · exact .fail _ _
  · exact .pure _
  · exact .fail _ _

theorem brief_callResult (closure : Closure) (flow : Flow) :
    Brief gentle (lift (callResult closure flow)) := by
  unfold callResult
  split
  · exact .inspect _
  · cases flow <;> exact .pure _

theorem brief_innerScope (body : Body) : Brief gentle (Traced.innerScope body) := by
  simp only [Traced.innerScope, Eval.innerScope, lift_bind]
  exact .bind (.noting fun _ => rfl) fun _ => .bind .frame fun frame => .addScope _

theorem brief_bindMethod (method : Method) (receiver : InstanceRef) :
    Brief gentle (Traced.bindMethod method receiver) :=
  .bind (.noting fun _ => rfl) fun _ => .add fun _ _ => by
    simp [Store.bindMethod, Store.addScope]

private theorem brief_boundMethod (method : Method) (receiver : InstanceRef) :
    Brief gentle (Traced.boundMethod method receiver) :=
  .bind (brief_bindMethod method receiver) fun _ =>
    .bind (.noting fun _ => rfl) fun _ => .bind (.add fun _ _ => List.prefix_rfl) fun _ => .pure _

theorem brief_readProperty (ref : InstanceRef) (name : Identifier) :
    Brief gentle (Traced.readProperty ref name) := by
  refine .bind (.inspect _) fun found => .bind (.inspect _) fun field => ?_
  cases field with
  | some value => exact .bind (brief_checkField _ name) fun _ => .pure _
  | none =>
    simp only
    split
    · exact .bind (brief_checkAccess _ _ _ _) fun _ => brief_boundMethod _ _
    · exact .fail _ _

theorem brief_readSuper (rules : Rules) (id : RefId) (position : Position) (method : Identifier) :
    Brief gentle (Traced.readSuper rules id position method) := by
  refine .bind .frame fun frame => .bind (.inspect _) fun found => ?_
  cases found with
  | none => exact .fail _ _
  | some pair =>
    simp only
    split
    · exact .fail _ _
    · exact .bind (brief_checkAccess _ _ _ _) fun _ => brief_boundMethod _ _

theorem brief_makeFunction (spot : Spot) (decl : FunctionDecl Stmt) :
    Brief gentle (Traced.makeFunction spot decl) := by
  simp only [Traced.makeFunction, Run.makeFunction, lift_bind]
  exact .bind (.noting fun _ => rfl) fun _ => .bind .frame fun frame =>
    .bind (.add fun _ _ => List.prefix_rfl) fun ref => .pure _

theorem brief_completeVariable (name : String) (value : Value) :
    Brief False (Traced.completeVariable name value) :=
  .bind .frame fun _ => .bind (brief_define name value) fun _ => .noting fun _ => rfl

private theorem brief_superclassOf (rules : Rules) (decl : ClassDecl Expr Stmt) :
    Brief gentle (lift (Traced.superclassOf rules decl)) := by
  unfold Traced.superclassOf
  split
  · exact .pure _
  · rw [lift_bind]
    refine .bind (brief_readVariable rules _ _) fun value => ?_
    cases value with
    | classObject ref => exact .pure _
    | _ => exact .fail _ _

private theorem brief_methodScopeOf (superclass : Option ClassRef) (outer : ScopeRef) :
    Brief gentle (lift (Traced.methodScopeOf superclass outer)) := by
  unfold Traced.methodScopeOf
  split
  · exact .pure _
  · exact .addScope _

theorem brief_declareClass (rules : Rules) (spot : Spot) (decl : ClassDecl Expr Stmt) :
    Brief False (Traced.declareClass rules spot decl) := by
  refine .bind .frame fun frame => .bind (brief_superclassOf rules decl) fun superclass => ?_
  refine .bind (.noting fun notes => ?_) fun _ => .bind (brief_methodScopeOf _ _) fun scope => ?_
  · split <;> rfl
  · exact .bind (.noting fun _ => rfl) fun _ => .bind (.add False.elim) fun ref => brief_define _ _

end Leaves

namespace Notes

def Adds (fits : Moment → Prop) (notes notes' : Notes) : Prop :=
  ∃ added, notes'.moments = added ++ notes.moments ∧ ∀ moment ∈ added, fits moment

namespace Adds

variable {fits : Moment → Prop} {moment : Moment} {notes notes' notes'' : Notes}

theorem of_eq (same : notes'.moments = notes.moments) : Adds fits notes notes' :=
  ⟨[], same, by simp⟩

theorem cons (new : fits moment) :
    Adds fits notes { notes with moments := moment :: notes.moments } :=
  ⟨[moment], rfl, List.forall_mem_singleton.mpr new⟩

theorem trans (adds : Adds fits notes notes') (adds' : Adds fits notes' notes'') :
    Adds fits notes notes'' := by
  obtain ⟨added, moments, fit⟩ := adds
  obtain ⟨more, moments', fit'⟩ := adds'
  exact ⟨more ++ added, by rw [moments', moments, List.append_assoc],
    List.forall_mem_append.mpr ⟨fit', fit⟩⟩

theorem mono {fits' : Moment → Prop} (adds : Adds fits notes notes')
    (imp : ∀ moment, fits moment → fits' moment) : Adds fits' notes notes' := by
  obtain ⟨added, moments, fit⟩ := adds
  exact ⟨added, moments, fun moment member => imp moment (fit moment member)⟩

theorem fits_of_fresh (adds : Adds fits notes notes') (fresh : notes.moments = [])
    (member : moment ∈ notes'.moments) : fits moment := by
  obtain ⟨added, moments, fit⟩ := adds
  rw [moments, fresh, List.append_nil] at member
  exact fit moment member

end Adds

end Notes

open Traced

theorem machine?_emit (line : String) (machine : Machine) :
    ∃ sink, (Eval.emit line machine).machine? = some (machine.over sink) := by
  unfold Eval.emit
  split <;> exact ⟨_, rfl⟩

/-- Notes other than moments are taken or looked up, and that is all. -/
def Traced.OnlyNotes {α : Type} (body : Traced α) : Prop :=
  ∀ notes machine, ∃ notes' value, body notes machine = (notes', .done value machine) ∧
    notes'.moments = notes.moments

/-- A relation that the moves of evaluation keep, between one that takes notes and one whose limit
on calls may be smaller. An idle evaluation declares nothing where it stands; any other has to stand
in an open scope. -/
structure Discipline (rules : Rules) (limit : Nat) where
  Holds : {α : Type} → Prop → Traced α → Eval α → Prop
  Open : ScopeRef → Prop
  /-- How many calls may be under way. -/
  Stands : Nat → Prop
  /-- How many set-ups of fields may be under way, given the steps that are left to each. -/
  Near : Nat → Nat → Nat → Prop
  allows : limit ≤ rules.maxDepth
  deeper : ∀ depth, depth < limit → Stands (depth + 1)
  near : ∀ {pending many few : Nat}, Near pending (many + 1) (few + 1) →
    Near pending many few ∧ Near (pending + 1) many few
  mono : ∀ {α : Type} {idle idle' : Prop} {traced : Traced α} {body : Eval α},
    Holds idle traced body → (idle' → idle) → Holds idle' traced body
  brief : ∀ {α : Type} {idle : Prop} {traced : Traced α} {body : Eval α},
    Brief True traced → traced.Erases body → Holds idle traced body
  exhaust : ∀ {α : Type} {idle : Prop} {pending many few : Nat} {traced : Traced α} {body : Eval α},
    Near pending many few → many = 0 ∨ few = 0 → (many = 0 → traced = lift Eval.exhaust) →
    (few = 0 → body = Eval.exhaust) → Holds idle traced body
  bind : ∀ {α β : Type} {idle : Prop} {traced : Traced α} {body : Eval α} {next : α → Traced β}
    {next' : α → Eval β}, Holds idle traced body →
    (∀ value, Holds idle (next value) (next' value)) →
    Holds idle (traced >>= next) (body >>= next')
  note : ∀ {α β : Type} {idle : Prop} {first : Traced α} {next : α → Traced β} {body : Eval β},
    first.OnlyNotes → (∀ value, Holds idle (next value) body) → Holds idle (first >>= next) body
  mark : ∀ {α : Type} {idle : Prop} {pending many few : Nat} {spot : Spot} {node : Node}
    {phase : Phase} {next : Unit → Traced α} {body : Eval α}, Near pending many few →
    Holds idle (next ()) body → Holds idle (Traced.mark pending spot node phase >>= next) body
  frame : ∀ {α : Type} {idle : Prop} {next : Frame → Traced α} {next' : Frame → Eval α},
    (∀ frame, Stands frame.depth → Holds idle (next frame) (next' frame)) →
    Holds idle (lift Eval.frame >>= next) (Eval.frame >>= next')
  within : ∀ {α : Type} {idle idle' : Prop} {traced : Traced α} {body : Eval α} {frame : Frame},
    Stands frame.depth → Holds idle traced body → idle ∨ Open frame.scope →
    Holds idle' (Traced.within frame traced) (Eval.within frame body)
  /-- A call may be refused to the second evaluation only. -/
  refused : limit < rules.maxDepth → ∀ {α : Type} {idle : Prop} {traced : Traced α} {body : Eval α}
    (position : Position) (name : String), ((∀ depth, Stands depth) → Holds idle traced body) →
    Holds idle traced (Eval.fail position (.callDepth limit name))
  addScope : ∀ {β : Type} {idle : Prop} {scope : Scope} {next : ScopeRef → Traced β}
    {next' : ScopeRef → Eval β}, (∀ ref, Open ref → Holds idle (next ref) (next' ref)) →
    Holds idle (lift (Eval.add fun store => store.addScope scope) >>= next)
      ((Eval.add fun store => store.addScope scope) >>= next')
  emit : ∀ {idle : Prop} line, Holds idle (lift (Eval.emit line)) (Eval.emit line)
  define : ∀ name value, Holds False (lift (Eval.define name value)) (Eval.define name value)
  assign : ∀ {idle : Prop} {pending many few : Nat}, Near pending many few →
    ∀ spot id name expr value,
    Holds idle (do
      Traced.mark pending spot (.expr (.assign id name expr)) (.acts [value])
      lift (writeVariable rules id name value)
      Pure.pure value) (do
      writeVariable rules id name value
      Pure.pure value)

namespace Discipline

variable {rules : Rules} {limit : Nat} (logic : Discipline rules limit) {α β : Type} {idle : Prop}

theorem lift {body : Eval α} (brief : Brief True (Traced.lift body)) :
    logic.Holds idle (Traced.lift body) body :=
  logic.brief brief (.lift body)

theorem pure (value : α) : logic.Holds idle (Pure.pure value) (Pure.pure value) :=
  logic.brief (.pure value) (.pure value)

theorem noting {update : Notes → Notes} {next : Unit → Traced β} {body : Eval β}
    (keeps : ∀ notes, (update notes).moments = notes.moments)
    (rest : logic.Holds idle (next ()) body) :
    logic.Holds idle (Traced.noting update >>= next) body :=
  logic.note (fun notes _ => ⟨update notes, (), rfl, keeps notes⟩) fun _ => rest

theorem consult {look : Notes → α} {next : α → Traced β} {body : Eval β}
    (rest : ∀ value, logic.Holds idle (next value) body) :
    logic.Holds idle (Traced.consult look >>= next) body :=
  logic.note (fun notes _ => ⟨notes, look notes, rfl, rfl⟩) rest

theorem inside (construct : Body) {next : ScopeRef → Traced β} {body : Eval β}
    (rest : ∀ ref, logic.Holds False (next ref) body) :
    logic.Holds idle (Traced.innerScope construct >>= fun ref => Traced.withinScope ref (next ref))
      (Eval.innerScope >>= fun ref => Eval.withinScope ref body) := by
  have inner : logic.Holds idle (do
      Traced.noting (Notes.addOrigin (some (.body construct)))
      let frame ← Traced.lift Eval.frame
      let ref ← Traced.lift (Eval.add fun store =>
        store.addScope { bindings := ∅, enclosing := some frame.scope })
      let frame ← Traced.lift Eval.frame
      Traced.within { frame with scope := ref } (next ref)) (do
      let frame ← Eval.frame
      let ref ← Eval.add fun store =>
        store.addScope { bindings := ∅, enclosing := some frame.scope }
      let frame ← Eval.frame
      Eval.within { frame with scope := ref } body) :=
    logic.noting (fun _ => rfl) (logic.frame fun _ _ => logic.addScope fun ref isOpen =>
      logic.frame fun _ stands => logic.within stands (rest ref) (.inr isOpen))
  exact inner

theorem completeVariable (name : String) (value : Value) :
    logic.Holds False (Traced.completeVariable name value) (Eval.define name value) := by
  have defined : logic.Holds False (do
      let frame ← Traced.lift Eval.frame
      Traced.lift (Eval.define name value)
      Traced.noting (Notes.addCompleted frame.scope name)) (do
      let _ ← Eval.frame
      Eval.define name value
      Pure.pure ()) :=
    logic.frame fun _ _ => logic.bind (logic.define name value) fun _ =>
      logic.brief (.noting fun _ => rfl) fun _ _ => rfl
  exact defined

theorem declareClass (spot : Spot) (decl : ClassDecl Expr Stmt) :
    logic.Holds False (Traced.declareClass rules spot decl)
      (Run.declareClass (rules.allowing limit) decl) := by
  rw [declareClass_eq]
  refine logic.frame fun frame _ => logic.bind (logic.lift (brief_superclassOf rules decl))
    fun superclass => logic.noting (fun notes => ?_) ?_
  · split <;> rfl
  · exact logic.bind (logic.lift (brief_methodScopeOf _ _)) fun _ => logic.noting (fun _ => rfl)
      (logic.bind (logic.lift (.add fun _ _ => List.prefix_rfl)) fun _ => logic.define _ _)

theorem limited {depth : Nat} {position : Position} {name : String} {traced : Traced α}
    {body : Eval α} (enters : logic.Stands (depth + 1) → logic.Holds idle traced body) :
    logic.Holds idle
      (if rules.maxDepth ≤ depth then
        Traced.lift (Eval.fail position (.callDepth rules.maxDepth name)) else traced)
      (if limit ≤ depth then Eval.fail position (.callDepth limit name) else body) := by
  have room := logic.allows
  by_cases full : limit ≤ depth
  · rw [if_pos full]
    rcases Nat.eq_or_lt_of_le room with rfl | less
    · rw [if_pos full]
      exact logic.lift (.fail _ _)
    · split
      · exact logic.refused less _ _ fun _ => logic.lift (.fail _ _)
      · exact logic.refused less _ _ fun stands => enters (stands _)
  · rw [if_neg full, if_neg (by omega)]
    exact enters (logic.deeper depth (by omega))

/-- With the given numbers of steps every rule keeps the relation. -/
structure Covers (many few : Nat) : Prop where
  evaluate : ∀ {pending} (idle : Prop), logic.Near pending many few → ∀ spot expr,
    logic.Holds idle (Traced.evaluate rules many pending spot expr)
      (Run.evaluate (rules.allowing limit) few expr)
  evaluateAll : ∀ {pending} (idle : Prop), logic.Near pending many few → ∀ spot exprs,
    logic.Holds idle (Traced.evaluateAll rules many pending spot exprs)
      (Run.evaluateAll (rules.allowing limit) few exprs)
  evaluateShown : ∀ {pending} (idle : Prop), logic.Near pending many few → ∀ spot exprs,
    logic.Holds idle (Traced.evaluateShown rules many pending spot exprs)
      (Run.evaluateShown (rules.allowing limit) few exprs)
  evaluateEntries : ∀ {pending} (idle : Prop), logic.Near pending many few → ∀ spot entries done,
    logic.Holds idle (Traced.evaluateEntries rules many pending spot entries done)
      (Run.evaluateEntries (rules.allowing limit) few entries done)
  evaluateOptional : ∀ {pending} (idle : Prop), logic.Near pending many few → ∀ spot expr,
    logic.Holds idle (Traced.evaluateOptional rules many pending spot expr)
      (Run.evaluateOptional (rules.allowing limit) few expr)
  call : ∀ {pending} (idle : Prop), logic.Near pending many few → ∀ callee arguments position,
    logic.Holds idle (Traced.call rules many pending callee arguments position)
      (Run.call (rules.allowing limit) few callee arguments position)
  callClosure : ∀ {pending} (idle : Prop), logic.Near pending many few →
    ∀ home closure arguments position, logic.Holds idle
      (Traced.callClosure rules many pending home closure arguments position)
      (Run.callClosure (rules.allowing limit) few closure arguments position)
  instantiate : ∀ {pending} (idle : Prop), logic.Near pending many few → ∀ ref arguments position,
    logic.Holds idle (Traced.instantiate rules many pending ref arguments position)
      (Run.instantiate (rules.allowing limit) few ref arguments position)
  setUpLineage : ∀ {pending} (idle : Prop), logic.Near pending many few → ∀ lineage receiver,
    logic.Holds idle (Traced.setUpLineage rules many pending lineage receiver)
      (Run.setUpLineage (rules.allowing limit) few lineage receiver)
  setUpFields : ∀ {pending} (idle : Prop), logic.Near pending many few → ∀ spot fields receiver,
    logic.Holds idle (Traced.setUpFields rules many pending spot fields receiver)
      (Run.setUpFields (rules.allowing limit) few fields receiver)
  execute : ∀ {pending}, logic.Near pending many few → ∀ spot stmt,
    logic.Holds stmt.Idle (Traced.execute rules many pending spot stmt)
      (Run.execute (rules.allowing limit) few stmt)
  executeAll : ∀ {pending}, logic.Near pending many few → ∀ spot stmts,
    logic.Holds False (Traced.executeAll rules many pending spot stmts)
      (Run.executeAll (rules.allowing limit) few stmts)
  executeOptional : ∀ {pending}, logic.Near pending many few → ∀ spot stmt,
    logic.Holds (∀ found ∈ stmt, Stmt.Idle found)
      (Traced.executeOptional rules many pending spot stmt)
      (Run.executeOptional (rules.allowing limit) few stmt)
  runLoop : ∀ {pending}, logic.Near pending many few → ∀ spot initial condition increment body,
    logic.Holds False (Traced.runLoop rules many pending spot initial condition increment body)
      (Run.runLoop (rules.allowing limit) few initial condition increment body)
  repeatLoop : ∀ {pending}, logic.Near pending many few → ∀ spot condition increment body,
    logic.Holds body.Idle (Traced.repeatLoop rules many pending spot condition increment body)
      (Run.repeatLoop (rules.allowing limit) few condition increment body)
  loopCondition : ∀ {pending} (idle : Prop), logic.Near pending many few → ∀ spot condition,
    logic.Holds idle (Traced.loopCondition rules many pending spot condition)
      (Run.loopCondition (rules.allowing limit) few condition)

namespace Covers

variable {logic} {pending many few : Nat}

theorem base (ends : many = 0 ∨ few = 0) : logic.Covers many few := by
  constructor <;> intros <;> refine logic.exhaust ‹_› ends ?_ ?_ <;> rintro rfl
  all_goals
    first
    | rfl
    | simp only [Traced.evaluate, Traced.evaluateAll, Traced.evaluateShown, Traced.evaluateEntries,
        Traced.evaluateOptional, Traced.call, Traced.callClosure, Traced.instantiate,
        Traced.setUpLineage, Traced.setUpFields, Traced.execute, Traced.executeAll,
        Traced.executeOptional, Traced.runLoop, Traced.repeatLoop, Traced.loopCondition]

section Steps

variable (ih : logic.Covers many few) (near : logic.Near pending (many + 1) (few + 1))

include ih near

theorem succ_evaluate (idle : Prop) (spot : Spot) (expr : Expr) :
    logic.Holds idle (Traced.evaluate rules (many + 1) pending spot expr)
      (Run.evaluate (rules.allowing limit) (few + 1) expr) := by
  have inner := (logic.near near).1
  have one (expr : Expr) : logic.Holds idle _ _ := ih.evaluate _ inner spot expr
  rw [Traced.evaluate.eq_def]
  refine logic.mark near ?_
  cases expr with
  | literal value position => exact logic.pure _
  | unary operator operand position =>
    exact logic.bind (one _) fun _ => logic.lift (.attempt _ _)
  | binary left operator right position =>
    exact logic.bind (one _) fun _ => logic.bind (one _) fun _ => logic.lift (.attempt _ _)
  | logical left operator right =>
    refine logic.bind (one _) fun _ => logic.bind (logic.lift (.attempt _ _)) fun _ => ?_
    split
    · exact logic.pure _
    · exact one _
  | group value => exact one _
  | reference id name => exact logic.mark near (logic.lift (brief_readVariable rules _ _))
  | assign id name value => exact logic.bind (one _) fun _ => logic.assign near _ _ _ _ _
  | call callee position arguments =>
    exact logic.bind (one _) fun _ => logic.bind (ih.evaluateAll _ inner _ _) fun _ =>
      logic.mark near (ih.call _ inner _ _ _)
  | property object name =>
    refine logic.bind (one _) fun object => ?_
    cases object with
    | object ref =>
      exact logic.mark near (logic.brief (brief_readProperty _ _) (readProperty_erases _ _))
    | _ => exact logic.lift (.fail _ _)
  | setProperty object name value =>
    refine logic.bind (one _) fun object => ?_
    cases object with
    | object ref =>
      exact logic.bind (one _) fun _ => logic.mark near
        (logic.bind (logic.lift (brief_writeProperty _ _ _)) fun _ => logic.pure _)
    | _ => exact logic.lift (.fail _ _)
  | index object key position =>
    exact logic.bind (one _) fun _ => logic.bind (one _) fun _ =>
      logic.bind (logic.lift (.inspect _)) fun _ => logic.lift (.attempt _ _)
  | setIndex object key value position =>
    exact logic.bind (one _) fun _ => logic.bind (one _) fun _ => logic.bind (one _) fun _ =>
      logic.bind (logic.lift (brief_assignIndex _ _ _ _)) fun _ => logic.pure _
  | array elements position =>
    exact logic.bind (ih.evaluateAll _ inner _ _) fun _ =>
      logic.bind (logic.lift (.add fun _ _ => List.prefix_rfl)) fun _ => logic.pure _
  | map entries position =>
    exact logic.bind (ih.evaluateEntries _ inner _ _ _) fun _ =>
      logic.bind (logic.lift (.add fun _ _ => List.prefix_rfl)) fun _ => logic.pure _
  | this id position => exact logic.mark near (logic.lift (brief_readThis rules _ _))
  | super id position method =>
    exact logic.mark near (logic.brief (brief_readSuper rules _ _ _) (readSuper_erases rules _ _ _))
  | lambda decl => exact logic.brief (brief_makeFunction _ _) (makeFunction_erases _ _)

theorem succ_call (idle : Prop) (callee : Value) (arguments : List Value) (position : Position) :
    logic.Holds idle (Traced.call rules (many + 1) pending callee arguments position)
      (Run.call (rules.allowing limit) (few + 1) callee arguments position) := by
  have inner := (logic.near near).1
  rw [Traced.call.eq_def]
  cases callee with
  | builtin which =>
    exact logic.bind (logic.lift (brief_checkArity _ _ _)) fun _ =>
      logic.lift (brief_applyBuiltin rules _ _ _)
  | function ref =>
    refine logic.bind (logic.lift (.inspect _)) fun found => ?_
    cases found with
    | some closure => exact logic.consult fun _ => ih.callClosure _ inner _ _ _ _
    | none => exact logic.lift (.fail _ _)
  | classObject ref => exact ih.instantiate _ inner _ _ _
  | _ => exact logic.lift (.fail _ _)

theorem succ_callClosure (idle : Prop) (home : Spot) (closure : Closure) (arguments : List Value)
    (position : Position) :
    logic.Holds idle (Traced.callClosure rules (many + 1) pending home closure arguments position)
      (Run.callClosure (rules.allowing limit) (few + 1) closure arguments position) := by
  rw [Traced.callClosure, Run.callClosure]
  refine logic.bind (logic.lift (brief_checkArity _ _ _)) fun _ => logic.frame fun caller _ => ?_
  exact logic.limited fun stands => logic.noting (fun _ => rfl) <| logic.addScope fun _ isOpen =>
    logic.bind (logic.within stands (ih.executeAll (logic.near near).1 _ _) (.inr isOpen)) fun _ =>
      logic.lift (brief_callResult _ _)

theorem succ_instantiate (idle : Prop) (ref : ClassRef) (arguments : List Value)
    (position : Position) :
    logic.Holds idle (Traced.instantiate rules (many + 1) pending ref arguments position)
      (Run.instantiate (rules.allowing limit) (few + 1) ref arguments position) := by
  have inner := (logic.near near).1
  rw [Traced.instantiate]
  refine logic.bind (logic.lift (.inspect _)) fun found => ?_
  cases found with
  | none => exact logic.lift (.fail _ _)
  | some made =>
    refine logic.bind (logic.lift (brief_checkArity _ _ _)) fun _ => ?_
    cases made.methods.find? constructorName with
    | none =>
      exact logic.bind (logic.lift (.add fun _ _ => List.prefix_rfl)) fun _ =>
        logic.bind (logic.lift (.inspect _)) fun _ =>
          logic.bind (ih.setUpLineage _ inner _ _) fun _ => logic.pure _
    | some constructor =>
      refine logic.bind (logic.lift (brief_checkAccess _ _ _ _)) fun _ =>
        logic.bind (logic.lift (.add fun _ _ => List.prefix_rfl)) fun _ =>
          logic.bind (logic.lift (.inspect _)) fun _ => ?_
      refine logic.bind (ih.setUpLineage _ inner _ _) fun _ =>
        logic.bind (logic.brief (brief_bindMethod _ _) (bindMethod_erases _ _)) fun _ =>
          logic.consult fun _ => ?_
      exact logic.bind (ih.callClosure _ inner _ _ _ _) fun _ => logic.pure _

theorem succ_execute (spot : Spot) (stmt : Stmt) :
    logic.Holds stmt.Idle (Traced.execute rules (many + 1) pending spot stmt)
      (Run.execute (rules.allowing limit) (few + 1) stmt) := by
  have inner := (logic.near near).1
  rw [Traced.execute.eq_def]
  refine logic.mark near ?_
  cases stmt with
  | expression value => exact logic.bind (ih.evaluate _ inner _ _) fun _ => logic.pure _
  | print keyword values =>
    exact logic.bind (ih.evaluateShown _ inner _ _) fun _ =>
      logic.bind (logic.emit _) fun _ => logic.pure _
  | var name typeHint initial =>
    refine logic.bind (ih.evaluateOptional _ inner _ _) fun value => ?_
    exact logic.bind (logic.completeVariable _ value) fun _ => logic.pure _
  | block body => exact logic.inside _ fun ref => ih.executeAll inner _ _
  | branch condition whenTrue whenFalse =>
    refine logic.bind (ih.evaluate _ inner _ _) fun _ =>
      logic.bind (logic.lift (.attempt _ _)) fun _ => ?_
    split
    · refine logic.mono (ih.execute inner _ _) ?_
      cases whenFalse <;> simp +contextual [Stmt.Idle]
    · refine logic.mono (ih.executeOptional inner _ _) ?_
      cases whenFalse <;> simp +contextual [Stmt.Idle]
  | loop condition body =>
    simp only [Stmt.Idle]
    exact ih.repeatLoop inner _ _ _ _
  | countedLoop initial condition increment body =>
    exact logic.inside _ fun ref => ih.runLoop inner _ _ _ _ _
  | function decl =>
    exact logic.bind (logic.brief (brief_makeFunction _ _) (makeFunction_erases _ _)) fun _ =>
      logic.bind (logic.define _ _) fun _ => logic.pure _
  | returnValue keyword value =>
    exact logic.bind (ih.evaluateOptional _ inner _ _) fun _ => logic.pure _
  | breakLoop keyword => exact logic.pure _
  | continueLoop keyword => exact logic.pure _
  | classDecl decl =>
    exact logic.mark near (logic.bind (logic.declareClass _ _) fun _ => logic.pure _)

theorem succ_repeatLoop (spot : Spot) (condition increment : Option Expr) (body : Stmt) :
    logic.Holds body.Idle (Traced.repeatLoop rules (many + 1) pending spot condition increment body)
      (Run.repeatLoop (rules.allowing limit) (few + 1) condition increment body) := by
  have inner := (logic.near near).1
  have again := logic.bind (ih.evaluateOptional _ inner spot increment)
    fun _ => ih.repeatLoop inner spot condition increment body
  rw [Traced.repeatLoop]
  refine logic.bind (ih.loopCondition _ inner _ _) fun holds => ?_
  split
  · refine logic.bind (ih.execute inner _ _) fun flow => ?_
    cases flow with
    | broken => exact logic.pure _
    | returned value => exact logic.pure _
    | normal => exact again
    | continued => exact again
  · exact logic.pure _

end Steps

theorem succ (ih : logic.Covers many few) : logic.Covers (many + 1) (few + 1) where
  evaluate idle near := ih.succ_evaluate near idle
  evaluateAll _ near spot exprs := by
    have inner := (logic.near near).1
    cases exprs <;> rw [Traced.evaluateAll]
    case nil => exact logic.pure _
    case cons =>
      exact logic.bind (ih.evaluate _ inner _ _) fun _ =>
        logic.bind (ih.evaluateAll _ inner _ _) fun _ => logic.pure _
  evaluateShown _ near spot exprs := by
    have inner := (logic.near near).1
    cases exprs <;> rw [Traced.evaluateShown]
    case nil => exact logic.pure _
    case cons =>
      exact logic.bind (ih.evaluate _ inner _ _) fun _ =>
        logic.bind (logic.lift (.inspect _)) fun _ =>
          logic.bind (ih.evaluateShown _ inner _ _) fun _ => logic.pure _
  evaluateEntries _ near spot entries done := by
    have inner := (logic.near near).1
    cases entries <;> rw [Traced.evaluateEntries]
    case nil => exact logic.pure _
    case cons =>
      exact logic.bind (ih.evaluate _ inner _ _) fun _ =>
        logic.bind (logic.lift (.attempt _ _)) fun _ =>
          logic.bind (ih.evaluate _ inner _ _) fun _ => ih.evaluateEntries _ inner _ _ _
  evaluateOptional _ near spot expr := by
    cases expr <;> rw [Traced.evaluateOptional]
    case none => exact logic.pure _
    case some => exact ih.evaluate _ (logic.near near).1 _ _
  call idle near := ih.succ_call near idle
  callClosure idle near := ih.succ_callClosure near idle
  instantiate idle near := ih.succ_instantiate near idle
  setUpLineage _ near lineage receiver := by
    obtain ⟨inner, deeper⟩ := logic.near near
    cases lineage <;> rw [Traced.setUpLineage]
    case nil => exact logic.pure _
    case cons =>
      refine logic.bind (logic.lift (.inspect _)) fun found => ?_
      cases found with
      | none => exact ih.setUpLineage _ inner _ _
      | some found =>
        exact logic.frame fun _ stands => logic.consult fun _ => logic.bind
          (logic.within stands (ih.setUpFields _ deeper _ _ _) (.inl trivial)) fun _ =>
            ih.setUpLineage _ inner _ _
  setUpFields _ near spot fields receiver := by
    have inner := (logic.near near).1
    cases fields <;> rw [Traced.setUpFields]
    case nil => exact logic.pure _
    case cons =>
      exact logic.bind (ih.evaluateOptional _ inner _ _) fun _ =>
        logic.bind (logic.lift (.change fun _ _ => List.prefix_rfl)) fun _ =>
          ih.setUpFields _ inner _ _ _
  execute := ih.succ_execute
  executeAll near spot stmts := by
    have inner := (logic.near near).1
    cases stmts <;> rw [Traced.executeAll]
    case nil => exact logic.pure _
    case cons =>
      refine logic.bind (logic.mono (ih.execute inner _ _) False.elim) fun flow => ?_
      cases flow with
      | normal => exact ih.executeAll inner _ _
      | _ => exact logic.pure _
  executeOptional near spot stmt := by
    cases stmt <;> rw [Traced.executeOptional]
    case none => exact logic.pure _
    case some => exact logic.mono (ih.execute (logic.near near).1 _ _) fun idle => idle _ rfl
  runLoop near spot initial condition increment body := by
    have inner := (logic.near near).1
    rw [Traced.runLoop]
    exact logic.bind (logic.mono (ih.executeOptional inner _ _) False.elim) fun _ =>
      logic.mono (ih.repeatLoop inner _ _ _ _) False.elim
  repeatLoop := ih.succ_repeatLoop
  loopCondition _ near spot condition := by
    cases condition <;> rw [Traced.loopCondition]
    case none => exact logic.pure _
    case some =>
      exact logic.bind (ih.evaluate _ (logic.near near).1 _ _) fun _ => logic.lift (.attempt _ _)

end Covers

theorem covers (many few : Nat) : logic.Covers many few := by
  induction many generalizing few with
  | zero => exact .base (.inl rfl)
  | succ many ih =>
    cases few with
    | zero => exact .base (.inr rfl)
    | succ few => exact (ih few).succ

theorem interpret {many few : Nat} (near : logic.Near 0 many few) (program : List Stmt) :
    logic.Holds False (Traced.interpret rules many program)
      (Run.interpret (rules.allowing limit) few program) := by
  induction program with
  | nil => exact logic.pure _
  | cons stmt rest ih =>
    exact logic.bind (logic.mono ((logic.covers many few).execute near _ stmt) False.elim)
      fun _ => ih

end Discipline

theorem Rules.allows_own (rules : Rules) : rules.maxDepth ≤ rules.maxDepth :=
  Nat.le_refl _

theorem near_of_eq {_ many few : Nat} (same : many + 1 = few + 1) : many = few ∧ many = few :=
  ⟨Nat.succ.inj same, Nat.succ.inj same⟩

def Traced.erasing (rules : Rules) : Discipline rules rules.maxDepth where
  Holds _ traced body := traced.Erases body
  Open _ := True
  Stands _ := True
  Near _ many few := many = few
  allows := rules.allows_own
  deeper _ _ := trivial
  near := @near_of_eq
  mono erases _ := erases
  brief _ erases := erases
  exhaust same ends lacks lacks' := by
    obtain rfl := same
    rw [lacks (or_self_iff.mp ends), lacks' (or_self_iff.mp ends)]
    exact .lift _
  bind := .bind
  note only rest notes machine := by
    obtain ⟨notes', value, result, -⟩ := only notes machine
    simp only [Bind.bind, result]
    exact rest value notes' machine
  mark _ rest := .mark rest
  frame rest := .bind (.lift _) fun frame => rest frame trivial
  within _ erases _ := .within _ erases
  refused less := absurd less (Nat.lt_irrefl _)
  addScope rest := .bind (.lift _) fun ref => rest ref trivial
  emit _ := .lift _
  define _ _ := .lift _
  assign _ _ _ _ _ _ := .mark (.bind (.lift _) fun _ => .pure _)

theorem Traced.erases (rules : Rules) (steps : Nat) : (erasing rules).Covers steps steps :=
  (erasing rules).covers steps steps

end Run

end ClassScript
