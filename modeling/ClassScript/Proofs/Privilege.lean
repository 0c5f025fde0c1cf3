import ClassScript.Proofs.Chronicle

/-!
Access privilege is lexical: at every moment the class that is being executed was made from the
innermost class declaration around the code.
-/

set_option autoImplicit false

namespace ClassScript.Run

variable {store : Store} {after machine : Machine} {α β : Type} {member : Member}
  {position : Position} {found parent : ClassObject} {value : Value} {method : Method} {depth : Nat}
  {receiver : InstanceRef} {rules : Rules} {kind : MemberKind} {moment : Moment}

private theorem inherits_of_isSubclass {ref other : ClassRef}
    (isSubclass : store.isSubclass ref other = true) : Inherits store ref other :=
  inherits_of_mem_chainFrom (List.contains_iff_mem.mp isSubclass)

def Declares (decl : ClassDecl Expr Stmt) (kind : MemberKind) (name : String)
    (visibility : Visibility) : Prop :=
  match kind with
  | .field => DeclaresField decl name visibility
  | .method | .constructor => ∃ function, DeclaresMethod decl name visibility function

inductive Access (rules : Rules) (moment : Moment) : MemberKind → String → Member → Prop
  | fieldRead {object : Expr} {name : Identifier} {ref : InstanceRef} {value result : Value}
      {found : ClassObject} {member : Member} {after : Machine}
      (node : moment.node = .expr (.property object name))
      (phase : moment.phase = .acts [.object ref])
      (set : moment.machine.store.getField? ref name.name = some value)
      (known : moment.machine.store.classOf? ref = some found)
      (declared : found.fields.find? name.name = some member)
      (succeeds : readProperty ref name moment.machine = .done result after) :
      Access rules moment .field name.name member
  | methodRead {object : Expr} {name : Identifier} {ref : InstanceRef} {result : Value}
      {found : ClassObject} {method : Method} {after : Machine}
      (node : moment.node = .expr (.property object name))
      (phase : moment.phase = .acts [.object ref])
      (unset : moment.machine.store.getField? ref name.name = none)
      (known : moment.machine.store.classOf? ref = some found)
      (declared : found.methods.find? name.name = some method)
      (succeeds : readProperty ref name moment.machine = .done result after) :
      Access rules moment .method name.name method.member
  | fieldWrite {object operand : Expr} {name : Identifier} {ref : InstanceRef} {value : Value}
      {found : ClassObject} {member : Member} {after : Machine}
      (node : moment.node = .expr (.setProperty object name operand))
      (phase : moment.phase = .acts [.object ref, value])
      (known : moment.machine.store.classOf? ref = some found)
      (declared : found.fields.find? name.name = some member)
      (succeeds : writeProperty ref name value moment.machine = .done () after) :
      Access rules moment .field name.name member
  | superRead {id : RefId} {position : Position} {name : Identifier} {parent : ClassObject}
      {receiver : InstanceRef} {depth : Nat} {method : Method} {result : Value} {after : Machine}
      (node : moment.node = .expr (.super id position name)) (phase : moment.phase = .acts [])
      (recorded : rules.depths.find? id = some depth)
      (pair : superPair moment.machine.store moment.machine.frame.scope depth =
        some (parent, receiver))
      (declared : parent.methods.find? name.name = some method)
      (succeeds : readSuper rules id position name moment.machine = .done result after) :
      Access rules moment .method name.name method.member
  | construction {callee : Expr} {position : Position} {operands : List Expr} {ref : ClassRef}
      {arguments : List Value} {made : ClassObject} {method : Method} {steps : Nat} {result : Value}
      {after : Machine}
      (node : moment.node = .expr (.call callee position operands))
      (phase : moment.phase = .acts (.classObject ref :: arguments))
      (known : moment.machine.store.classes[ref]? = some made)
      (declared : made.methods.find? constructorName = some method)
      (succeeds : call rules steps (.classObject ref) arguments position moment.machine =
        .done result after) :
      Access rules moment .constructor constructorName method.member

theorem exists_done_of_bind {first : Eval α} {next : α → Eval β} {result : β}
    (ends : (first >>= next) machine = .done result after) :
    ∃ value middle, first machine = .done value middle ∧
      next value middle = .done result after := by
  simp only [bind] at ends
  cases begin : first machine with
  | done value middle => exact ⟨value, middle, rfl, by simpa [begin] using ends⟩
  | stopped reason middle => simp [begin] at ends
  | exhausted => simp [begin] at ends

private theorem mayUse_of_checkAccess {what : MemberKind} {name : String} {next : Unit → Eval α}
    {result : α}
    (ends : (checkAccess member what name position >>= next) machine = .done result after) :
    mayUse machine.store machine.frame.classRef member = true := by
  by_contra refused
  simp [checkAccess, Eval.frame, Eval.inspect, Eval.fail, bind, refused] at ends

theorem inspect_bind (look : Store → α) (next : α → Eval β) (machine : Machine) :
    (Eval.inspect look >>= next) machine = next (look machine.store) machine := rfl

theorem frame_bind (next : Frame → Eval β) (machine : Machine) :
    (Eval.frame >>= next) machine = next machine.frame machine := rfl

theorem checkAccess_eq (member : Member) (what : MemberKind) (name : String) (position : Position)
    (machine : Machine) :
    checkAccess member what name position machine =
      if mayUse machine.store machine.frame.classRef member then .done () machine
      else .stopped (.fault
        { value := .access member.visibility what name
            ((machine.store.classes[member.owner]?.map ClassObject.name).getD "<unknown>")
          position }) machine := by
  simp only [checkAccess, frame_bind, inspect_bind]
  split <;> rfl

private theorem mayUse_of_readField {ref : InstanceRef} {name : Identifier} {result : Value}
    (set : machine.store.getField? ref name.name = some value)
    (known : machine.store.classOf? ref = some found)
    (declared : found.fields.find? name.name = some member)
    (succeeds : readProperty ref name machine = .done result after) :
    mayUse machine.store machine.frame.classRef member = true := by
  simp only [readProperty, inspect_bind, set, known, Option.bind_some, declared] at succeeds
  exact mayUse_of_checkAccess succeeds

private theorem mayUse_of_readMethod {ref : InstanceRef} {name : Identifier} {result : Value}
    (unset : machine.store.getField? ref name.name = none)
    (known : machine.store.classOf? ref = some found)
    (declared : found.methods.find? name.name = some method)
    (succeeds : readProperty ref name machine = .done result after) :
    mayUse machine.store machine.frame.classRef method.member = true := by
  simp only [readProperty, inspect_bind, unset, known, Option.bind_some, declared] at succeeds
  exact mayUse_of_checkAccess succeeds

private theorem mayUse_of_writeField {ref : InstanceRef} {name : Identifier} {result : Unit}
    (known : machine.store.classOf? ref = some found)
    (declared : found.fields.find? name.name = some member)
    (succeeds : writeProperty ref name value machine = .done result after) :
    mayUse machine.store machine.frame.classRef member = true := by
  simp only [writeProperty, inspect_bind, known, Option.bind_some, declared] at succeeds
  exact mayUse_of_checkAccess succeeds

private theorem mayUse_of_readSuper {id : RefId} {name : Identifier} {result : Value}
    (recorded : rules.depths.find? id = some depth)
    (pair : superPair machine.store machine.frame.scope depth = some (parent, receiver))
    (declared : parent.methods.find? name.name = some method)
    (succeeds : readSuper rules id position name machine = .done result after) :
    mayUse machine.store machine.frame.classRef method.member = true := by
  simp only [readSuper, inspect_bind, frame_bind, recorded, Option.bind_some, pair, declared]
    at succeeds
  exact mayUse_of_checkAccess succeeds

theorem checkArity_done {expected got : Nat} {result : Unit}
    (ends : checkArity expected got position machine = .done result after) : after = machine := by
  unfold checkArity at ends
  split at ends
  · exact (Outcome.done.inj ends).2.symm
  · cases ends

private theorem mayUse_of_construction {steps : Nat} {ref : ClassRef} {arguments : List Value}
    {made : ClassObject} {result : Value} (known : machine.store.classes[ref]? = some made)
    (declared : made.methods.find? constructorName = some method)
    (succeeds : call rules steps (.classObject ref) arguments position machine =
      .done result after) : mayUse machine.store machine.frame.classRef method.member = true := by
  cases steps with
  | zero => simp [call, Eval.exhaust] at succeeds
  | succ steps =>
    rw [call] at succeeds
    cases steps with
    | zero => simp [instantiate, Eval.exhaust] at succeeds
    | succ steps =>
      simp only [instantiate, inspect_bind, known, declared] at succeeds
      obtain ⟨_, middle, arity, rest⟩ := exists_done_of_bind succeeds
      obtain rfl := checkArity_done arity
      exact mayUse_of_checkAccess rest

private theorem Access.mayUse {name : String} (access : Access rules moment kind name member) :
    mayUse moment.machine.store moment.machine.frame.classRef member = true := by
  cases access with
  | fieldRead _ _ set known declared succeeds =>
    exact mayUse_of_readField set known declared succeeds
  | methodRead _ _ unset known declared succeeds =>
    exact mayUse_of_readMethod unset known declared succeeds
  | fieldWrite _ _ known declared succeeds => exact mayUse_of_writeField known declared succeeds
  | superRead _ _ recorded pair declared succeeds =>
    exact mayUse_of_readSuper recorded pair declared succeeds
  | construction _ _ known declared succeeds => exact mayUse_of_construction known declared succeeds

private theorem exists_of_superPair {scope : ScopeRef}
    (pair : superPair store scope depth = some (parent, receiver)) :
    ∃ ref : Nat, store.classes[ref]? = some parent := by
  unfold superPair at pair
  split at pair
  · split at pair
    · rename_i stored
      obtain ⟨rfl, -⟩ := Prod.mk.inj (Option.some.inj pair)
      exact ⟨_, stored⟩
    · simp at pair
  · simp at pair

private theorem Access.declares {name : String} (access : Access rules moment kind name member)
    (tables : TablesFit moment.machine.store) :
    ∃ owner, moment.machine.store.classes[member.owner]? = some owner ∧
      Declares owner.decl kind name member.visibility := by
  have ofMethod {ref : Nat} {found : ClassObject} {name : String} {method : Method}
      (stored : moment.machine.store.classes[ref]? = some found)
      (lookup : found.methods.find? name = some method) :
      ∃ owner, moment.machine.store.classes[method.member.owner]? = some owner ∧
        ∃ function, DeclaresMethod owner.decl name method.member.visibility function := by
    obtain ⟨-, owner, ownerStored, declares⟩ := tables.methods ref found name method stored lookup
    exact ⟨owner, ownerStored, _, declares⟩
  cases access with
  | fieldRead _ _ _ known declared _ =>
    obtain ⟨ref, stored⟩ := exists_of_classOf? known
    exact tables.fields ref _ _ member stored declared
  | methodRead _ _ _ known declared _ =>
    obtain ⟨ref, stored⟩ := exists_of_classOf? known
    exact ofMethod stored declared
  | fieldWrite _ _ known declared _ =>
    obtain ⟨ref, stored⟩ := exists_of_classOf? known
    exact tables.fields ref _ _ member stored declared
  | superRead _ _ _ pair declared _ =>
    obtain ⟨ref, stored⟩ := exists_of_superPair pair
    exact ofMethod stored declared
  | construction _ _ known declared _ => exact ofMethod known declared

/-- Who uses a member that a class declares: for a private member it is code in the text of the
owner, executed for the owner; for a protected one, code in the text of a class that inherits from
it. -/
structure Privileged (moment : Moment) (kind : MemberKind) (name : String) (member : Member)
    (owner : ClassObject) : Prop where
  stored : moment.machine.store.classes[member.owner]? = some owner
  declares : Declares owner.decl kind name member.visibility
  ofOwner : member.visibility = .owner →
    moment.machine.frame.classRef = some member.owner ∧
      moment.spot.nesting.owner = some owner.decl
  ofHeirs : member.visibility = .heirs → ∃ ref heir,
    moment.machine.frame.classRef = some ref ∧ moment.machine.store.classes[ref]? = some heir ∧
      moment.spot.nesting.owner = some heir.decl ∧ Inherits moment.machine.store ref member.owner

private theorem owner_of_current {nesting : Nesting} {ref : ClassRef}
    (fits : OwnerFits store nesting (some ref)) :
    ∃ found, store.classes[ref]? = some found ∧ nesting.owner = some found.decl := by
  unfold OwnerFits at fits
  cases known : nesting.owner with
  | none => simp [known] at fits
  | some decl =>
    simp only [known] at fits
    obtain ⟨ref', found, same, stored, rfl⟩ := fits
    obtain rfl := Option.some.inj same
    exact ⟨found, stored, rfl⟩

/-- At a sound moment, whoever succeeds in using a member is privileged. -/
theorem Moment.Sound.privileged {text : Site → Prop} (sound : moment.Sound text) {name : String}
    (access : Access rules moment kind name member) :
    ∃ owner, Privileged moment kind name member owner := by
  obtain ⟨owner, stored, declares⟩ := access.declares sound.tables
  have allowed := access.mayUse
  have fits := sound.standing.owner
  refine ⟨owner, stored, declares, ?_, ?_⟩
  · intro isPrivate
    cases current : moment.machine.frame.classRef with
    | none => simp [Run.mayUse, isPrivate, current] at allowed
    | some ref =>
      obtain rfl : ref = member.owner := by simpa [Run.mayUse, isPrivate, current] using allowed
      rw [current] at fits
      obtain ⟨found, stored', inside⟩ := owner_of_current fits
      obtain rfl := Option.some.inj (stored.symm.trans stored')
      exact ⟨rfl, inside⟩
  · intro isProtected
    cases current : moment.machine.frame.classRef with
    | none => simp [Run.mayUse, isProtected, current] at allowed
    | some ref =>
      have isSubclass : moment.machine.store.isSubclass ref member.owner = true := by
        simpa [Run.mayUse, isProtected, current] using allowed
      rw [current] at fits
      obtain ⟨heir, stored', inside⟩ := owner_of_current fits
      exact ⟨ref, heir, rfl, stored', inside, inherits_of_isSubclass isSubclass⟩

/-- In whatever a session is asked, the class that is being executed is at every moment made from
the innermost class declaration around the code, and members that are not public are used by code in
the text of the classes that they are for only. -/
theorem privilege_is_lexical {chronicle : Chronicle} (reached : chronicle.Reached) (steps : Nat)
    (input : Input) :
    (chronicle.ask steps input).2 = chronicle.session.respond steps input ∧
    ∀ moment ∈ (chronicle.ask steps input).1.moments,
      moment.site ∈ chronicle.sitesWith input ∧
      OwnerFits moment.machine.store moment.spot.nesting moment.machine.frame.classRef ∧
      ∀ kind name member, Access (chronicle.session.check input).2.rules moment kind name member →
        ∃ owner, Privileged moment kind name member owner := by
  refine ⟨Chronicle.ask_reply steps chronicle input, ?_⟩
  intro moment isMoment
  have sound := reached.sound.moments_sound steps input isMoment
  refine ⟨sound.site, sound.standing.owner, ?_⟩
  intro kind name member access
  exact sound.privileged access

def Moment.fieldRead? (moment : Moment) : Option (String × Member) :=
  match moment.node, moment.phase with
  | .expr (.property _ name), .acts [.object ref] =>
    match moment.machine.store.getField? ref name.name, moment.machine.store.classOf? ref,
      readProperty ref name moment.machine with
    | some _, some found, .done _ _ => (found.fields.find? name.name).map fun member =>
      (name.name, member)
    | _, _, _ => none
  | _, _ => none

theorem Moment.access_of_fieldRead? {name : String}
    (reads : moment.fieldRead? = some (name, member)) (rules : Rules) :
    Access rules moment .field name member := by
  unfold fieldRead? at reads
  split at reads
  · rename_i node phase
    split at reads
    · rename_i set known succeeds
      obtain ⟨declared, lookup, same⟩ := Option.map_eq_some_iff.mp reads
      obtain ⟨rfl, rfl⟩ := Prod.mk.inj same
      exact .fieldRead node phase set known lookup succeeds
    · simp at reads
  · simp at reads

/-- A function inside a method reads a private field of the class. -/
theorem private_read_is_lexical :
    ∃ chronicle : Chronicle, chronicle.Reached ∧
      ∃ moment ∈ (chronicle.ask 40 (.program
        "class A { private var x; fn f() -> fn () -> this.x } A().f()();")).1.moments,
        ∃ member owner, member.visibility = .owner ∧
          Privileged moment .field "x" member owner := by
  have reached := Chronicle.Reached.start {} (fun _ => 0) .capturing
  have present : ((Chronicle.start {} (fun _ => 0) .capturing).ask 40 (.program
      "class A { private var x; fn f() -> fn () -> this.x } A().f()();")).1.moments.any
        (fun moment =>
        moment.fieldRead?.any fun (name, member) =>
          name == "x" && member.visibility == .owner) = true := by
    decide +kernel
  obtain ⟨moment, isMoment, reads⟩ := List.any_eq_true.mp present
  obtain ⟨⟨name, member⟩, read, both⟩ := (Option.any_eq_true _ _).mp reads
  obtain ⟨isX, isPrivate⟩ := Bool.and_eq_true_iff.mp both
  obtain rfl := eq_of_beq isX
  obtain ⟨owner, privileged⟩ := ((privilege_is_lexical reached 40 _).2 moment isMoment).2.2 _ _ _
    (moment.access_of_fieldRead? read _)
  exact ⟨_, reached, moment, isMoment, member, owner, eq_of_beq isPrivate, privileged⟩

end ClassScript.Run
