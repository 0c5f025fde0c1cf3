import ClassScript.Proofs.Loopless
import ClassScript.Proofs.Sparing
import ClassScript.Proofs.StepMonotonicity

/-!
When a session comes to an answer. A text without loops is answered exactly if the set-ups of fields
that are under way at once have a bound; the limit on calls bounds every other recursion.
-/

set_option autoImplicit false

namespace ClassScript

open Run

section Code

variable {text : Site → Prop} {rules : Rules} {bound : Nat} {notes : Notes} {machine : Machine}

private theorem settles_interpret (sound : rules.Suits text)
    (loopless : ∀ site, text site → site.isLoop = false) (program : List Stmt)
    (covered : Covered text (stmtsSites .top program))
    (ready : Poised text .blind notes machine .top) (depth : machine.frame.depth ≤ rules.maxDepth) :
    Settles bound (fun steps => Traced.interpret rules steps program) notes machine := by
  induction program generalizing notes machine with
  | nil => exact .pure _ _ _
  | cons stmt rest ih =>
    rw [stmtsSites, past_top] at covered
    have room : Room rules bound _ 0 .top machine :=
      ⟨depth, Nat.le_refl _, .inl (Nat.zero_le _)⟩
    refine (settles_stmt sound (fun smaller _ => settled sound loopless smaller) loopless stmt 0
      (Nat.zero_le _) .top notes machine covered.append.1 ready room).bind
      (fun steps => Steady.execute sound steps 0 blind_fair ready covered.append.1
        fun _ _ => trivial) fun _ notes machine passed _ => ?_
    exact ih covered.append.2 (passed.poised ready) (passed.frame ▸ depth)

private theorem Code.settles_noted (sound : rules.Suits text)
    (loopless : ∀ site, text site → site.isLoop = false) (code : Code)
    (covered : Covered text code.sites) (ready : Poised text .blind notes machine .top)
    (depth : machine.frame.depth ≤ rules.maxDepth) :
    Settles bound (fun steps => code.noted rules steps) notes machine := by
  cases code with
  | program statements =>
    exact (settles_interpret sound loopless statements covered ready depth).brief_after
      fun _ => .pure _
  | expression expr =>
    exact (settles_expr sound (fun smaller _ => settled sound loopless smaller) expr 0 .top notes
      machine covered ready ⟨depth, Nat.le_refl _, .inl (Nat.zero_le _)⟩).brief_after
      fun _ => .pure _

end Code

def Reply.Overflows {α : Type} : Reply α → Prop
  | .failed (.runtime fault) _ => fault.value.family = .stackOverflow
  | _ => False

namespace Session

def allowing (session : Session) (limit : Nat) : Session :=
  { session with settings := { session.settings with maxCallDepth := limit } }

/-- A session comes to a reply: with enough steps it is always that one. -/
def Answers (session : Session) (input : Input) (reply : Reply (Option Value)) : Prop :=
  reply ≠ .exhausted ∧
    ∃ enough, ∀ steps, enough ≤ steps → session.respond steps input = reply

theorem check_allowing (session : Session) (limit : Nat) (input : Input) :
    (session.allowing limit).check input =
      ((session.check input).1, (session.check input).2.allowing limit) := by
  have unseen : Unseen fun session => session.allowing limit :=
    ⟨fun _ => rfl, fun _ => rfl, fun _ _ => rfl, fun _ _ code => by cases code <;> rfl⟩
  exact unseen.check session input

theorem maxDepth_of_check {session ready : Session} {input : Input} {code : Code}
    (checked : session.check input = (.ok code, ready)) :
    ready.rules.maxDepth = session.settings.maxCallDepth := by
  unfold check at checked
  split at checked
  · simp at checked
  rename_i read after isRead
  split at checked
  · simp at checked
  simp only [Prod.mk.injEq, Except.ok.injEq] at checked
  obtain ⟨rfl, rfl⟩ := checked
  obtain ⟨limit, rfl, -⟩ := tidy_of_read isRead
  cases read <;> rfl

end Session

namespace Chronicle

def allowing (chronicle : Chronicle) (limit : Nat) : Chronicle :=
  { chronicle with session := chronicle.session.allowing limit }

/-- However many steps there are, no moment stands in more set-ups of fields than some bound. -/
def SetUpsBounded (chronicle : Chronicle) (input : Input) : Prop :=
  ∃ bound, ∀ steps, ∀ moment ∈ (chronicle.ask steps input).1.moments, moment.pending ≤ bound

variable {chronicle : Chronicle} {input : Input} {code : Code} {ready : Session}

theorem Sound.allowing (sound : chronicle.Sound) (limit : Nat) : (chronicle.allowing limit).Sound :=
  ⟨sound.sites, sound.used, sound.noted, sound.coherent, sound.tended, sound.frame, sound.moments⟩

variable {few limit many : Nat} {moment : Moment} {reply : Reply (Option Value)}

theorem Sound.shallow (sound : chronicle.Sound) (steps : Nat)
    (member : moment ∈ (chronicle.ask steps input).1.moments) :
    moment.machine.frame.depth ≤ chronicle.session.settings.maxCallDepth := by
  cases checked : chronicle.session.check input with
  | mk result ready =>
    cases result with
    | error failure => simp [ask_of_refusal checked, sound.moments] at member
    | ok code =>
      obtain ⟨found, accepts⟩ := Session.accepts_of_check checked
      rw [ask_of_check checked] at member
      rw [← Session.maxDepth_of_check checked]
      have spares : Spares 0 ready.rules.maxDepth False (code.noted ready.rules steps) :=
        code.keeps (sparing 0 (Nat.le_refl _)) rfl
      refine (spares chronicle.notes ready.machine (Nat.zero_le _) ?_
        (.inr (Nat.zero_le _))).adds.fits_of_fresh sound.moments member
      rw [accepts.frame sound.frame]
      exact Nat.zero_le _

theorem not_cutShort {α : Type} {session : Session} {outcome : Outcome α} {greater : Nat}
    (ended : session.perform (fun _ _ => outcome) ≠ .exhausted)
    (inLimit : limit < greater → ¬ (session.perform fun _ _ => outcome).Overflows) :
    ¬ outcome.CutShort limit greater := by
  intro cut
  cases outcome with
  | done value machine => exact cut
  | exhausted => exact ended rfl
  | stopped reason machine =>
    cases reason with
    | fault found => exact inLimit cut.1 cut.2
    | sinkFull => exact cut.2

theorem Sound.reaches (sound : chronicle.Sound) {lacking : Prop}
    (checked : chronicle.session.check input = (.ok code, ready))
    (allows : ready.rules.maxDepth ≤ limit) (steps : lacking ∨ few ≤ many)
    (ended : chronicle.session.respond few input ≠ .exhausted)
    (inLimit : ready.rules.maxDepth < limit → ¬ (chronicle.session.respond few input).Overflows) :
    Prolongs lacking ready.rules.maxDepth few chronicle.notes ready.machine.frame
      (code.run ready.rules few ready.machine)
      (code.noted (ready.rules.allowing limit) many chronicle.notes ready.machine) := by
  obtain ⟨found, accepts⟩ := Session.accepts_of_check checked
  rw [Session.respond_eq, checked] at ended inLimit
  have outlasts : Outlasts lacking ready.rules.maxDepth limit few
      (code.noted (ready.rules.allowing limit) many) (code.run ready.rules few) :=
    code.keeps (outlasting (ready.rules.allowing limit) allows lacking few)
      ⟨Nat.le_of_eq (Nat.zero_add few), steps⟩
  refine outlasts _ _ ?_ (not_cutShort ended inLimit)
  rw [accepts.frame sound.frame]
  exact Nat.zero_le _

/-- What has been answered with some steps is answered alike with more. -/
theorem Sound.answers_respond (sound : chronicle.Sound)
    (ended : chronicle.session.respond few input ≠ .exhausted) :
    chronicle.session.Answers input (chronicle.session.respond few input) := by
  refine ⟨ended, few, fun many more => ?_⟩
  cases checked : chronicle.session.check input with
  | mk result ready =>
    cases result with
    | error failure => rw [Session.respond_eq, Session.respond_eq, checked]; rfl
    | ok code =>
      have same := (sound.reaches checked (Nat.le_refl _) (.inr more) ended
        fun less => absurd less (Nat.lt_irrefl _)).same.resolve_right (False.elim ∘ And.left)
      rw [code.noted_erases] at same
      rw [Session.respond_eq, Session.respond_eq, checked, Session.proceed_ok, Session.proceed_ok,
        ← same]
      rfl

theorem Sound.calm (sound : chronicle.Sound) (answers : chronicle.session.Answers input reply) :
    ∃ enough, ∀ limit steps, chronicle.session.settings.maxCallDepth ≤ limit →
      (chronicle.session.settings.maxCallDepth < limit → ¬ reply.Overflows) →
      ∀ moment ∈ ((chronicle.allowing limit).ask steps input).1.moments,
        moment.machine.frame.depth ≤ chronicle.session.settings.maxCallDepth ∧
          moment.pending ≤ enough := by
  obtain ⟨ended, enough, same⟩ := answers
  obtain rfl := same enough (Nat.le_refl _)
  refine ⟨enough, fun limit steps allows inLimit moment member => ?_⟩
  cases checked : chronicle.session.check input with
  | mk result ready =>
    have allowed : (chronicle.allowing limit).session.check input =
        (result, ready.allowing limit) := by
      have checks := chronicle.session.check_allowing limit input
      rwa [checked] at checks
    cases result with
    | error failure =>
      rw [ask_of_refusal allowed] at member
      exact absurd member (sound.moments ▸ List.not_mem_nil)
    | ok code =>
      rw [ask_of_check allowed] at member
      rw [← Session.maxDepth_of_check checked] at allows inLimit ⊢
      exact (sound.reaches checked allows (.inl trivial) ended inLimit).adds.fits_of_fresh
        sound.moments member

/-- A text without loops is answered if no call in the initial value of a field stands in too many
set-ups of fields. -/
theorem Sound.exists_answer (sound : chronicle.Sound)
    (loopless : ∀ site ∈ chronicle.sitesWith input, site.isLoop = false) (bound : Nat)
    (within : ∀ steps, ¬ (chronicle.ask steps input).1.Deep bound) :
    ∃ reply, chronicle.session.Answers input reply := by
  simp only [Session.Answers, ← ask_reply]
  cases checked : chronicle.session.check input with
  | mk result ready =>
    cases result with
    | error failure =>
      refine ⟨.failed failure ready, by simp, 0, fun steps _ => ?_⟩
      rw [ask_of_refusal checked]
    | ok code =>
      obtain ⟨found, accepts⟩ := Session.accepts_of_check checked
      simp only [sitesWith, checked] at loopless
      simp only [ask_of_check checked] at within ⊢
      have settles : Settles bound (fun steps => code.noted ready.rules steps) chronicle.notes
          ready.machine :=
        code.settles_noted (sound.sites_checked checked) loopless
          (fun site member => List.mem_append_right _ member)
          ((sound.poised checked).standing.poised (sound.poised checked).coherent
            (sound.poised checked).coherent.blind.tended)
          (by rw [accepts.frame sound.frame]; exact Nat.zero_le _)
      rcases settles.ends with ⟨enough, result, ended, same⟩ | ⟨enough, deep⟩
      · refine ⟨ready.perform fun _ _ => result.2, ?_, enough, fun steps more => by
          rw [same steps more]⟩
        generalize result.2 = outcome at ended
        cases outcome <;> simp_all [Session.perform]
      · exact absurd (deep enough (Nat.le_refl _)) (within enough)

theorem Sound.setUpsBounded_of_answers (sound : chronicle.Sound)
    (answers : chronicle.session.Answers input reply) : chronicle.SetUpsBounded input := by
  obtain ⟨enough, calm⟩ := sound.calm answers
  refine ⟨enough, fun steps moment member => ?_⟩
  exact (calm _ steps (Nat.le_refl _) (fun less => absurd less (Nat.lt_irrefl _)) moment member).2

theorem Sound.overflows_of_deeper (sound : chronicle.Sound)
    (answers : chronicle.session.Answers input reply) {steps : Nat}
    (member : moment ∈ ((chronicle.allowing limit).ask steps input).1.moments)
    (deeper : chronicle.session.settings.maxCallDepth < moment.machine.frame.depth) :
    reply.Overflows := by
  have inLimit : moment.machine.frame.depth ≤ limit := (sound.allowing limit).shallow steps member
  obtain ⟨enough, calm⟩ := sound.calm answers
  by_contra within
  have := (calm limit steps (by omega) (fun _ => within) moment member).1
  omega

end Chronicle

/-- A session answers a text without loops if and only if the set-ups of fields that are under way
at once have a bound, and in any case if no initial value of a field makes a call. No moment stands
in more calls than the limit allows, and an answer says that the limit was exceeded if a greater one
would have let calls nest deeper. -/
theorem answers_iff_setUpsBounded {chronicle : Chronicle} (reached : chronicle.Reached)
    (input : Input) (loopless : ∀ site ∈ chronicle.sitesWith input, site.isLoop = false) :
    ((∃ reply, chronicle.session.Answers input reply) ↔ chronicle.SetUpsBounded input) ∧
    ((∀ site ∈ chronicle.sitesWith input, site.isInitialCall = false) →
      ∃ reply, chronicle.session.Answers input reply) ∧
    (∀ steps, ∀ moment ∈ (chronicle.ask steps input).1.moments,
      moment.machine.frame.depth ≤ chronicle.session.settings.maxCallDepth) ∧
    ∀ reply, chronicle.session.Answers input reply →
      ∀ limit steps, (∃ moment ∈ ((chronicle.allowing limit).ask steps input).1.moments,
        chronicle.session.settings.maxCallDepth < moment.machine.frame.depth) →
      reply.Overflows := by
  have sound := reached.sound
  refine ⟨⟨?_, ?_⟩, ?_, ?_, ?_⟩
  · rintro ⟨reply, answers⟩
    exact sound.setUpsBounded_of_answers answers
  · rintro ⟨bound, bounded⟩
    refine sound.exists_answer loopless bound ?_
    rintro steps ⟨moment, member, beyond, -⟩
    exact Nat.not_lt.mpr (bounded steps moment member) beyond
  · intro callless
    refine sound.exists_answer loopless 0 ?_
    rintro steps ⟨moment, member, -, call⟩
    have site := (sound.moments_sound steps input member).site
    exact Bool.false_ne_true ((callless _ site).symm.trans call)
  · intro steps moment member
    exact sound.shallow steps member
  · rintro reply answers limit steps ⟨moment, member, deeper⟩
    exact sound.overflows_of_deeper answers member deeper

def endlessCalls : Input :=
  .program "fn again(n) { return again(n); } again(nil);"

set_option maxRecDepth 100000 in
/-- A recursion without end through calls comes to the answer that the limit was exceeded. -/
theorem endless_calls_overflow :
    ∃ reply, (Session.start { maxCallDepth := 2 } (fun _ => 0) .capturing).Answers endlessCalls
      reply ∧ reply.Overflows := by
  have whole := answers_iff_setUpsBounded
    (Chronicle.Reached.start { maxCallDepth := 2 } (fun _ => 0) .capturing) endlessCalls
    (by decide +kernel)
  obtain ⟨-, answered, -, overflows⟩ := whole
  obtain ⟨reply, answers⟩ := answered (by decide +kernel)
  exact ⟨reply, answers, overflows reply answers 3 40 (by decide +kernel)⟩

namespace Run

namespace Eval

variable {α β : Type} {body : Eval α} {next : α → Eval β} {machine after : Machine}

theorem bind_of_done {value : α} (ends : body machine = .done value after) :
    (body >>= next) machine = next value after := by
  simp only [Bind.bind, ends]

theorem bind_of_exhausted (lacks : body machine = .exhausted) :
    (body >>= next) machine = .exhausted := by
  simp only [Bind.bind, lacks]

end Eval

/-- Whether an expression makes an instance of a class that it finds by name in the globals. -/
def makesInstance (depths : Binding.Depths) (name : String) : Expr → Bool
  | .call (.reference id identifier) _ [] => identifier.name == name && (depths.find? id).isNone
  | _ => false

private theorem eq_of_makesInstance {depths : Binding.Depths} {name : String} {expr : Expr}
    (makes : makesInstance depths name expr) :
    ∃ id identifier position, expr = .call (.reference id identifier) position [] ∧
      identifier.name = name ∧ depths.find? id = none := by
  unfold makesInstance at makes
  split at makes
  · rename_i id identifier position
    simp only [Bool.and_eq_true, beq_iff_eq, Option.isNone_iff_eq_none] at makes
    exact ⟨id, identifier, position, rfl, makes⟩
  · exact absurd makes (by simp)

/-- Whether the first field of a class starts with an instance of that class. -/
def startsWithItself (depths : Binding.Depths) (decl : ClassDecl Expr Stmt) : Bool :=
  match decl.fields with
  | { initial := some expr, .. } :: _ => makesInstance depths decl.name.name expr
  | _ => false

/-- A class in the globals, without a constructor and a superclass, whose first field starts with an
instance of that class. -/
structure Endless (rules : Rules) (store : Store) (ref : Nat) (made : ClassObject) : Prop where
  stored : store.classes[ref]? = some made
  named : store.getHere? Store.globalScope made.decl.name.name = some (.classObject ref)
  root : made.superclass = none
  plain : made.methods.find? constructorName = none
  starts : startsWithItself rules.depths made.decl

def NoneBelow (rules : Rules) (ref : Nat) (made : ClassObject) (steps : Nat) : Prop :=
  ∀ fewer, fewer < steps → ∀ position machine, Endless rules machine.store ref made →
    instantiate rules fewer ref [] position machine = .exhausted

section Endless

variable {rules : Rules} {ref : Nat} {made : ClassObject} {steps : Nat} {machine : Machine}

private theorem NoneBelow.mono (below : NoneBelow rules ref made steps) {few : Nat}
    (less : few ≤ steps) : NoneBelow rules ref made few :=
  fun fewer fewest => below fewer (Nat.lt_of_lt_of_le fewest less)

private theorem readVariable_global {id : RefId} {name : Identifier} {value : Value}
    (unbound : rules.depths.find? id = none)
    (named : machine.store.getHere? Store.globalScope name.name = some value) :
    readVariable rules id name machine = .done value machine := by
  simp only [readVariable, Eval.frame, Eval.inspect, Bind.bind, unbound, named, Pure.pure]

private theorem evaluate_exhausts {expr : Expr} (below : NoneBelow rules ref made steps)
    (endless : Endless rules machine.store ref made)
    (makes : makesInstance rules.depths made.decl.name.name expr) :
    evaluate rules steps expr machine = .exhausted := by
  obtain ⟨id, name, position, rfl, same, unbound⟩ := eq_of_makesInstance makes
  rcases steps with - | - | steps
  · rfl
  · rfl
  · have reads : evaluate rules (steps + 1) (.reference id name) machine =
        .done (.classObject ref) machine :=
      readVariable_global unbound (same ▸ endless.named)
    rw [evaluate, Eval.bind_of_done reads]
    exact below steps (by omega) position machine endless

private theorem setUpFields_exhausts (below : NoneBelow rules ref made steps)
    (endless : Endless rules machine.store ref made) (receiver : InstanceRef) :
    setUpFields rules steps made.decl.fields receiver machine = .exhausted := by
  have starts := endless.starts
  unfold startsWithItself at starts
  split at starts
  · rename_i field visibility hint expr rest fields
    rw [fields]
    rcases steps with - | - | steps
    · rfl
    · rfl
    · exact Eval.bind_of_exhausted (evaluate_exhausts (below.mono (by omega)) endless starts)
  · exact absurd starts (by simp)

private theorem setUpLineage_exhausts (below : NoneBelow rules ref made steps)
    (endless : Endless rules machine.store ref made) (receiver : InstanceRef) :
    setUpLineage rules steps [ref] receiver machine = .exhausted := by
  rcases steps with - | steps
  · rfl
  · have inside : setUpFields rules steps made.decl.fields receiver
        { machine with
          frame := { machine.frame with scope := made.scope, classRef := some ref } } =
        .exhausted := by
      refine setUpFields_exhausts (below.mono (Nat.le_succ steps)) ?_ receiver
      exact endless
    simp only [setUpLineage, Eval.inspect, Bind.bind, endless.stored, Eval.frame, Eval.within,
      inside]

private theorem lineage_root {store : Store} (stored : store.classes[ref]? = some made)
    (root : made.superclass = none) : store.lineage ref = [ref] := by
  obtain ⟨inside, -⟩ := Array.getElem?_eq_some_iff.mp stored
  obtain ⟨count, size⟩ := Nat.exists_eq_add_of_lt inside
  obtain ⟨decl, superclass, scope, fields, methods⟩ := made
  obtain rfl : superclass = none := root
  rw [Store.lineage, size, Store.chainFrom, stored]
  rfl

private theorem instantiate_exhausts (steps : Nat) (position : Position) (machine : Machine)
    (endless : Endless rules machine.store ref made) :
    instantiate rules steps ref [] position machine = .exhausted := by
  induction steps using Nat.strongRecOn generalizing position machine with
  | ind steps below =>
    rcases steps with - | steps
    · rfl
    · have fits : checkArity made.arity 0 position machine = .done () machine := by
        rw [checkArity, if_pos (by simp [ClassObject.arity, endless.plain])]
        rfl
      have lineage : (machine.store.addInstance ref).2.lineage ref = [ref] :=
        lineage_root endless.stored endless.root
      have inside : setUpLineage rules steps [ref] (machine.store.addInstance ref).1
          { machine with store := (machine.store.addInstance ref).2 } = .exhausted := by
        have none : NoneBelow rules ref made (steps + 1) := below
        refine setUpLineage_exhausts (none.mono (Nat.le_succ steps)) ?_ _
        exact ⟨endless.stored, endless.named, endless.root, endless.plain, endless.starts⟩
      simp only [instantiate, Eval.inspect, Bind.bind, endless.stored, endless.plain,
        List.length_nil, fits, Eval.add, lineage, inside]

end Endless

/-- A program that declares a class whose first field starts with an instance of that class, and
makes such an instance. -/
def nestsItself (depths : Binding.Depths) : List Stmt → Bool
  | [.classDecl decl, .expression expr] =>
    decl.superclass.isNone && decl.methods.isEmpty && startsWithItself depths decl &&
      makesInstance depths decl.name.name expr
  | _ => false

variable {rules : Rules}

private theorem endless_addClass {store : Store} {decl : ClassDecl Expr Stmt}
    (globals : ∃ scope, store.scopes[Store.globalScope]? = some scope) (plain : decl.methods = [])
    (starts : startsWithItself rules.depths decl) :
    ∃ made : ClassObject, made.decl = decl ∧
      Endless rules ((store.addClass decl none Store.globalScope Store.globalScope).2.define
        Store.globalScope decl.name.name (.classObject store.classes.size)) store.classes.size
        made := by
  refine ⟨{
    decl
    superclass := none
    scope := Store.globalScope
    fields := Store.ownFields store.classes.size ∅ decl.fields
    methods := Store.ownMethods store.classes.size Store.globalScope ∅ decl.methods },
    rfl, ?_, ?_, rfl, ?_, starts⟩
  · simp [Store.define, Store.addClass]
  · obtain ⟨scope, found⟩ := globals
    obtain ⟨inside, -⟩ := Array.getElem?_eq_some_iff.mp found
    rw [getHere?_define, if_pos ⟨rfl, rfl, inside⟩]
  · simp [plain, Store.ownMethods]

private theorem interpret_exhausts {program : List Stmt} {machine : Machine}
    (nests : nestsItself rules.depths program) (atTop : machine.frame = .top)
    (globals : ∃ scope, machine.store.scopes[Store.globalScope]? = some scope) (steps : Nat) :
    interpret rules steps program machine = .exhausted := by
  unfold nestsItself at nests
  split at nests
  · rename_i decl expr
    simp only [Bool.and_eq_true, Option.isNone_iff_eq_none, List.isEmpty_iff] at nests
    obtain ⟨⟨⟨root, plain⟩, starts⟩, makes⟩ := nests
    rcases steps with - | steps
    · rfl
    obtain ⟨made, rfl, endless⟩ := endless_addClass globals plain starts
    have declared : execute rules (steps + 1) (.classDecl made.decl) machine = .done .normal
        { machine with
          store := (machine.store.addClass made.decl none Store.globalScope
            Store.globalScope).2.define Store.globalScope made.decl.name.name
              (.classObject machine.store.classes.size) } := by
      simp only [execute, declareClass, root, Eval.frame, Bind.bind, Pure.pure, Eval.add,
        Eval.define, Eval.change, atTop]
      rfl
    have below : NoneBelow rules machine.store.classes.size made steps :=
      fun fewer _ position machine endless => instantiate_exhausts fewer position machine endless
    rw [interpret, Eval.bind_of_done declared, interpret]
    refine Eval.bind_of_exhausted (Eval.bind_of_exhausted ?_)
    exact evaluate_exhausts below endless makes
  · exact absurd nests (by simp)

end Run

def Session.nestsItself (session : Session) (input : Input) : Bool :=
  match session.check input with
  | (.ok (.program program), ready) => Run.nestsItself ready.depths program
  | _ => false

theorem Chronicle.Sound.respond_exhausts {chronicle : Chronicle} (sound : chronicle.Sound)
    {input : Input} (nests : chronicle.session.nestsItself input) (limit steps : Nat) :
    (chronicle.session.allowing limit).respond steps input = .exhausted := by
  unfold Session.nestsItself at nests
  split at nests
  · rename_i program ready checked
    obtain ⟨found, accepts⟩ := Session.accepts_of_check checked
    have ends : interpret (ready.rules.allowing limit) steps program ready.machine =
        .exhausted := by
      refine interpret_exhausts nests (accepts.frame sound.frame) ?_ steps
      obtain ⟨scope, stored⟩ := sound.coherent.globals
      exact ⟨scope, accepts.store ▸ stored⟩
    rw [Session.respond_eq, Session.check_allowing, checked]
    have runs : (Code.program program).run (ready.rules.allowing limit) steps ready.machine =
        .exhausted := Eval.bind_of_exhausted ends
    exact congrArg (fun outcome => (ready.allowing limit).perform fun _ _ => outcome) runs
  · exact absurd nests (by simp)

def selfNesting : Input :=
  .program "class A { var x = A(); } A();"

def printingNest : Input :=
  .program "fn f() { print nil; } class A { var x = f(); var y = A(); } A();"

def Reply.fullSink? {α : Type} : Reply α → Option ByteArray
  | .failed .output after => some after.machine.sink.bytes
  | _ => none

set_option maxRecDepth 100000 in
/-- Without any loop the first text is never answered, whatever the limit on calls is, and the
second one goes on printing until the sink is full. -/
theorem initial_values_escape_the_limit :
    (∀ input ∈ [selfNesting, printingNest],
      ∀ site ∈ (Chronicle.start {} (fun _ => 0) .capturing).sitesWith input, site.isLoop = false) ∧
    (∀ limit steps, ((Session.start {} (fun _ => 0) .capturing).allowing limit).respond steps
      selfNesting = .exhausted) ∧
    ((Session.start { maxCallDepth := 4 } (fun _ => 0) (.writing (some 40))).respond 200
      printingNest).fullSink? = some (linesText (List.replicate 10 "nil")).toUTF8 := by
  refine ⟨by decide +kernel, fun limit steps => ?_, by decide +kernel⟩
  exact (Chronicle.sound_start {} (fun _ => 0) .capturing).respond_exhausts (by decide +kernel)
    limit steps

end ClassScript
