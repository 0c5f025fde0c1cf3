import ClassScript.Proofs.Chronicle
import ClassScript.Proofs.Parallel
import ClassScript.Proofs.Rebinding
import ClassScript.Proofs.Congruence

/-!
A text that the static checks refuse is invisible: it moves on the counter of references at most,
and nothing depends on where that stands.
-/

set_option autoImplicit false

namespace ClassScript

open Run

def laterFrom (first ahead : Nat) : RefId → RefId :=
  fun (id : Nat) => if id < first then id else id + ahead

theorem laterFrom_of_lt {first id : Nat} (ahead : Nat) (before : id < first) :
    laterFrom first ahead id = id :=
  if_pos before

theorem laterFrom_of_le {first id : Nat} (ahead : Nat) (after : first ≤ id) :
    laterFrom first ahead id = id + ahead :=
  if_neg (Nat.not_lt.mpr after)

private theorem laterFrom_injective (first ahead : Nat) :
    Function.Injective (laterFrom first ahead) := by
  intro (id : Nat) (other : Nat) same
  have numbers : (if id < first then id else id + ahead) =
      if other < first then other else other + ahead := same
  change (id : Nat) = other
  split at numbers <;> split at numbers <;> omega

namespace Code

private theorem resolve_alike {change : RefId → RefId} (apart : Function.Injective change)
    (globals : Binding.Globals) (code : Code) :
    Binding.ChecksAlike change (code.resolve globals) ((code.renumber change).resolve globals) := by
  cases code with
  | program statements => exact Binding.resolveProgram_alike apart globals statements
  | expression expr => exact Binding.resolveLone_alike apart globals expr

theorem follows_run {labels : Relabeling} {rules rules' : Rules}
    (alike : RulesAlike labels.ids rules rules') (code : Code) (steps : Nat)
    {machine machine' : Machine} (machines : MachineAlike labels machine machine') :
    OutcomeAlike labels (Option.map labels.value) (code.run rules steps machine)
      ((code.renumber labels.ids).run rules' steps machine') := by
  cases code with
  | program statements =>
    exact Follows.bind (f := id) (follows_interpret alike steps statements)
      (fun _ => .pure (Option.map labels.value) none) machine machine' machines
  | expression expr =>
    exact Follows.bind (follows_evaluate alike steps expr)
      (fun value => .pure (Option.map labels.value) (some value)) machine machine' machines

end Code

structure Session.Alike (first ahead : Nat) (session later : Session) : Prop where
  settings : later.settings = session.settings
  clock : later.clock = session.clock
  globals : later.globals = session.globals
  machine : MachineAlike (.ofIds (laterFrom first ahead)) session.machine later.machine
  depths : ∀ id, later.depths.find? (laterFrom first ahead id) = session.depths.find? id
  counter : later.nextId = session.nextId + ahead
  passed : first ≤ session.nextId

namespace Session.Alike

variable {first ahead : Nat} {session later : Session}

section

variable (alike : session.Alike first ahead later)

include alike

private theorem rules : RulesAlike (laterFrom first ahead) session.rules later.rules where
  depths := alike.depths
  maxDepth := by simp only [Session.rules, alike.settings]
  clock := alike.clock

private theorem read_eq (input : Input) :
    later.read input = (session.read input).map fun found =>
      (found.1.renumber (numberedLater ahead),
        { later with nextId := found.2.nextId + ahead }) := by
  cases input with
  | program source =>
    simp only [Session.read, readProgram]
    cases Token.scan source with
    | error fault => rfl
    | ok tokens =>
      simp only [alike.counter, parseProgram_later]
      cases parseProgram tokens session.nextId <;> rfl
  | expression source =>
    simp only [Session.read, readExpression]
    cases Token.scan source with
    | error fault => rfl
    | ok tokens =>
      simp only [alike.counter, parseExpression_later]
      cases parseExpression tokens session.nextId <;> rfl

private theorem counted {limit : Nat} (grown : session.nextId ≤ limit) :
    Session.Alike first ahead { session with nextId := limit }
      { later with nextId := limit + ahead } :=
  ⟨alike.settings, alike.clock, alike.globals, alike.machine, alike.depths, rfl,
    Nat.le_trans alike.passed grown⟩

private theorem commit {resolution resolution' : Binding.Resolution}
    (found : resolution.Alike (laterFrom first ahead) resolution') :
    (session.commit resolution).Alike first ahead (later.commit resolution') where
  settings := alike.settings
  clock := alike.clock
  globals := found.globals
  machine := alike.machine
  depths id := by
    simp only [Session.commit, Binding.Depths.find?_merge, found.depths, alike.depths]
  counter := alike.counter
  passed := alike.passed

private theorem place (code : Code) (change : RefId → RefId) :
    (code.place session).Alike first ahead ((code.renumber change).place later) := by
  obtain ⟨settings, clock, globals, machine, depths, counter, passed⟩ := alike
  cases code with
  | program statements =>
    exact ⟨settings, clock, globals, ⟨rfl, machine.store, machine.sink, machine.ticks⟩, depths,
      counter, passed⟩
  | expression expr => exact ⟨settings, clock, globals, machine, depths, counter, passed⟩

end

end Session.Alike

inductive CheckedAlike (first ahead : Nat) :
    Except Failure Code × Session → Except Failure Code × Session → Prop where
  | accepted {code : Code} {session later : Session} (alike : session.Alike first ahead later) :
    CheckedAlike first ahead (.ok code, session)
      (.ok (code.renumber (laterFrom first ahead)), later)
  | refused {failure : Failure} {session later : Session}
    (alike : session.Alike first ahead later) :
    CheckedAlike first ahead (.error failure, session) (.error failure, later)

inductive ReplyAlike (first ahead : Nat) :
    Reply (Option Value) → Reply (Option Value) → Prop where
  | done {value : Option Value} {session later : Session}
    (alike : session.Alike first ahead later) :
    ReplyAlike first ahead (.done value session) (.done value later)
  | failed {failure : Failure} {session later : Session}
    (alike : session.Alike first ahead later) :
    ReplyAlike first ahead (.failed failure session) (.failed failure later)
  | exhausted : ReplyAlike first ahead .exhausted .exhausted

namespace Session.Alike

variable {first ahead : Nat} {session later : Session}

private theorem check (alike : session.Alike first ahead later) (input : Input) :
    CheckedAlike first ahead (session.check input) (later.check input) := by
  unfold Session.check
  rw [alike.read_eq]
  cases isRead : session.read input with
  | error failure => exact .refused alike
  | ok found =>
    obtain ⟨code, after⟩ := found
    obtain ⟨limit, rfl, grown, tidy⟩ := Session.tidy_of_read isRead
    -- The text is numbered from the counter on, where both changes add the same.
    have agree : Covered (Site.Agree (numberedLater ahead) (laterFrom first ahead)) code.sites := by
      intro site member (id : Nat) depth used
      have fresh := (tidy.range site member id depth used).1
      exact (laterFrom_of_le ahead (Nat.le_trans alike.passed fresh)).symm
    have resolved : Binding.ChecksAlike (laterFrom first ahead) (code.resolve session.globals)
        ((code.renumber (laterFrom first ahead)).resolve later.globals) := by
      rw [alike.globals]
      exact code.resolve_alike (laterFrom_injective first ahead) session.globals
    simp only [Except.map, code.renumber_congr agree]
    generalize code.resolve session.globals = result at resolved ⊢
    generalize (code.renumber (laterFrom first ahead)).resolve later.globals = result'
      at resolved ⊢
    cases resolved with
    | error fault => exact .refused (alike.counted grown)
    | ok found => exact .accepted (((alike.counted grown).commit found).place code _)

private theorem proceed {checked checked' : Except Failure Code × Session} (steps : Nat)
    (alike : CheckedAlike first ahead checked checked') :
    ReplyAlike first ahead (Session.proceed steps checked) (Session.proceed steps checked') := by
  cases alike with
  | refused alike => exact .failed alike
  | @accepted code session later alike =>
    have follows : OutcomeAlike _ _ _
        ((code.renumber (laterFrom first ahead)).run later.rules steps later.machine) :=
      code.follows_run alike.rules steps alike.machine
    rw [Relabeling.value_ofIds, Option.map_id] at follows
    have keeps {machine machine' : Machine}
        (machines : MachineAlike (.ofIds (laterFrom first ahead)) machine machine') :
        Session.Alike first ahead { session with machine } { later with machine := machine' } :=
      ⟨alike.settings, alike.clock, alike.globals, machines, alike.depths, alike.counter,
        alike.passed⟩
    simp only [Session.proceed, Session.perform]
    generalize code.run session.rules steps session.machine = outcome at follows ⊢
    generalize (code.renumber (laterFrom first ahead)).run later.rules steps later.machine =
      outcome' at follows ⊢
    cases outcome <;> cases outcome' <;> try exact follows.elim
    case done.done => exact follows.1 ▸ .done (keeps follows.2)
    case stopped.stopped => exact follows.1 ▸ .failed (keeps follows.2)
    case exhausted.exhausted => exact .exhausted

private theorem respond (alike : session.Alike first ahead later) (steps : Nat) (input : Input) :
    ReplyAlike first ahead (session.respond steps input) (later.respond steps input) := by
  rw [Session.respond_eq, Session.respond_eq]
  exact proceed steps (alike.check input)

end Session.Alike

namespace Run

variable {change : RefId → RefId} {text : Site → Prop} {notes : Notes} {store : Store}

private theorem renumberFunction_eq_self {nesting : Nesting} {decl : FunctionDecl Stmt}
    (unchanged : ∀ site, text site → Site.Agree change id site)
    (covered : Covered text (functionSites nesting decl)) : renumberFunction change decl = decl :=
  (((renumbers_function decl).2 _ _ nesting).mp fun site member =>
    unchanged site (covered site member)).trans (renumber_id_function decl)

private theorem renumberClass_eq_self {decl : ClassDecl Expr Stmt} {nesting : Nesting}
    (unchanged : ∀ site, text site → Site.Agree change id site)
    (covered : Covered text (stmtSites nesting (.classDecl decl))) :
    renumberClass change decl = decl := by
  have same := (((renumbers_stmt (.classDecl decl)).2 _ _ nesting).mp fun site member =>
    unchanged site (covered site member)).trans (renumber_id_stmt _)
  exact Stmt.classDecl.inj same

private theorem classObject_eq_self (coherent : Coherent text notes store)
    (unchanged : ∀ site, text site → Site.Agree change id site) {ref : Nat} {found : ClassObject}
    (stored : store.classes[ref]? = some found) :
    (Relabeling.ofIds change).classObject found = found := by
  obtain ⟨note, -, fits⟩ := coherent.noted_class stored
  obtain ⟨nesting, declared⟩ := fits.declared
  have methods : found.methods.map (Relabeling.ofIds change).method = found.methods := by
    refine found.methods.map_eq_self fun name method listed => ?_
    -- The text of a method stands in the class that owns it.
    obtain ⟨-, owner, ownerStored, declared, isMethod, -, -, isFunction⟩ :=
      coherent.tables.methods ref found name method stored listed
    obtain ⟨ownerNote, -, ownerFits⟩ := coherent.noted_class ownerStored
    have same : renumberFunction change method.closure.decl = method.closure.decl := by
      rw [← isFunction]
      exact renumberFunction_eq_self unchanged fun site member =>
        ownerFits.methodSites site (mem_methodsSites isMethod member)
    simp only [Relabeling.method, Relabeling.closure, Relabeling.ofIds, same]
  have decl : renumberClass change found.decl = found.decl :=
    renumberClass_eq_self unchanged declared
  rw [Relabeling.classObject, methods]
  exact congrArg (fun decl => { found with decl }) decl

end Run

theorem StoreAlike.of_coherent {change : RefId → RefId} {text : Site → Prop} {notes : Notes}
    {store : Store} (coherent : Coherent text notes store)
    (unchanged : ∀ site, text site → Site.Agree change id site) :
    StoreAlike (.ofIds change) store store := by
  refine .of_ids ?_ ?_ rfl
  · refine Array.ext (by simp) fun ref inside inside' => ?_
    have fits := coherent.noted_function (Array.getElem?_eq_getElem inside)
    have same : renumberFunction change store.functions[ref].decl = store.functions[ref].decl :=
      renumberFunction_eq_self unchanged fits.sites
    rw [Array.getElem_map]
    exact congrArg (fun decl => { store.functions[ref] with decl }) same.symm
  · refine Array.ext (by simp) fun ref inside inside' => ?_
    rw [Array.getElem_map]
    exact (classObject_eq_self coherent unchanged (Array.getElem?_eq_getElem inside)).symm

theorem Chronicle.Sound.alike_later {chronicle : Chronicle} (sound : chronicle.Sound)
    (ahead : Nat) :
    chronicle.session.Alike chronicle.session.nextId ahead
      { chronicle.session with nextId := chronicle.session.nextId + ahead } where
  settings := rfl
  clock := rfl
  globals := rfl
  machine := ⟨rfl, .of_coherent sound.coherent fun site member id depth used =>
    laterFrom_of_lt ahead (sound.used site member id depth used), rfl, rfl⟩
  depths id := by
    rcases Nat.lt_or_ge id chronicle.session.nextId with before | after
    · rw [laterFrom_of_lt ahead before]
    · have unnoted (number : Nat) (above : chronicle.session.nextId ≤ number) :
          chronicle.session.depths.find? number = none := by
        cases found : chronicle.session.depths.find? number with
        | none => rfl
        | some depth => exact absurd (sound.noted number depth found) (Nat.not_lt.mpr above)
      rw [laterFrom_of_le ahead after, unnoted id after]
      exact unnoted _ (Nat.le_trans after (Nat.le_add_right _ _))
  counter := rfl
  passed := Nat.le_refl _

/-- What a session can be asked for: the answer to a text, or the lines that its sink keeps. -/
inductive Request where
  | answer (steps : Nat) (input : Input)
  | takeLines

inductive Response where
  /-- The value of a text, how it is shown, and the sink afterwards. -/
  | value (value : Option Value) (shown : Option String) (sink : Sink)
  | failure (failure : Failure) (sink : Sink)
  | lines (lines : List String)
  | exhausted

def Response.isRefusal : Response → Bool
  | .failure found _ => found.isStatic
  | _ => false

def Reply.response : Reply (Option Value) → Response
  | .done value session =>
    .value value (value.map session.machine.store.shown) session.machine.sink
  | .failed failure session => .failure failure session.machine.sink
  | .exhausted => .exhausted

private theorem Reply.exhausted_of_session? {reply : Reply (Option Value)}
    (ended : reply.session? = none) : reply = .exhausted := by
  cases reply with
  | exhausted => rfl
  | _ => simp [session?] at ended

namespace Session

def transcript : Session → List Request → List Response
  | _, [] => []
  | session, .takeLines :: rest => .lines session.takeLines.1 :: session.takeLines.2.transcript rest
  | session, .answer steps input :: rest =>
    let reply := session.respond steps input
    match reply.session? with
    | some after => reply.response :: after.transcript rest
    | none => [reply.response]

def withoutRefused : Session → List Request → List Request
  | _, [] => []
  | session, .takeLines :: rest => .takeLines :: session.takeLines.2.withoutRefused rest
  | session, .answer steps input :: rest =>
    let reply := session.respond steps input
    match reply.session? with
    | some after =>
      if reply.response.isRefusal then after.withoutRefused rest
      else .answer steps input :: after.withoutRefused rest
    | none => [.answer steps input]

private theorem counter_of_refusal {session after : Session} {steps : Nat} {input : Input}
    (answer : (session.respond steps input).session? = some after)
    (refusal : (session.respond steps input).response.isRefusal = true) :
    after = { session with nextId := after.nextId } ∧ session.nextId ≤ after.nextId := by
  cases reply : session.respond steps input with
  | failed failure other =>
    rw [reply] at answer refusal
    obtain rfl : other = after := Option.some.inj answer
    exact check_error (check_of_static reply refusal)
  | _ => simp [reply, Reply.response, Response.isRefusal] at refusal

private theorem Alike.takeLines {first ahead : Nat} {session later : Session}
    (alike : session.Alike first ahead later) :
    later.takeLines.1 = session.takeLines.1 ∧
      session.takeLines.2.Alike first ahead later.takeLines.2 := by
  obtain ⟨settings, clock, globals, machine, depths, counter, passed⟩ := alike
  refine ⟨congrArg Sink.lines machine.sink, settings, clock, globals, ?_, depths, counter, passed⟩
  exact ⟨machine.frame, machine.store, congrArg Sink.clear machine.sink, machine.ticks⟩

/-- Sessions whose counters stand apart show the same. -/
private theorem Alike.transcript_eq {first ahead : Nat} {session later : Session}
    (alike : session.Alike first ahead later) (requests : List Request) :
    later.transcript requests = session.transcript requests := by
  induction requests generalizing session later with
  | nil => rfl
  | cons request rest ih =>
    cases request with
    | takeLines =>
      obtain ⟨lines, alike'⟩ := alike.takeLines
      simp only [transcript, lines, ih alike']
    | answer steps input =>
      have replies := alike.respond steps input
      simp only [transcript]
      generalize session.respond steps input = reply at replies ⊢
      generalize later.respond steps input = reply' at replies ⊢
      cases replies with
      | @done value session later alike' =>
        have shown : later.machine.store.shown = session.machine.store.shown := by
          funext value
          have same := alike'.machine.store.shown value
          rwa [Relabeling.value_ofIds] at same
        simp only [Reply.session?, Reply.response, ih alike', shown, alike'.machine.sink]
      | failed alike' => simp only [Reply.session?, Reply.response, ih alike', alike'.machine.sink]
      | exhausted => rfl

end Session

namespace Chronicle.Sound

variable {chronicle : Chronicle}

theorem transcript_later (sound : chronicle.Sound) (ahead : Nat) (requests : List Request) :
    Session.transcript { chronicle.session with nextId := chronicle.session.nextId + ahead }
      requests = chronicle.session.transcript requests :=
  (sound.alike_later ahead).transcript_eq requests

theorem transcript_withoutRefused (sound : chronicle.Sound) (requests : List Request) :
    chronicle.session.transcript (chronicle.session.withoutRefused requests) =
      (chronicle.session.transcript requests).filter fun response => !response.isRefusal := by
  induction requests generalizing chronicle with
  | nil => rfl
  | cons request rest ih =>
    cases request with
    | takeLines =>
      have rests := ih sound.takeLines
      simp only [Session.withoutRefused, Session.transcript, rests]
      exact (List.filter_cons_of_pos rfl).symm
    | answer steps input =>
      cases answer : (chronicle.session.respond steps input).session? with
      | none =>
        have reply := Reply.exhausted_of_session? answer
        simp only [Session.withoutRefused, Session.transcript, reply, Reply.session?]
        rfl
      | some after =>
        have rests : after.transcript (after.withoutRefused rest) =
            (after.transcript rest).filter fun response => !response.isRefusal :=
          ih (sound.follow answer)
        cases refusal : (chronicle.session.respond steps input).response.isRefusal with
        | false =>
          simp only [Session.withoutRefused, Session.transcript, answer, refusal,
            Bool.false_eq_true, if_false, rests]
          exact (List.filter_cons_of_pos (by simp [refusal])).symm
        | true =>
          obtain ⟨same, grown⟩ := Session.counter_of_refusal answer refusal
          have unseen := sound.transcript_later (after.nextId - chronicle.session.nextId)
          rw [Nat.add_sub_cancel' grown, ← same] at unseen
          simp only [Session.withoutRefused, Session.transcript, answer, refusal, if_true]
          rw [List.filter_cons_of_neg (by simp [refusal]), ← unseen]
          exact rests

end Chronicle.Sound

/-- A text that the static checks refuse is invisible. The session afterwards is the one before but
for its counter, which no answer depends on: without the refused texts a session shows what it shows
with them, but for the refusals. -/
theorem refused_texts_are_invisible {chronicle : Chronicle} (reached : chronicle.Reached) :
    (∀ steps input failure after,
      chronicle.session.respond steps input = .failed failure after → failure.isStatic →
      after = { chronicle.session with nextId := after.nextId }) ∧
    (∀ requests,
      chronicle.session.transcript (chronicle.session.withoutRefused requests) =
        (chronicle.session.transcript requests).filter fun response => !response.isRefusal) ∧
    ∀ requests ahead,
      Session.transcript { chronicle.session with nextId := chronicle.session.nextId + ahead }
        requests = chronicle.session.transcript requests := by
  refine ⟨?_, reached.sound.transcript_withoutRefused, ?_⟩
  · intro steps input failure after failed static
    exact (Session.check_error (Session.check_of_static failed static)).1
  · intro requests ahead
    exact reached.sound.transcript_later ahead requests

/-- A function and a class, texts that the checks refuse after numbering or half reading them, and a
use of both. -/
def interruptedRequests : List Request :=
  [.answer 40 (.program "class A { fn g() -> this; } var a = A();"),
    .answer 40 (.program "var b = a.g(); fn f() { return c; }"),
    .answer 40 (.program "a.g( \"unclosed"),
    .answer 40 (.program "print a.g(; a;"),
    .answer 40 (.program "print a.g();"), .takeLines,
    .answer 40 (.expression "a.g()")]

/-- Three texts are refused between the others, and the others are answered as without them. -/
theorem interrupted_session_shows_the_same :
    (Chronicle.start {} (fun _ => 0) .capturing).Reached ∧
    ((Session.start {} (fun _ => 0) .capturing).transcript interruptedRequests).map
      Response.isRefusal = [false, true, true, true, false, false, false] ∧
    (Session.start {} (fun _ => 0) .capturing).transcript
      ((Session.start {} (fun _ => 0) .capturing).withoutRefused interruptedRequests) =
      ((Session.start {} (fun _ => 0) .capturing).transcript interruptedRequests).filter
        fun response => !response.isRefusal :=
  ⟨.start {} (fun _ => 0) .capturing, by decide +kernel,
    (refused_texts_are_invisible (.start {} (fun _ => 0) .capturing)).2.1 interruptedRequests⟩

end ClassScript
