import ClassScript.Proofs.Rejection

/-!
Two programs in turn, and their statements as one program. Main statement: the one program is
accepted whenever the two are accepted in turn, and it runs as they do.
-/

set_option autoImplicit false

namespace ClassScript

open Run

namespace Binding

/-- The second walk has the same globals and more names at the top. -/
def View.wider {hoisted wide : Dict Unit}
    (more : ∀ name, hoisted.contains name → wide.contains name) : View False hoisted wide :=
  .even_of more False.elim

theorem contains_hoistedNames (program : List Stmt) (name : String) :
    (hoistedNames program).contains name ↔ name ∈ program.filterMap declaredName? := by
  rw [hoistedNames, Dict.ofList, Dict.contains_insertAll, List.map_map]
  simp [Dict.contains, Function.comp_def]

theorem resolveStmts_append (place : Place) (first second : List Stmt) (state : State) :
    resolveStmts place (first ++ second) state =
      resolveStmts place first state >>= resolveStmts place second := by
  induction first generalizing state with
  | nil => rw [List.nil_append, resolveStmts]; rfl
  | cons stmt rest ih =>
    rw [List.cons_append, resolveStmts, resolveStmts, bind_assoc]
    exact congrArg _ (funext ih)

private theorem resolveStmts_extended (before : Depths) {program wider : List Stmt}
    {state state' after : State}
    (more : ∀ name, (hoistedNames program).contains name → (hoistedNames wider).contains name)
    (extended : state.Alike (.wider more) id before 0 state')
    (walked : resolveStmts (.top (hoistedNames program)) program state = .ok after) :
    ∃ after', resolveStmts (.top (hoistedNames wider)) program state' = .ok after' ∧
      after.Alike (.wider more) id before 0 after' := by
  have here : (View.wider more).fits 0 (.top ∅) := trivial
  have ends := (keep_alike _ Function.injective_id before).stmts here program extended
  rw [renumber_id_stmts, walkStmts_resolver, walkStmts_resolver] at ends
  change Ends _ _ (resolveStmts (.top (hoistedNames program)) program state)
    (resolveStmts (.top (hoistedNames wider)) program state') at ends
  rw [walked] at ends
  generalize resolveStmts (.top (hoistedNames wider)) program state' = ending at ends ⊢
  cases ends with
  | ok extended' => exact ⟨_, rfl, extended'⟩

private theorem pastAll_top (program : List Stmt) : Nesting.top.pastAll program = .top := by
  induction program with
  | nil => rfl
  | cons stmt rest ih => rw [Nesting.pastAll, past_top, ih]

private theorem resolveProgram_append {globals : Globals} {first second : List Stmt}
    {found found' : Resolution} (proper : Covered Site.Proper (stmtsSites .top first))
    (accepts : resolveProgram globals first = .ok found)
    (accepts' : resolveProgram found.globals second = .ok found') :
    ∃ whole, resolveProgram globals (first ++ second) = .ok whole ∧
      whole.globals = found'.globals ∧
      ∀ id, whole.depths.find? id = (found'.depths.find? id).or (found.depths.find? id) := by
  obtain ⟨middle, walked, rfl⟩ := resolveProgram_ok accepts
  obtain ⟨last, walked', rfl⟩ := resolveProgram_ok accepts'
  have moreFirst : ∀ name, (hoistedNames first).contains name →
      (hoistedNames (first ++ second)).contains name := by
    intro name
    simp only [contains_hoistedNames, List.filterMap_append, List.mem_append]
    exact .inl
  have moreSecond : ∀ name, (hoistedNames second).contains name →
      (hoistedNames (first ++ second)).contains name := by
    intro name
    simp only [contains_hoistedNames, List.filterMap_append, List.mem_append]
    exact .inr
  obtain ⟨middle', walkedMiddle, extended⟩ := resolveStmts_extended .empty moreFirst
    ⟨rfl, rfl, rfl, fun id => by simp [State.start]⟩ walked
  -- Back at the top, nothing is left of the first piece but its globals and depths.
  have atTop : middle.scopes = [] := by
    obtain ⟨ledger, ledgerWalk, rfl, -⟩ :=
      ledger_of_resolveStmts (hoistedNames first) (.top (hoistedNames first)) walked
    have top : Agrees .top (Ledger.start globals).state := rfl
    have agrees := walked_stmts (hoistedNames first) (around_top (hoistedNames first)) trivial top
      first proper
    rw [ledgerWalk] at agrees
    have names : ledger.state.scopes.map Scope.names = (Nesting.top.pastAll first).scopes :=
      agrees.1
    rw [pastAll_top] at names
    exact List.map_eq_nil_iff.mp names
  have restarts : (State.start middle.globals).Alike (.wider moreSecond) id middle'.depths 0
      middle' :=
    ⟨extended.globals, rfl, extended.scopes.trans atTop, fun id => by simp [State.start]⟩
  obtain ⟨last', walkedLast, extended'⟩ := resolveStmts_extended middle'.depths moreSecond restarts
    walked'
  refine ⟨{ depths := last'.depths, globals := last'.globals }, ?_, extended'.globals, ?_⟩
  · rw [resolveProgram, resolveStmts_append, walkedMiddle]
    change (resolveStmts _ second middle' >>= _) = _
    rw [walkedLast]
    rfl
  · intro id
    have same : middle'.depths.find? id = middle.depths.find? id := by
      simpa using extended.depths id
    rw [← same]
    exact extended'.depths id

end Binding

theorem Run.MachineAlike.unique {change : RefId → RefId} {first second third : Machine}
    (alike : MachineAlike (.ofIds change) first second)
    (alike' : MachineAlike (.ofIds change) first third) : third = second := by
  have store := alike.store.unique alike'.store
  obtain ⟨frame, sink, ticks⟩ : third.frame = second.frame ∧ third.sink = second.sink ∧
      third.ticks = second.ticks :=
    ⟨alike'.frame.trans alike.frame.symm, alike'.sink.trans alike.sink.symm,
      alike'.ticks.trans alike.ticks.symm⟩
  obtain ⟨frame', store', sink', ticks'⟩ := third
  simp_all

private theorem Code.renumber_eq_self {change : RefId → RefId} (code : Code)
    (unchanged : Covered (Site.Agree change id) code.sites) : code.renumber change = code := by
  rw [code.renumber_congr unchanged, code.renumber_id]

theorem Chronicle.Sound.run_eq {chronicle : Chronicle} (sound : chronicle.Sound) {input : Input}
    {code : Code} {ready : Session} (checked : chronicle.session.check input = (.ok code, ready))
    {change : RefId → RefId} {rules : Rules} (alike : RulesAlike change ready.rules rules)
    (unchanged : ∀ site, site ∈ chronicle.sites ++ code.sites → Site.Agree change id site)
    (steps : Nat) :
    code.run rules steps ready.machine = code.run ready.rules steps ready.machine := by
  have begins : MachineAlike (.ofIds change) ready.machine ready.machine :=
    ⟨rfl, .of_coherent (sound.poised checked).coherent unchanged, rfl, rfl⟩
  have follows := code.follows_run alike steps begins
  have same : code.renumber (Relabeling.ofIds change).ids = code :=
    code.renumber_eq_self fun site member => unchanged site (List.mem_append_right _ member)
  rw [same, Relabeling.value_ofIds, Option.map_id] at follows
  have fares := sound.fares checked steps
  have erases := code.noted_erases ready.rules steps chronicle.notes ready.machine
  unfold Fares at fares
  -- The machine that the run ends with has texts with unchanged numbers only.
  have settled {notes : Notes} {machine machine' : Machine}
      (coherent : Coherent (· ∈ chronicle.sites ++ code.sites) notes machine.store)
      (ends : MachineAlike (.ofIds change) machine machine') : machine' = machine := by
    have same : MachineAlike (.ofIds change) machine machine :=
      ⟨rfl, .of_coherent coherent unchanged, rfl, rfl⟩
    exact same.unique ends
  rw [← erases] at follows ⊢
  generalize code.noted ready.rules steps chronicle.notes ready.machine = ending at fares follows ⊢
  obtain ⟨notes, outcome⟩ := ending
  obtain ⟨_, -, -, ends⟩ := fares
  generalize code.run rules steps ready.machine = outcome' at follows ⊢
  cases outcome <;> cases outcome' <;> try exact follows.elim
  case done.done => rw [follows.1, settled ends.2.1.coherent follows.2, id]
  case stopped.stopped => rw [follows.1, settled ends.2.1.coherent follows.2]
  case exhausted.exhausted => rfl

def Run.Outcome.ending {α : Type} : Outcome α → Option (Option Failure × Machine)
  | .done _ machine => some (none, machine)
  | .stopped reason machine => some (some (Session.stopFailure reason), machine)
  | .exhausted => none

def Reply.ending {α : Type} : Reply α → Option (Option Failure × Machine)
  | .done _ session => some (none, session.machine)
  | .failed failure session => some (some failure, session.machine)
  | .exhausted => none

namespace Session

def runChecked (steps : Nat) (session : Session) (program : List Stmt)
    (found : Binding.Resolution) : Reply Unit :=
  (session.commit found).atTop.perform fun rules => interpret rules steps program

def runInTurn (steps : Nat) (session : Session) (first : List Stmt) (found : Binding.Resolution)
    (second : List Stmt) (found' : Binding.Resolution) : Reply Unit :=
  match session.runChecked steps first found with
  | .done _ middle => middle.runChecked steps second found'
  | reply => reply

private theorem ending_perform {α : Type} (session : Session) (body : Rules → Eval α) :
    (session.perform body).ending = (body session.rules session.machine).ending := by
  unfold perform
  cases body session.rules session.machine <;> rfl

theorem ending_runChecked (steps : Nat) (session : Session) (program : List Stmt)
    (found : Binding.Resolution) :
    (session.runChecked steps program found).ending =
      (interpret (session.commit found).rules steps program session.atTop.machine).ending :=
  ending_perform _ _

private theorem ending_runInTurn (steps : Nat) (session : Session) (first : List Stmt)
    (found : Binding.Resolution) (second : List Stmt) (found' : Binding.Resolution) :
    (session.runInTurn steps first found second found').ending =
      match interpret (session.commit found).rules steps first session.atTop.machine with
      | .done _ machine =>
        (interpret ((session.commit found).commit found').rules steps second
          { machine with frame := .top }).ending
      | outcome => outcome.ending := by
  have rules : (session.commit found).atTop.rules = (session.commit found).rules := rfl
  have machine : (session.commit found).atTop.machine = session.atTop.machine := rfl
  unfold runInTurn
  rw [runChecked, perform]
  simp only [rules, machine]
  cases interpret (session.commit found).rules steps first session.atTop.machine with
  | done value machine => exact ending_perform _ _
  | stopped reason machine => rfl
  | exhausted => rfl

private theorem check_of_accepted {session : Session} {source : String} {program : List Stmt}
    {limit : Nat} {found : Binding.Resolution}
    (reads : session.readProgram source = .ok (program, { session with nextId := limit }))
    (accepts : Binding.resolveProgram session.globals program = .ok found) :
    session.check (.program source) =
      (.ok (.program program), (Session.commit { session with nextId := limit } found).atTop) := by
  simp only [check, read, reads, Except.map, Code.resolve, accepts, Code.place]

private theorem readProgram_congr {session other : Session} {source : String} {program : List Stmt}
    {limit : Nat} (same : other.nextId = session.nextId)
    (reads : session.readProgram source = .ok (program, { session with nextId := limit })) :
    other.readProgram source = .ok (program, { other with nextId := limit }) := by
  simp only [readProgram, same] at reads ⊢
  cases scanned : Token.scan source with
  | error fault => simp [scanned] at reads
  | ok tokens =>
    simp only [scanned] at reads ⊢
    cases parsed : parseProgram tokens session.nextId with
    | fault fault state => simp [parsed] at reads
    | ok parsedProgram state =>
      simp only [parsed, Except.ok.injEq, Prod.mk.injEq] at reads ⊢
      obtain ⟨rfl, sessions⟩ := reads
      have counter : state.nextId = limit := congrArg Session.nextId sessions
      exact ⟨rfl, by rw [counter]⟩

end Session

private theorem Run.interpret_append (rules : Rules) (steps : Nat) (first second : List Stmt)
    (machine : Machine) :
    interpret rules steps (first ++ second) machine =
      match interpret rules steps first machine with
      | .done _ machine => interpret rules steps second machine
      | outcome => outcome := by
  induction first generalizing machine with
  | nil => rfl
  | cons stmt rest ih =>
    rw [List.cons_append, interpret, interpret]
    simp only [bind]
    cases execute rules steps stmt machine with
    | done flow machine => exact ih machine
    | stopped reason machine => rfl
    | exhausted => rfl

private theorem Code.interpret_eq_of_run {rules rules' : Rules} {steps : Nat} {program : List Stmt}
    {machine : Machine}
    (same : (Code.program program).run rules steps machine =
      (Code.program program).run rules' steps machine) :
    interpret rules steps program machine = interpret rules' steps program machine := by
  simp only [run, bind] at same
  generalize interpret rules steps program machine = outcome at same ⊢
  generalize interpret rules' steps program machine = outcome' at same ⊢
  cases outcome <;> cases outcome' <;> simp_all [pure]

def Binding.Depths.Within (depths : Depths) (first limit : Nat) : Prop :=
  ∀ (id : Nat) depth, depths.find? id = some depth → first ≤ id ∧ id < limit

private theorem Binding.Depths.Within.find?_eq_none {depths : Depths} {first limit id : Nat}
    (within : depths.Within first limit) (outside : id < first ∨ limit ≤ id) :
    depths.find? id = none := by
  cases found : depths.find? id with
  | none => rfl
  | some depth =>
    have bounds := within id depth found
    omega

private theorem find?_later {known found found' whole : Binding.Depths} {first middle last : Nat}
    (order : first ≤ middle) (order' : middle ≤ last) (old : known.Within 0 first)
    (new : found.Within first middle) (new' : found'.Within middle last)
    (union : ∀ id, whole.find? id = (found'.find? id).or (found.find? id)) (id : Nat) :
    (known.merge whole).find? (laterFrom middle (last - middle) id) =
      (known.merge found).find? id := by
  rw [Binding.Depths.find?_merge, Binding.Depths.find?_merge, union]
  rcases Nat.lt_or_ge id middle with before | above
  · rw [laterFrom_of_lt _ before, new'.find?_eq_none (.inl before), Option.none_or]
  · rw [laterFrom_of_le _ above]
    have beyond : last ≤ id + (last - middle) := by omega
    rw [new'.find?_eq_none (.inr beyond), new.find?_eq_none (.inr (by omega)),
      old.find?_eq_none (.inr (by omega)), new.find?_eq_none (.inr above),
      old.find?_eq_none (.inr (by omega))]
    rfl

private theorem rules_commit_commit {session : Session} {found found' whole : Binding.Resolution}
    (union : ∀ id, whole.depths.find? id = (found'.depths.find? id).or (found.depths.find? id)) :
    RulesAlike id ((session.commit found).commit found').rules (session.commit whole).rules where
  depths number := by
    simp only [id_eq, Session.rules, Session.commit, Binding.Depths.find?_merge, union,
      Option.or_assoc]
  maxDepth := rfl
  clock := rfl

section Turns

variable {chronicle : Chronicle} (sound : chronicle.Sound) {source source' : String}
  {first second : List Stmt} {middle last : Nat} {found found' whole : Binding.Resolution}
  (reads : chronicle.session.readProgram source =
    .ok (first, { chronicle.session with nextId := middle }))
  (reads' : Session.readProgram { chronicle.session with nextId := middle } source' =
    .ok (second, { chronicle.session with nextId := last }))
  (accepts : Binding.resolveProgram chronicle.session.globals first = .ok found)
  (accepts' : Binding.resolveProgram found.globals second = .ok found')
  (union : ∀ id, whole.depths.find? id = (found'.depths.find? id).or (found.depths.find? id))

include sound reads reads' accepts accepts' union

theorem Chronicle.Sound.second_same {steps : Nat} {machine : Machine}
    (done : interpret (chronicle.session.commit found).rules steps first
      chronicle.session.atTop.machine = .done () machine) :
    machine.frame = .top ∧
    interpret (chronicle.session.commit whole).rules steps second machine =
      interpret ((chronicle.session.commit found).commit found').rules steps second machine := by
  have checked := Session.check_of_accepted reads accepts
  set ready := (Session.commit { chronicle.session with nextId := middle } found).atTop
    with isReady
  have answer : (chronicle.session.respond steps (.program source)).session? =
      some { ready with machine } := by
    have ran : interpret ready.rules steps first ready.machine = .done () machine := done
    rw [Session.respond_eq, checked]
    simp only [Session.proceed, Session.perform, Code.run, bind, ran]
    rfl
  have sound' := sound.follow answer
  have read' := @Session.readProgram_congr { chronicle.session with nextId := middle }
    { ready with machine } source' second last rfl reads'
  have checked' := Session.check_of_accepted read' accepts'
  have atTop : machine.frame = .top := sound'.frame
  have alike : RulesAlike id ((chronicle.session.commit found).commit found').rules
    (chronicle.session.commit whole).rules := rules_commit_commit union
  have same := Code.interpret_eq_of_run
    (sound'.run_eq checked' alike (fun _ _ _ _ _ => rfl) steps)
  have stays : { machine with frame := .top } = machine := by rw [← atTop]
  refine ⟨atTop, ?_⟩
  rw [← stays]
  exact same

/-- The statements of two programs at once run as the two in turn. -/
theorem Chronicle.Sound.ending_append
    (apart : ∀ id, (chronicle.session.depths.merge whole.depths).find?
      (laterFrom middle (last - middle) id) =
        (chronicle.session.depths.merge found.depths).find? id) (steps : Nat) :
    (chronicle.session.runChecked steps (first ++ second) whole).ending =
      (chronicle.session.runInTurn steps first found second found').ending := by
  obtain ⟨limit, same, order, tidy⟩ := Session.tidy_of_readProgram reads
  obtain rfl : middle = limit := congrArg Session.nextId same
  have unchanged : ∀ site, site ∈ chronicle.sites ++ stmtsSites .top first →
      Site.Agree (laterFrom middle (last - middle)) id site := by
    intro site member id depth used
    refine laterFrom_of_lt _ ?_
    rcases List.mem_append.mp member with earlier | here
    · exact Nat.lt_of_lt_of_le (sound.used site earlier id depth used) order
    · exact (tidy.range site here id depth used).2
  have alike : RulesAlike (laterFrom middle (last - middle))
      (chronicle.session.commit found).rules (chronicle.session.commit whole).rules :=
    ⟨apart, rfl, rfl⟩
  have firstSame : interpret (chronicle.session.commit whole).rules steps first
      chronicle.session.atTop.machine = interpret (chronicle.session.commit found).rules steps first
        chronicle.session.atTop.machine :=
    Code.interpret_eq_of_run
      (sound.run_eq (Session.check_of_accepted reads accepts) alike unchanged steps)
  rw [Session.ending_runChecked, Session.ending_runInTurn, interpret_append, firstSame]
  cases done : interpret (chronicle.session.commit found).rules steps first
      chronicle.session.atTop.machine with
  | done value machine =>
    obtain ⟨atTop, secondSame⟩ := sound.second_same reads reads' accepts accepts' union done
    simp only [secondSame, ← atTop]
  | stopped reason machine => rfl
  | exhausted => rfl

end Turns

/-- Running in pieces is running at once. If a session accepts a program and then, given the globals
of the first, a second one, then it accepts the statements of both as one program, with the globals
of the second and the depths of both. That program emits the same, ends or fails the same and
leaves the same store as the first program and, unless it fails, the second one. -/
theorem pieces_run_as_one {chronicle : Chronicle} (reached : chronicle.Reached)
    {source source' : String} {first second : List Stmt} {after after' : Session}
    {found found' : Binding.Resolution}
    (reads : chronicle.session.readProgram source = .ok (first, after))
    (reads' : after.readProgram source' = .ok (second, after'))
    (accepts : Binding.resolveProgram chronicle.session.globals first = .ok found)
    (accepts' : Binding.resolveProgram found.globals second = .ok found') :
    ∃ whole, Binding.resolveProgram chronicle.session.globals (first ++ second) = .ok whole ∧
      whole.globals = found'.globals ∧
      (∀ id depth, whole.depths.find? id = some depth ↔
        found.depths.find? id = some depth ∨ found'.depths.find? id = some depth) ∧
      ∀ steps, (after'.runChecked steps (first ++ second) whole).ending =
        (after'.runInTurn steps first found second found').ending := by
  have sound := reached.sound
  obtain ⟨middle, rfl, order, tidy⟩ := Session.tidy_of_readProgram reads
  obtain ⟨last, rfl, order', tidy'⟩ := Session.tidy_of_readProgram reads'
  have new : found.depths.Within chronicle.session.nextId middle :=
    (Binding.sound_of_resolveProgram tidy accepts).2
  have new' : found'.depths.Within middle last :=
    (Binding.sound_of_resolveProgram tidy' accepts').2
  have old : chronicle.session.depths.Within 0 chronicle.session.nextId :=
    fun id depth noted => ⟨Nat.zero_le id, sound.noted id depth noted⟩
  obtain ⟨whole, accepted, globals, union⟩ :=
    Binding.resolveProgram_append tidy.proper accepts accepts'
  refine ⟨whole, accepted, globals, ?_, fun steps => ?_⟩
  · intro id depth
    rw [union]
    rcases Nat.lt_or_ge id middle with before | above
    · simp [new'.find?_eq_none (.inl before)]
    · simp [new.find?_eq_none (.inr above)]
  · have same := sound.ending_append reads reads' accepts accepts' union
      (find?_later order order' old new new' union) steps
    rw [Session.ending_runChecked, Session.ending_runInTurn] at same ⊢
    exact same

def freshSession : Session :=
  .start {} (fun _ => 0) .capturing

def openingText : String :=
  "var n = 1; fn f() { var m = n; return m; } print f();"

def closingText : String :=
  "{ var k = f(); fn g() { return k + n; } print g(); }"

def openingPiece : List Stmt × Session :=
  (freshSession.readProgram openingText).toOption.getD ([], freshSession)

def closingPiece : List Stmt × Session :=
  (openingPiece.2.readProgram closingText).toOption.getD ([], freshSession)

def openingFound : Binding.Resolution :=
  (Binding.resolveProgram freshSession.globals openingPiece.1).toOption.getD ⟨.empty, .initial⟩

def closingFound : Binding.Resolution :=
  (Binding.resolveProgram openingFound.globals closingPiece.1).toOption.getD ⟨.empty, .initial⟩

/-- Two programs that print a line each, in turn and at once. -/
theorem opening_and_closing_run_as_one :
    ((closingPiece.2.runInTurn 40 openingPiece.1 openingFound closingPiece.1
      closingFound).ending.map fun ending => ending.2.sink.lines) = some ["1", "2"] ∧
    ∃ whole, Binding.resolveProgram freshSession.globals (openingPiece.1 ++ closingPiece.1) =
        .ok whole ∧
      whole.globals = closingFound.globals ∧
      (∀ id depth, whole.depths.find? id = some depth ↔
        openingFound.depths.find? id = some depth ∨ closingFound.depths.find? id = some depth) ∧
      ∀ steps, (closingPiece.2.runChecked steps (openingPiece.1 ++ closingPiece.1) whole).ending =
        (closingPiece.2.runInTurn steps openingPiece.1 openingFound closingPiece.1
          closingFound).ending := by
  have reached : (Chronicle.start {} (fun _ => 0) .capturing).Reached := .start {} (fun _ => 0) _
  -- One evaluation, so that each text is read once.
  have found : ((freshSession.readProgram openingText).toBool = true ∧
      (openingPiece.2.readProgram closingText).toBool = true ∧
      (Binding.resolveProgram freshSession.globals openingPiece.1).toBool = true ∧
      (Binding.resolveProgram openingFound.globals closingPiece.1).toBool = true) ∧
      ((closingPiece.2.runInTurn 40 openingPiece.1 openingFound closingPiece.1
        closingFound).ending.map fun ending => ending.2.sink.lines) = some ["1", "2"] := by
    decide +kernel
  obtain ⟨⟨reads, reads', accepts, accepts'⟩, shows⟩ := found
  exact ⟨shows, pieces_run_as_one reached (eq_ok_of_toBool _ reads) (eq_ok_of_toBool _ reads')
    (eq_ok_of_toBool _ accepts) (eq_ok_of_toBool _ accepts')⟩

end ClassScript
