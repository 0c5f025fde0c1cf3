import ClassScript.Proofs.Discipline
import ClassScript.Proofs.Invariant
import ClassScript.Proofs.SessionInputs

/-!
The chronicle of a session: the session, the notes on all its runs so far, and the sites of the
texts it has accepted. It stays sound whatever the session is asked.
-/

set_option autoImplicit false

namespace ClassScript

open Run

def Code.sites : Code → List Site
  | .program statements => stmtsSites .top statements
  | .expression expr => exprSites .top expr

def Code.declared : Code → List String
  | .program statements => statements.filterMap Binding.declaredName?
  | .expression _ => []

def Code.noted (rules : Rules) (steps : Nat) : Code → Traced (Option Value)
  | .program statements => do
    Traced.interpret rules steps statements
    pure none
  | .expression expr => do
    let value ← Traced.evaluate rules steps 0 .top expr
    pure (some value)

theorem Code.keeps {rules : Rules} {limit : Nat} (logic : Discipline rules limit) {many few : Nat}
    (near : logic.Near 0 many few) (code : Code) :
    logic.Holds False (code.noted rules many) (code.run (rules.allowing limit) few) := by
  cases code with
  | program statements =>
    exact logic.bind (logic.interpret near statements) fun _ => logic.pure _
  | expression expr =>
    exact logic.bind ((logic.covers many few).evaluate False near .top expr) fun _ => logic.pure _

theorem Code.noted_erases (rules : Rules) (steps : Nat) (code : Code) :
    Traced.Erases (code.noted rules steps) (code.run rules steps) :=
  code.keeps (Traced.erasing rules) rfl

def Code.renumber (change : RefId → RefId) : Code → Code
  | .program statements => .program (renumberStmts change statements)
  | .expression expr => .expression (expr.renumber change)

theorem Code.renumber_congr {change change' : RefId → RefId} (code : Code)
    (agree : Covered (Site.Agree change change') code.sites) :
    code.renumber change = code.renumber change' := by
  cases code with
  | program stmts => exact congrArg program (((renumbers_stmts stmts).2 _ _ .top).mp agree)
  | expression expr => exact congrArg expression (((renumbers_expr expr).2 _ _ .top).mp agree)

theorem Code.renumber_id (code : Code) : code.renumber id = code := by
  cases code with
  | program statements => rw [renumber, renumber_id_stmts]
  | expression expr => rw [renumber, renumber_id_expr]

def Session.reply {α : Type} (session : Session) : Outcome α → Reply α
  | .done value machine => .done value { session with machine }
  | .stopped reason machine => .failed (stopFailure reason) { session with machine }
  | .exhausted => .exhausted

theorem Session.proceed_ok (steps : Nat) (code : Code) (ready : Session) :
    proceed steps (.ok code, ready) = ready.reply (code.run ready.rules steps ready.machine) :=
  rfl

theorem Session.session?_reply {α : Type} (session : Session) (outcome : Outcome α) :
    (session.reply outcome).session? =
      outcome.machine?.map fun machine => { session with machine } := by
  cases outcome <;> rfl

/-- The lines in the sink once the session has replied. -/
def Session.printed (steps : Nat) (session : Session) (input : Input) : Option (List String) :=
  (session.respond steps input).session?.map fun after => after.machine.sink.lines

/-- A session with the notes on its runs so far and the sites of the texts it has accepted. -/
structure Chronicle where
  session : Session
  notes : Notes
  sites : List Site

namespace Chronicle

def start (settings : Settings) (clock : Nat → Float) (sink : Sink) : Chronicle :=
  { session := .start settings clock sink, notes := .start, sites := [] }

def ask (steps : Nat) (chronicle : Chronicle) (input : Input) : Notes × Reply (Option Value) :=
  match chronicle.session.check input with
  | (.error failure, after) => (chronicle.notes, .failed failure after)
  | (.ok code, ready) =>
    let (notes, outcome) := code.noted ready.rules steps chronicle.notes ready.machine
    (notes, ready.perform fun _ _ => outcome)

/-- The sites of the texts that are accepted once an input has been checked. -/
def sitesWith (chronicle : Chronicle) (input : Input) : List Site :=
  match (chronicle.session.check input).1 with
  | .ok code => chronicle.sites ++ code.sites
  | .error _ => chronicle.sites

/-- The chronicle after an answer. The moments of the answer have been dealt with. -/
def follow (chronicle : Chronicle) (steps : Nat) (input : Input) (after : Session) : Chronicle :=
  { session := after
    notes := { (chronicle.ask steps input).1 with moments := [] }
    sites := chronicle.sitesWith input }

inductive Reached : Chronicle → Prop
  | start (settings : Settings) (clock : Nat → Float) (sink : Sink) :
    Reached (start settings clock sink)
  | answered {chronicle : Chronicle} {steps : Nat} {input : Input} {after : Session}
    (reached : Reached chronicle)
    (answer : (chronicle.session.respond steps input).session? = some after) :
    Reached (chronicle.follow steps input after)
  | takeLines {chronicle : Chronicle} (reached : Reached chronicle) :
    Reached { chronicle with session := chronicle.session.takeLines.2 }

theorem ask_reply (steps : Nat) (chronicle : Chronicle) (input : Input) :
    (chronicle.ask steps input).2 = chronicle.session.respond steps input := by
  rw [Session.respond_eq]
  unfold ask Session.proceed
  obtain ⟨result, ready⟩ := chronicle.session.check input
  cases result with
  | error failure => rfl
  | ok code =>
    have same := code.noted_erases ready.rules steps chronicle.notes ready.machine
    simp only [Session.perform, same]

end Chronicle

/-- What the static checks of a text find out, and how the session takes it over. -/
structure Session.Accepts (session : Session) (code : Code) (ready : Session)
    (found : Binding.Depths) : Prop where
  sound : ∀ site ∈ code.sites, site.Sound found
  range : ∀ site ∈ code.sites, ∀ (id : Nat) depth, site.use? = some (id, depth) →
    session.nextId ≤ id ∧ id < ready.nextId
  fresh : ∀ (id : Nat) depth, found.find? id = some depth → session.nextId ≤ id ∧ id < ready.nextId
  counter : session.nextId ≤ ready.nextId
  depths : ready.depths = session.depths.merge found
  store : ready.machine.store = session.machine.store
  frame : session.machine.frame = .top → ready.machine.frame = .top

variable {after session ready : Session} {code : Code} {input : Input} {globals : Binding.Globals}
  {resolution : Binding.Resolution} {first : Nat} {depths found : Binding.Depths} {site : Site}

theorem Session.tidy_of_read (isRead : session.read input = .ok (code, after)) :
    ∃ limit, after = { session with nextId := limit } ∧ session.nextId ≤ limit ∧
      Tidy session.nextId limit code.sites := by
  cases input with
  | program source =>
    cases result : session.readProgram source with
    | error failure => simp [read, result, Except.map] at isRead
    | ok found =>
      simp only [read, result, Except.map, Except.ok.injEq, Prod.mk.injEq] at isRead
      obtain ⟨rfl, rfl⟩ := isRead
      exact tidy_of_readProgram result
  | expression source =>
    cases result : session.readExpression source with
    | error failure => simp [read, result, Except.map] at isRead
    | ok found =>
      simp only [read, result, Except.map, Except.ok.injEq, Prod.mk.injEq] at isRead
      obtain ⟨rfl, rfl⟩ := isRead
      exact tidy_of_readExpression result

def Code.ledger (globals : Binding.Globals) : Code → Except (Located Binding.Fault) Binding.Ledger
  | .program statements => Binding.ledgerOfProgram globals statements
  | .expression expr => Binding.ledgerOfLone globals expr

theorem Code.ledger_of_resolve (proper : Covered Site.Proper code.sites)
    (resolved : code.resolve globals = .ok resolution) :
    ∃ ledger, code.ledger globals = .ok ledger ∧ ledger.Kept ∧
      resolution = { depths := ledger.state.depths, globals := ledger.state.globals } ∧
      Binding.Entered code.sites [] ledger.entries := by
  cases code with
  | program statements =>
    obtain ⟨ledger, walked, kept, same, -, seen⟩ := Binding.ledger_of_resolveProgram proper resolved
    exact ⟨ledger, walked, kept, same, seen.entered⟩
  | expression expr =>
    obtain ⟨ledger, walked, kept, same, seen⟩ := Binding.ledger_of_resolveLone proper resolved
    exact ⟨ledger, walked, kept, same, seen.entered⟩

private theorem Code.sound_of_resolve {limit : Nat} (tidy : Tidy first limit code.sites)
    (resolved : code.resolve globals = .ok resolution) :
    (∀ site ∈ code.sites, site.Sound resolution.depths) ∧
      ∀ (id : Nat) depth, resolution.depths.find? id = some depth → first ≤ id ∧ id < limit := by
  obtain ⟨ledger, -, kept, rfl, entered⟩ := code.ledger_of_resolve tidy.proper resolved
  exact entered.sound kept tidy

theorem Session.resolves_of_check (checked : session.check input = (.ok code, ready)) :
    ∃ resolution limit, code.resolve session.globals = .ok resolution ∧
      session.nextId ≤ limit ∧ Tidy session.nextId limit code.sites ∧
      ready = code.place (Session.commit { session with nextId := limit } resolution) := by
  unfold check at checked
  split at checked
  · simp at checked
  rename_i read after isRead
  split at checked
  · simp at checked
  rename_i resolution resolved
  obtain ⟨rfl, rfl⟩ := checked
  obtain ⟨limit, rfl, counter, tidy⟩ := tidy_of_read isRead
  exact ⟨resolution, limit, resolved, counter, tidy, rfl⟩

theorem Session.accepts_of_check (checked : session.check input = (.ok code, ready)) :
    ∃ found, session.Accepts code ready found := by
  obtain ⟨resolution, limit, resolved, counter, tidy, rfl⟩ := resolves_of_check checked
  obtain ⟨sound, fresh⟩ := code.sound_of_resolve tidy resolved
  refine ⟨resolution.depths, ?_⟩
  cases code with
  | program statements =>
    exact ⟨sound, tidy.range, fresh, counter, rfl, rfl, fun _ => rfl⟩
  | expression expr =>
    exact ⟨sound, tidy.range, fresh, counter, rfl, rfl, fun atTop => atTop⟩

theorem Session.check_error {failure : Failure}
    (checked : session.check input = (.error failure, after)) :
    after = { session with nextId := after.nextId } ∧ session.nextId ≤ after.nextId := by
  unfold check at checked
  split at checked
  · simp only [Prod.mk.injEq] at checked
    obtain ⟨-, rfl⟩ := checked
    exact ⟨rfl, Nat.le_refl _⟩
  rename_i read next isRead
  split at checked
  · simp only [Prod.mk.injEq] at checked
    obtain ⟨-, rfl⟩ := checked
    obtain ⟨limit, rfl, counter, -⟩ := tidy_of_read isRead
    exact ⟨rfl, counter⟩
  · simp at checked

theorem Site.Sound.merge_later (sound : site.Sound depths)
    (before : ∀ (id : Nat) depth, site.use? = some (id, depth) → id < first)
    (fresh : ∀ (id : Nat) depth, found.find? id = some depth → first ≤ id) :
    site.Sound (depths.merge found) := by
  refine ⟨sound.proper, sound.placed, ?_⟩
  intro id depth used
  rw [Binding.Depths.find?_merge]
  cases noted : found.find? id with
  | none => simpa using sound.recorded id depth used
  | some other => exact absurd (fresh id other noted) (Nat.not_le.mpr (before id depth used))

theorem Site.Sound.merge_earlier (sound : site.Sound found)
    (fresh : ∀ (id : Nat) depth, site.use? = some (id, depth) → first ≤ id)
    (before : ∀ (id : Nat) depth, depths.find? id = some depth → id < first) :
    site.Sound (depths.merge found) := by
  refine ⟨sound.proper, sound.placed, ?_⟩
  intro id depth used
  rw [Binding.Depths.find?_merge, sound.recorded id depth used]
  cases depth with
  | some depth => rfl
  | none =>
    cases noted : depths.find? id with
    | none => rfl
    | some other => exact absurd (before id other noted) (Nat.not_lt.mpr (fresh id none used))

namespace Run

def Watch.full : Watch :=
  { on := True, hidden := fun _ => False }

private theorem builtin_of_holds {value : Value} (holds : Holds Store.initial value) :
    ∃ which, value = .builtin which := by
  rcases holds_addScope holds with impossible | ⟨name, bound⟩
  · cases impossible with
    | scope bound => simp [Store.getHere?, Store.empty] at bound
    | field set => simp [Store.getField?, Store.empty] at set
    | item stored => simp [Store.items, Store.empty] at stored
    | entry stored => simp [Store.entries, Store.empty] at stored
  · rcases mem_of_find?_insertAll bound with impossible | ⟨other, member⟩
    · simp at impossible
    · obtain ⟨which, -, same⟩ := List.mem_map.mp member
      exact ⟨which, (Prod.mk.inj same).2.symm⟩

private theorem coherent_start (text : Site → Prop) : Coherent text Notes.start Store.initial where
  origins_size := rfl
  functions_size := rfl
  classes_size := rfl
  functions ref closure spot stored := by
    simp [Store.initial, Store.empty, Store.addScope] at stored
  classes ref found note stored := by simp [Store.initial, Store.empty, Store.addScope] at stored
  methods ref found name method note stored := by
    simp [Store.initial, Store.empty, Store.addScope] at stored
  tables := by
    refine ⟨?_, ?_⟩ <;> intro ref found name member stored <;>
      simp [Store.initial, Store.empty, Store.addScope] at stored
  known value holds := by
    obtain ⟨which, rfl⟩ := builtin_of_holds holds
    trivial
  globals := ⟨_, rfl⟩
  completed ref name noted := by simp [Notes.start] at noted

private theorem formed_start :
    Formed { origins := Notes.start.origins, store := Store.initial } where
  sizes := rfl
  older ref found parent stored := by simp [Store.initial, Store.empty, Store.addScope] at stored
  tabled ref found stored := by simp [Store.initial, Store.empty, Store.addScope] at stored
  supers above decl origin := by
    have inside := (Array.getElem?_eq_some_iff.mp origin).1
    have first : above = 0 := by simpa [Notes.start] using inside
    subst first
    simp [Notes.start] at origin

private theorem tended_start :
    Tended .full { origins := Notes.start.origins, store := Store.initial } where
  formed _ := formed_start
  held value holds := by
    obtain ⟨which, rfl⟩ := builtin_of_holds holds
    trivial
  inside _ _ hides := hides.elim

def Terms.declaring (declared : List String) : Terms :=
  { watch := .full
    kept := fun _ => False
    opened := fun ref name => ref = Store.globalScope → name ∈ declared }

theorem Terms.declaring_fair (declared : List String) : (Terms.declaring declared).Fair :=
  fun _ keep => keep.elim

def Bound (store : Store) (name : String) : Prop :=
  (store.getHere? Store.globalScope name).isSome

theorem Bound.changed {scene scene' : Scene} {name : String} (bound : Bound scene.store name)
    (changed : Changed scene scene') : Bound scene'.store name :=
  changed.grows.getHere?_isSome bound

/-- The value of code is whole, and there are the globals that the code declares. -/
def FineResult (declared : List String) (result : Option Value) (_ : Notes) (after : Machine) :
    Prop :=
  (∀ value, result = some value → Fine .full after.store value) ∧
    ∀ name ∈ declared, Bound after.store name

private theorem standing_top {origins : Array (Option Construct)} {machine : Machine}
    (atTop : machine.frame = .top) : Standing origins machine .top := by
  refine ⟨rfl, ?_, ?_⟩
  · rw [atTop]
    rfl
  · rw [OwnerFits, atTop]
    rfl

theorem past_top (stmt : Stmt) : Nesting.top.past stmt = .top := by
  cases stmt <;> rfl

section Programs

variable {text : Site → Prop} {rules : Rules} {notes : Notes} {machine : Machine}

private theorem fares_interpret (sound : rules.Suits text) (steps : Nat)
    {declared : List String} (program : List Stmt)
    (listed : ∀ name ∈ program.filterMap Binding.declaredName?, name ∈ declared)
    (covered : Covered text (stmtsSites .top program))
    (poised : Poised text (.declaring declared) notes machine .top) :
    Fares text (.declaring declared) notes machine (Traced.interpret rules steps program)
      fun _ _ after =>
        ∀ name ∈ program.filterMap Binding.declaredName?, Bound after.store name := by
  induction program generalizing notes machine with
  | nil => exact .pure poised.toUpheld (by simp)
  | cons stmt rest ih =>
    rw [stmtsSites, past_top] at covered
    have atTop : machine.frame.scope = Store.globalScope := poised.standing.scope
    have allows : Allows (.declaring declared) machine.frame.scope stmt := fun name declares _ =>
      listed name (List.mem_filterMap.mpr ⟨stmt, List.mem_cons_self, declares⟩)
    refine (Steady.execute sound steps 0 (Terms.declaring_fair _) poised covered.append.1
      allows).bind fun _ notes machine passed isFine => ?_
    rw [atTop] at isFine
    have others : ∀ name ∈ rest.filterMap Binding.declaredName?, name ∈ declared := by
      intro name member
      obtain ⟨found, isRest, declares⟩ := List.mem_filterMap.mp member
      exact listed name (List.mem_filterMap.mpr ⟨found, List.mem_cons_of_mem _ isRest, declares⟩)
    refine (ih others covered.append.2 (passed.poised poised)).mono
      fun _ notes' machine' passed' bound => ?_
    intro name member
    obtain ⟨found, isPart, declares⟩ := List.mem_filterMap.mp member
    rcases List.mem_cons.mp isPart with rfl | isRest
    · have own : Bound (notes.scene machine).store name := isFine.2.2 name declares
      exact own.changed passed'.changed
    · exact bound name (List.mem_filterMap.mpr ⟨found, isRest, declares⟩)

private theorem fares_noted (sound : rules.Suits text) (steps : Nat)
    (code : Code) (covered : Covered text code.sites)
    (poised : Poised text (.declaring code.declared) notes machine .top) :
    Fares text (.declaring code.declared) notes machine (code.noted rules steps)
      (FineResult code.declared) := by
  cases code with
  | program statements =>
    refine (fares_interpret sound steps statements (fun _ member => member) covered poised).bind
      fun _ notes machine passed bound => ?_
    exact .pure passed.upheld ⟨by simp, bound⟩
  | expression expr =>
    refine (Steady.evaluate sound steps 0 (Terms.declaring_fair _) poised covered).bind
      fun value notes machine passed fine => ?_
    refine .pure passed.upheld ⟨?_, by simp [Code.declared]⟩
    intro other same
    obtain rfl := Option.some.inj same
    exact fine

end Programs

end Run

namespace Chronicle

def scene (chronicle : Chronicle) : Scene :=
  chronicle.notes.scene chronicle.session.machine

/-- What holds of every chronicle: references of accepted texts have the depths that are noted for
them, numbers in use are below the counter, the store is coherent, and what it holds is whole. -/
structure Sound (chronicle : Chronicle) : Prop where
  sites : ∀ site ∈ chronicle.sites, site.Sound chronicle.session.depths
  used : ∀ site ∈ chronicle.sites, ∀ (id : Nat) depth, site.use? = some (id, depth) →
    id < chronicle.session.nextId
  noted : ∀ (id : Nat) depth, chronicle.session.depths.find? id = some depth →
    id < chronicle.session.nextId
  coherent : Coherent (· ∈ chronicle.sites) chronicle.notes chronicle.session.machine.store
  tended : Tended .full chronicle.scene
  frame : chronicle.session.machine.frame = .top
  moments : chronicle.notes.moments = []

theorem sound_start (settings : Settings) (clock : Nat → Float) (sink : Sink) :
    (start settings clock sink).Sound where
  sites site member := by simp [start] at member
  used site member := by simp [start] at member
  noted id depth found := by simp [start, Session.start] at found
  coherent := coherent_start _
  tended := tended_start
  frame := rfl
  moments := rfl

variable {chronicle : Chronicle} {input : Input} {code : Code} {ready : Session}

section Checked

variable (sound : chronicle.Sound)
  (checked : chronicle.session.check input = (.ok code, ready))

include sound checked

theorem Sound.sites_checked : ready.rules.Suits (· ∈ chronicle.sites ++ code.sites) := by
  obtain ⟨found, accepts⟩ := Session.accepts_of_check checked
  intro site member
  rw [Session.rules, accepts.depths]
  rcases List.mem_append.mp member with old | new
  · exact (sound.sites site old).merge_later (sound.used site old) fun id depth noted =>
      (accepts.fresh id depth noted).1
  · exact (accepts.sound site new).merge_earlier
      (fun id depth used => (accepts.range site new id depth used).1) sound.noted

/-- A text that has passed the static checks starts at the top with what the store holds. -/
theorem Sound.poised :
    Poised (· ∈ chronicle.sites ++ code.sites) (.declaring code.declared) chronicle.notes
      ready.machine .top := by
  obtain ⟨found, accepts⟩ := Session.accepts_of_check checked
  refine (standing_top (accepts.frame sound.frame)).poised ?_ ?_
  · rw [accepts.store]
    exact sound.coherent.mono fun site member => List.mem_append_left _ member
  · rw [Notes.scene, accepts.store]
    exact sound.tended

theorem Sound.fares (steps : Nat) :
    Fares (· ∈ chronicle.sites ++ code.sites) (.declaring code.declared) chronicle.notes
      ready.machine (code.noted ready.rules steps) (FineResult code.declared) :=
  fares_noted (sound.sites_checked checked) steps code
    (fun _ member => List.mem_append_right _ member) (sound.poised checked)

theorem Sound.after_run {notes : Notes} {machine : Machine}
    (passed : Passed (· ∈ chronicle.sites ++ code.sites) (.declaring code.declared)
      chronicle.notes ready.machine notes machine) :
    Sound {
      session := { ready with machine }
      notes := { notes with moments := [] }
      sites := chronicle.sites ++ code.sites } := by
  obtain ⟨found, accepts⟩ := Session.accepts_of_check checked
  have sites := sound.sites_checked checked
  exact {
    sites
    used := by
      intro site member id depth used
      rcases List.mem_append.mp member with old | new
      · exact Nat.lt_of_lt_of_le (sound.used site old id depth used) accepts.counter
      · exact (accepts.range site new id depth used).2
    noted := by
      intro id depth noted
      rw [accepts.depths, Binding.Depths.find?_merge] at noted
      cases new : found.find? id with
      | some other => exact (accepts.fresh id other new).2
      | none =>
        rw [new, Option.none_or] at noted
        exact Nat.lt_of_lt_of_le (sound.noted id depth noted) accepts.counter
    coherent := (kept_moments passed.coherent []).coherent
    tended := passed.tended
    frame := passed.frame.trans (accepts.frame sound.frame)
    moments := rfl }

end Checked

variable {machine : Machine} {after : Session} {steps : Nat}

theorem ask_of_check (checked : chronicle.session.check input = (.ok code, ready)) (steps : Nat) :
    chronicle.ask steps input =
      ((code.noted ready.rules steps chronicle.notes ready.machine).1,
        ready.perform fun _ _ =>
          (code.noted ready.rules steps chronicle.notes ready.machine).2) := by
  simp only [ask, checked]

theorem ask_of_refusal {failure : Failure} {after : Session}
    (checked : chronicle.session.check input = (.error failure, after)) (steps : Nat) :
    chronicle.ask steps input = (chronicle.notes, .failed failure after) := by
  simp only [ask, checked]

theorem Sound.ran (sound : chronicle.Sound)
    (checked : chronicle.session.check input = (.ok code, ready))
    (answer : (chronicle.session.respond steps input).session? = some after) :
    ∃ machine, after = { ready with machine } ∧
      Run.After (chronicle.ask steps input).1.moments
        ((chronicle.ask steps input).1.scene machine) ∧
      Passed (· ∈ chronicle.sites ++ code.sites) (.declaring code.declared) chronicle.notes
        ready.machine (chronicle.ask steps input).1 machine := by
  obtain ⟨added, moments, -, ends⟩ := sound.fares checked steps
  rw [sound.moments, List.append_nil] at moments
  rw [← ask_reply, ask_of_check checked] at answer
  rw [ask_of_check checked]
  generalize code.noted ready.rules steps chronicle.notes ready.machine = ending at *
  obtain ⟨notes, outcome⟩ := ending
  obtain rfl : notes.moments = added := moments
  cases outcome with
  | done value machine => exact ⟨machine, (Option.some.inj answer).symm, ends.1, ends.2.1⟩
  | stopped reason machine => exact ⟨machine, (Option.some.inj answer).symm, ends.1, ends.2.1⟩
  | exhausted => cases answer

theorem Sound.follow (sound : chronicle.Sound)
    (answer : (chronicle.session.respond steps input).session? = some after) :
    (chronicle.follow steps input after).Sound := by
  cases result : chronicle.session.check input with
  | mk found ready =>
    cases found with
    | error failure =>
      obtain ⟨same, counter⟩ := Session.check_error result
      rw [← ask_reply, ask_of_refusal result] at answer
      obtain rfl := Option.some.inj answer
      simp only [Chronicle.follow, ask, sitesWith, result]
      rw [same]
      exact {
        sites := sound.sites
        used := fun site member id depth used =>
          Nat.lt_of_lt_of_le (sound.used site member id depth used) counter
        noted := fun id depth noted => Nat.lt_of_lt_of_le (sound.noted id depth noted) counter
        coherent := (kept_moments sound.coherent []).coherent
        tended := sound.tended
        frame := sound.frame
        moments := rfl }
    | ok code =>
      obtain ⟨machine, rfl, -, passed⟩ := sound.ran result answer
      simp only [Chronicle.follow, sitesWith, result]
      exact sound.after_run result passed

def declared (chronicle : Chronicle) (input : Input) : List String :=
  match (chronicle.session.check input).1 with
  | .ok code => code.declared
  | .error _ => []

/-- What an answer yields and leaves behind, and the moments before that. -/
structure Answered (chronicle : Chronicle) (steps : Nat) (input : Input) : Prop where
  logged : Logged (· ∈ chronicle.sitesWith input) .full chronicle.scene
    (chronicle.ask steps input).1.moments
  ends : ∀ after, (chronicle.session.respond steps input).session? = some after →
    Run.After (chronicle.ask steps input).1.moments (chronicle.follow steps input after).scene ∧
      Fared (.declaring (chronicle.declared input)) chronicle.scene
        (chronicle.follow steps input after).scene
  fine : ∀ found after, chronicle.session.respond steps input = .done found after →
    FineResult (chronicle.declared input) found (chronicle.ask steps input).1 after.machine

theorem Sound.answered (sound : chronicle.Sound) (steps : Nat) (input : Input) :
    chronicle.Answered steps input := by
  cases result : chronicle.session.check input with
  | mk found ready =>
    cases found with
    | error failure =>
      have asked := ask_of_refusal result steps
      refine ⟨?_, ?_, ?_⟩
      · rw [asked, sound.moments]
        exact .nil _ _ _
      · intro after answer
        rw [← ask_reply, asked] at answer
        obtain rfl := Option.some.inj answer
        have unchanged : (chronicle.follow steps input ready).scene = chronicle.scene := by
          simp only [Chronicle.follow, Chronicle.scene, Notes.scene, asked]
          rw [(Session.check_error result).1]
        rw [unchanged, asked, sound.moments]
        exact ⟨.nil _, .refl sound.tended⟩
      · intro value after answer
        rw [← ask_reply, asked] at answer
        cases answer
    | ok code =>
      obtain ⟨accepted, accepts⟩ := Session.accepts_of_check result
      have same : chronicle.scene = chronicle.notes.scene ready.machine := by
        simp only [scene, Notes.scene, accepts.store]
      obtain ⟨added, moments, logged, ends⟩ := sound.fares result steps
      rw [sound.moments, List.append_nil] at moments
      refine ⟨?_, ?_, ?_⟩
      · simp only [ask_of_check result, sitesWith, result, moments, same]
        exact logged
      · intro after answer
        obtain ⟨machine, rfl, happened, passed⟩ := sound.ran result answer
        simp only [declared, result, same]
        exact ⟨happened, passed.toFared⟩
      · intro value after answer
        rw [← ask_reply, ask_of_check result] at answer
        simp only [declared, ask_of_check result, result]
        generalize code.noted ready.rules steps chronicle.notes ready.machine = ending at *
        obtain ⟨notes, outcome⟩ := ending
        cases outcome with
        | done found machine =>
          obtain ⟨rfl, rfl⟩ := answer
          exact ends.2.2
        | _ => cases answer

theorem Sound.takeLines (sound : chronicle.Sound) :
    Sound { chronicle with session := chronicle.session.takeLines.2 } :=
  { sound with }

/-- The chronicle of every session is sound. -/
theorem Reached.sound {chronicle : Chronicle} (reached : chronicle.Reached) : chronicle.Sound := by
  induction reached with
  | start settings clock sink => exact sound_start settings clock sink
  | answered reached answer sound => exact sound.follow answer
  | takeLines reached sound => exact sound.takeLines

theorem Reached.asked (reached : chronicle.Reached) (steps : Nat) (input : Input) :
    chronicle.Answered steps input :=
  reached.sound.answered steps input

/-- Every moment of a run is sound for the texts that have been accepted. -/
theorem Sound.moments_sound (sound : chronicle.Sound) (steps : Nat) (input : Input)
    {moment : Moment} (member : moment ∈ (chronicle.ask steps input).1.moments) :
    moment.Sound (· ∈ chronicle.sitesWith input) :=
  ((sound.answered steps input).logged.live moment member).sound

theorem Sound.suits (sound : chronicle.Sound) (input : Input) :
    (chronicle.session.check input).2.rules.Suits (· ∈ chronicle.sitesWith input) := by
  intro site member
  cases result : chronicle.session.check input with
  | mk found ready =>
    cases found with
    | error failure =>
      rw [(Session.check_error result).1]
      simp only [sitesWith, result] at member
      exact sound.sites site member
    | ok code =>
      simp only [sitesWith, result] at member
      exact sound.sites_checked result site member

theorem Sound.innocent (sound : chronicle.Sound)
    (checked : chronicle.session.check input = (.ok code, ready)) (steps : Nat) {reason : Stop}
    (stops : code.run ready.rules steps ready.machine = .stopped reason machine) :
    reason.Innocent := by
  obtain ⟨added, -, -, ends⟩ := sound.fares checked steps
  rw [← code.noted_erases ready.rules steps chronicle.notes ready.machine] at stops
  rw [stops] at ends
  exact ends.2.2

theorem Sound.respond_innocent (sound : chronicle.Sound) {fault : Located RuntimeFault}
    (failed : chronicle.session.respond steps input = .failed (.runtime fault) after) :
    Innocent fault.value := by
  have responds := chronicle.session.responds steps input
  rw [failed] at responds
  generalize known : Failure.runtime fault = failure at responds
  cases responds with
  | refused checked => cases known ▸ Session.isStatic_of_check checked
  | @stopped _ _ reason _ checked ran =>
    have innocent := sound.innocent checked steps ran
    cases reason with
    | sinkFull => cases known
    | fault found =>
      cases known
      exact innocent

end Chronicle

end ClassScript
