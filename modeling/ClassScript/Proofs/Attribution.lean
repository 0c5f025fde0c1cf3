import ClassScript.Proofs.Sinks

/-!
Which lines a run reports: those that texts have printed since lines were last taken, and then its
own.
-/

set_option autoImplicit false

namespace ClassScript

open Run

namespace Session

def emitted (steps : Nat) (session : Session) (input : Input) : List String :=
  ((session.over .capturing).printed steps input).getD []

/-- A session over a sink that keeps lines has been called some times, and `left` are the lines that
texts have printed since the last run, or since the host took the lines. -/
inductive Called : Session → List String → Prop where
  | start (settings : Settings) (clock : Nat → Float) : Called (.start settings clock .capturing) []
  | run {session after : Session} {left : List String} {steps : Nat} {source : String}
      {report : Report} (called : Called session left)
      (runs : session.run steps source = some (report, after)) : Called after []
  | respond {session after : Session} {left : List String} {steps : Nat} {input : Input}
      (called : Called session left)
      (replies : (session.respond steps input).session? = some after) :
      Called after (left ++ session.emitted steps input)
  | takeLines {session : Session} {left : List String} (called : Called session left) :
      Called session.takeLines.2 []

variable {session after : Session} {left : List String} {steps : Nat} {input : Input}

private theorem sink_of_respond {held : Array String} (keeps : session.machine.sink = .kept held)
    (replies : (session.respond steps input).session? = some after) :
    after.machine.sink = .kept (held ++ (session.emitted steps input).toArray) := by
  have itself : session = session.over (.kept held) := by
    rw [← keeps]
    rfl
  rw [itself] at replies
  obtain ⟨lines, kept, reprints⟩ := session.respond_over input steps held replies
  obtain ⟨fits, -⟩ := reprints .capturing
  have prints : (session.over .capturing).printed steps input = some lines := by
    rw [Sink.capturing, Sink.emitAll_kept] at fits
    rw [printed, Sink.capturing, fits rfl, Reply.session?_over, replies]
    simp [Session.over, Machine.over, Sink.lines]
  rw [kept, emitted, prints]
  rfl

private theorem run_eq_some {source : String} {report : Report}
    (runs : session.run steps source = some (report, after)) :
    ∃ last, (session.respond steps (.program source)).session? = some last ∧
      report.lines = last.machine.sink.lines ∧
      after.machine.sink = last.machine.sink.clear ∧
      ∀ failure, report.failure = some failure →
        session.respond steps (.program source) = .failed failure last := by
  unfold run at runs
  simp only [respond]
  cases executed : session.execute steps source with
  | done value last =>
    rw [executed] at runs
    obtain ⟨rfl, rfl⟩ := Prod.mk.inj (Option.some.inj runs)
    exact ⟨last, rfl, rfl, rfl, fun failure absent => by cases absent⟩
  | failed failure last =>
    rw [executed] at runs
    obtain ⟨rfl, rfl⟩ := Prod.mk.inj (Option.some.inj runs)
    refine ⟨last, rfl, rfl, rfl, fun found same => ?_⟩
    rw [Option.some.inj same]
    rfl
  | exhausted =>
    rw [executed] at runs
    cases runs

private theorem Called.sink (called : Called session left) :
    session.machine.sink = .kept left.toArray := by
  induction called with
  | start settings clock => rfl
  | run called runs ih =>
    obtain ⟨last, replies, -, cleared, -⟩ := run_eq_some runs
    rw [cleared, sink_of_respond ih replies]
    rfl
  | respond called replies ih => simpa using sink_of_respond ih replies
  | takeLines called ih =>
    simp only [Session.takeLines, ih]
    rfl

private theorem emitted_of_static {failure : Failure} {last : Session}
    (fails : session.respond steps input = .failed failure last) (static : failure.isStatic) :
    session.emitted steps input = [] := by
  rw [emitted, printed, respond_eq, check_over, check_of_static fails static]
  rfl

end Session

/-- A run reports the lines that executed and evaluated texts have printed since lines were last
taken, and then those of its own text, also if it fails. So it reports just its own lines if and
only if nothing was left to report; a run that the static checks refuse reports what was left. -/
theorem run_reports_left_lines {session after : Session} {left : List String}
    (called : session.Called left) {steps : Nat} {source : String} {report : Session.Report}
    (runs : session.run steps source = some (report, after)) :
    report.lines = left ++ session.emitted steps (.program source) ∧
    (report.lines = session.emitted steps (.program source) ↔ left = []) ∧
    (∀ failure, report.failure = some failure → failure.isStatic → report.lines = left) ∧
    after.Called [] := by
  obtain ⟨last, replies, lines, -, fails⟩ := Session.run_eq_some runs
  have reported : report.lines = left ++ session.emitted steps (.program source) := by
    rw [lines, Session.sink_of_respond called.sink replies]
    simp [Sink.lines]
  refine ⟨reported, by simp [reported], fun failure failed static => ?_, called.run runs⟩
  rw [reported, Session.emitted_of_static (fails failure failed) static, List.append_nil]

def evaluated : Option Session :=
  ((Session.start {} (fun _ => 0) .capturing).respond 20
    (.expression "(fn () { print nil; })()")).session?

set_option maxRecDepth 100000 in
private theorem called_of_evaluated {session : Session} (replies : evaluated = some session) :
    session.Called ["nil"] := by
  have prints : (Session.start {} (fun _ => 0) .capturing).emitted 20
      (.expression "(fn () { print nil; })()") = ["nil"] := by decide +kernel
  have called := (Session.Called.start {} fun _ => 0).respond replies
  rwa [prints] at called

set_option maxRecDepth 100000 in
/-- A run that prints a line and fails reports the line that was left, and then its own. -/
theorem failed_run_reports_left_line :
    ∃ (session : Session) (report : Session.Report) (after : Session), session.Called ["nil"] ∧
      session.run 20 "print true; nil();" = some (report, after) ∧
      report.failure.isSome ∧ report.lines = ["nil"] ++ ["true"] := by
  have computed : evaluated.map (fun session =>
      ((session.run 20 "print true; nil();").map fun found => found.1.failure.isSome,
        session.emitted 20 (.program "print true; nil();"))) = some (some true, ["true"]) := by
    decide +kernel
  obtain ⟨session, replies, same⟩ := Option.map_eq_some_iff.mp computed
  obtain ⟨fails, prints⟩ := Prod.mk.inj same
  obtain ⟨⟨report, after⟩, runs, failed⟩ := Option.map_eq_some_iff.mp fails
  have called := called_of_evaluated replies
  obtain ⟨lines, -⟩ := run_reports_left_lines called runs
  exact ⟨session, report, after, called, runs, failed, prints ▸ lines⟩

set_option maxRecDepth 100000 in
/-- After an evaluated text has printed a line, a run reports that line too, even if the static
checks refuse its own text. -/
theorem run_reports_line_of_evaluation :
    ∃ session : Session, session.Called ["nil"] ∧
      (∃ report after, session.run 20 "print true;" = some (report, after) ∧
        report.lines = ["nil", "true"] ∧ session.emitted 20 (.program "print true;") = ["true"]) ∧
      ∃ report after, session.run 20 "(" = some (report, after) ∧
        (∃ failure, report.failure = some failure ∧ failure.isStatic) ∧ report.lines = ["nil"] := by
  have computed : evaluated.map (fun session =>
      ((session.run 20 "print true;").map fun found => found.1.lines,
        session.emitted 20 (.program "print true;"),
        (session.run 20 "(").map fun found =>
          (found.1.failure.map Failure.isStatic, found.1.lines))) =
      some (some ["nil", "true"], ["true"], some (some true, ["nil"])) := by decide +kernel
  obtain ⟨session, replies, same⟩ := Option.map_eq_some_iff.mp computed
  simp only [Prod.mk.injEq, Option.map_eq_some_iff] at same
  obtain ⟨⟨⟨report, after⟩, runs, lines⟩, prints, ⟨report', after'⟩, refused, static, lines'⟩ :=
    same
  exact ⟨session, called_of_evaluated replies, ⟨report, after, runs, lines, prints⟩,
    report', after', refused, static, lines'⟩

end ClassScript
