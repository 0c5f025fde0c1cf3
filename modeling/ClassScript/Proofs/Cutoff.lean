import ClassScript.Proofs.Ending

/-!
The limit on calls is only a cut-off: under a greater limit a text is answered alike, or what it
printed is the beginning of what it prints then.
-/

set_option autoImplicit false

namespace ClassScript

open Run

namespace Sink

structure Begins (first second : Sink) : Prop where
  lines : first.lines <+: second.lines
  bytes : first.bytes.data.toList <+: second.bytes.data.toList

namespace Begins

private theorem refl (sink : Sink) : sink.Begins sink :=
  ⟨List.prefix_rfl, List.prefix_rfl⟩

private theorem trans {first second third : Sink} (begins : first.Begins second)
    (further : second.Begins third) : first.Begins third :=
  ⟨begins.lines.trans further.lines, begins.bytes.trans further.bytes⟩

end Begins

private theorem begins_emit (sink : Sink) (line : String) : sink.Begins (sink.emit line).2 := by
  cases sink with
  | kept lines => exact ⟨by simp [emit, Sink.lines], List.prefix_rfl⟩
  | written bytes room =>
    cases room with
    | none => exact ⟨List.prefix_rfl, by simp [emit, Sink.bytes]⟩
    | some room => exact ⟨List.prefix_rfl, by simp [emit, Sink.bytes]⟩

end Sink

namespace Run

variable {α β : Type} {limit greater : Nat}

structure Ahead (limit greater : Nat) (sink : Sink) (outcome outcome' : Outcome α) : Prop where
  prints : ∀ last, outcome'.machine? = some last → sink.Begins last.sink
  same : ¬ outcome.CutShort limit greater → outcome' = outcome
  further : ∀ reason after, outcome = .stopped reason after → reason.IsOverflow →
    ∀ last, outcome'.machine? = some last → after.sink.Begins last.sink

def GoesOn (limit greater : Nat) (first : Traced α) (second : Eval α) : Prop :=
  ∀ notes machine, Ahead limit greater machine.sink (second machine) (first notes machine).2

namespace GoesOn

variable {first : Traced α} {second : Eval α}

private theorem of_brief (brief : Traced.Brief False first) (erases : first.Erases second) :
    GoesOn limit greater first second := by
  intro notes machine
  refine ⟨fun last ends => ?_, fun _ => erases notes machine,
    fun reason after stops _ last ends => ?_⟩
  · rw [brief.sink ends]
    exact .refl _
  · rw [erases, stops] at ends
    obtain rfl := Option.some.inj ends
    exact .refl _

private theorem bind {next : α → Traced β} {next' : α → Eval β}
    (goesOn : GoesOn limit greater first second)
    (continues : ∀ value, GoesOn limit greater (next value) (next' value)) :
    GoesOn limit greater (first >>= next) (second >>= next') := by
  intro notes machine
  obtain ⟨prints, same, further⟩ := goesOn notes machine
  simp only [Bind.bind]
  generalize second machine = outcome at same further ⊢
  generalize first notes machine = result at prints same further ⊢
  obtain ⟨notes, outcome'⟩ := result
  cases outcome with
  | done value after =>
    obtain rfl : outcome' = .done value after := same id
    have rest := continues value notes after
    exact { rest with prints := fun last ends => (prints after rfl).trans (rest.prints last ends) }
  | exhausted =>
    refine ⟨?_, fun whole => absurd trivial whole, by rintro _ _ ⟨⟩⟩
    cases outcome' with
    | done value after =>
      intro last ends
      exact (prints after rfl).trans ((continues value notes after).prints last ends)
    | stopped reason after => exact prints
    | exhausted => rintro last ⟨⟩
  | stopped reason after =>
    cases outcome' with
    | done value middle =>
      have rest := (continues value notes middle).prints
      refine ⟨fun last ends => (prints middle rfl).trans (rest last ends),
        (fun whole => by cases same whole), ?_⟩
      rintro _ _ ⟨⟩ overflow last ends
      exact (further _ _ rfl overflow middle rfl).trans (rest last ends)
    | stopped reason' middle =>
      refine ⟨prints, fun whole => ?_, ?_⟩
      · obtain ⟨rfl, rfl⟩ := Outcome.stopped.inj (same whole)
        rfl
      · rintro _ _ ⟨⟩ overflow
        exact further _ _ rfl overflow
    | exhausted =>
      refine ⟨?_, (fun whole => by cases same whole), ?_⟩
      · rintro last ⟨⟩
      · rintro _ _ _ _ last ⟨⟩

private theorem within (frame : Frame) (goesOn : GoesOn limit greater first second) :
    GoesOn limit greater (Traced.within frame first) (Eval.within frame second) := by
  intro notes machine
  obtain ⟨prints, same, further⟩ := goesOn notes { machine with frame }
  rw [Traced.within_eq, Eval.within_eq]
  generalize second { machine with frame } = outcome at same further ⊢
  generalize (first notes { machine with frame }).2 = outcome' at prints same further ⊢
  refine ⟨fun last ends => ?_, fun whole => ?_, fun reason after stops overflow last ends => ?_⟩
  · rw [Outcome.machine?_backTo] at ends
    obtain ⟨after, inside, rfl⟩ := Option.map_eq_some_iff.mp ends
    exact prints after inside
  · rw [same fun cut => whole ?_]
    cases outcome <;> exact cut
  · rw [Outcome.machine?_backTo] at ends
    obtain ⟨last, inside, rfl⟩ := Option.map_eq_some_iff.mp ends
    cases outcome with
    | stopped reason' middle =>
      obtain ⟨rfl, rfl⟩ := Outcome.stopped.inj stops
      exact further _ _ rfl overflow last inside
    | done value middle => cases stops
    | exhausted => cases stops

private theorem emit (line : String) :
    GoesOn limit greater (Traced.lift (Eval.emit line)) (Eval.emit line) := by
  intro notes machine
  have begins := machine.sink.begins_emit line
  simp only [Traced.lift, Eval.emit]
  generalize machine.sink.emit line = printed at begins ⊢
  obtain ⟨fits, sink⟩ := printed
  cases fits with
  | true => exact ⟨by rintro last ⟨⟩; exact begins, fun _ => rfl, by rintro _ _ ⟨⟩⟩
  | false => exact ⟨by rintro last ⟨⟩; exact begins, fun _ => rfl, by rintro _ _ ⟨⟩ ⟨⟩⟩

private theorem refused (more : limit < greater) (position : Position) (name : String)
    (goesOn : GoesOn limit greater first second) :
    GoesOn limit greater first (Eval.fail position (.callDepth limit name)) := by
  intro notes machine
  obtain ⟨prints, -, -⟩ := goesOn notes machine
  refine ⟨prints, fun whole => absurd ⟨more, rfl⟩ whole, ?_⟩
  rintro _ _ ⟨⟩ _
  exact prints

end GoesOn

def cutOff (rules : Rules) (allows : limit ≤ rules.maxDepth) : Discipline rules limit where
  Holds _ := GoesOn limit rules.maxDepth
  Open _ := True
  Stands _ := True
  Near _ many few := many = few
  allows
  deeper _ _ := trivial
  near := @near_of_eq
  mono goesOn _ := goesOn
  brief brief erases := .of_brief brief.rough erases
  exhaust same ends lacks lacks' _ _ := by
    rw [lacks (ends.elim id same.trans), lacks' (ends.elim same.symm.trans id)]
    exact ⟨by rintro _ ⟨⟩, fun _ => rfl, by rintro _ _ ⟨⟩⟩
  bind := .bind
  note only rest notes machine := by
    obtain ⟨notes', value, result, -⟩ := only notes machine
    simp only [Bind.bind, result]
    exact rest value notes' machine
  mark _ rest _ machine := rest _ machine
  frame rest notes machine := rest machine.frame trivial notes machine
  within _ inside _ := .within _ inside
  refused less _ _ _ _ position name rest := .refused less position name (rest fun _ => trivial)
  addScope rest := .bind (.of_brief (.addScope _) (.lift _)) fun ref => rest ref trivial
  emit := .emit
  define _ _ := .of_brief (brief_define _ _) (.lift _)
  assign _ _ _ _ _ _ _ machine := GoesOn.bind (.of_brief (brief_writeVariable _ _ _ _) (.lift _))
    (fun _ => .of_brief (.pure _) (.pure _)) _ machine

private theorem ahead_code {rules : Rules} (allows : rules.maxDepth ≤ limit) (steps : Nat)
    (code : Code) (machine : Machine) :
    Ahead rules.maxDepth limit machine.sink (code.run rules steps machine)
      (code.run (rules.allowing limit) steps machine) := by
  have goesOn : GoesOn rules.maxDepth limit (code.noted (rules.allowing limit) steps)
      (code.run rules steps) := code.keeps (cutOff (rules.allowing limit) allows) rfl
  have ahead := goesOn .start machine
  rwa [code.noted_erases] at ahead

end Run

def Reply.allowing {α : Type} (limit : Nat) : Reply α → Reply α
  | .done value session => .done value (session.allowing limit)
  | .failed failure session => .failed failure (session.allowing limit)
  | .exhausted => .exhausted

private theorem Reply.ended_of_session {α : Type} {reply : Reply α} {after : Session}
    (replies : reply.session? = some after) : reply ≠ .exhausted := by
  rintro rfl
  cases replies

private theorem Reply.exists_session {α : Type} {reply : Reply α} (ended : reply ≠ .exhausted) :
    ∃ after, reply.session? = some after := by
  cases reply with
  | done value session => exact ⟨session, rfl⟩
  | failed failure session => exact ⟨session, rfl⟩
  | exhausted => exact absurd rfl ended

namespace Session

variable {α : Type} {session ready : Session} {input : Input} {limit : Nat}

private theorem reply_allowing (session : Session) (limit : Nat) (outcome : Outcome α) :
    (session.allowing limit).reply outcome = (session.reply outcome).allowing limit := by
  cases outcome <;> rfl

private theorem overflow_of_reply {outcome : Outcome α}
    (overflows : (session.reply outcome).Overflows) :
    ∃ reason machine, outcome = .stopped reason machine ∧ reason.IsOverflow := by
  cases outcome with
  | done value machine => exact overflows.elim
  | stopped reason machine =>
    cases reason with
    | fault found => exact ⟨_, _, rfl, overflows⟩
    | sinkFull => exact overflows.elim
  | exhausted => exact overflows.elim

variable {after : Session} {steps : Nat}

private theorem not_overflows_of_refusal {failure : Failure}
    (checked : session.check input = (.error failure, after)) :
    ¬ (Reply.failed failure after : Reply α).Overflows := by
  have static := isStatic_of_check checked
  cases failure with
  | runtime fault => cases static
  | _ => exact id

private theorem sink_of_check {code : Code} (checked : session.check input = (.ok code, ready)) :
    ready.machine.sink = session.machine.sink := by
  obtain ⟨resolution, limit, -, -, -, rfl⟩ := resolves_of_check checked
  cases code <;> rfl

private theorem respond_allowing (allows : session.settings.maxCallDepth ≤ limit)
    (ended : session.respond steps input ≠ .exhausted)
    (inLimit : ¬ (session.respond steps input).Overflows) :
    (session.allowing limit).respond steps input =
      (session.respond steps input).allowing limit := by
  rw [respond_eq] at ended inLimit
  rw [respond_eq, respond_eq, check_allowing]
  cases checked : session.check input with
  | mk result ready =>
    rw [checked] at ended inLimit
    cases result with
    | error failure => rfl
    | ok code =>
      rw [← maxDepth_of_check checked] at allows
      have whole :
          ¬ (code.run ready.rules steps ready.machine).CutShort ready.rules.maxDepth limit :=
        Chronicle.not_cutShort ended fun _ => inLimit
      have same := (ahead_code allows steps code ready.machine).same whole
      rw [proceed_ok, proceed_ok, ← ready.reply_allowing, ← same]
      rfl

/-- Under a greater limit a text prints what it printed until it exceeded the smaller one. -/
private theorem begins_of_overflow (allows : session.settings.maxCallDepth ≤ limit) {last : Session}
    (overflows : (session.respond steps input).Overflows)
    (replies : (session.respond steps input).session? = some after)
    (replies' : ((session.allowing limit).respond steps input).session? = some last) :
    session.machine.sink.Begins after.machine.sink ∧
      after.machine.sink.Begins last.machine.sink := by
  rw [respond_eq] at overflows replies replies'
  rw [check_allowing] at replies'
  cases checked : session.check input with
  | mk result ready =>
    rw [checked] at overflows replies replies'
    cases result with
    | error failure => exact absurd overflows (not_overflows_of_refusal checked)
    | ok code =>
      rw [← maxDepth_of_check checked] at allows
      rw [proceed_ok] at overflows
      rw [proceed_ok, session?_reply] at replies replies'
      obtain ⟨reason, machine, stops, overflow⟩ := overflow_of_reply overflows
      obtain ⟨machine', runs, rfl⟩ := Option.map_eq_some_iff.mp replies'
      rw [stops] at replies
      obtain rfl := Option.some.inj replies
      refine ⟨?_, (ahead_code allows steps code _).further _ _ stops overflow _ runs⟩
      -- Under one limit the run goes on as itself.
      have itself := ahead_code (Nat.le_refl ready.rules.maxDepth) steps code ready.machine
      rw [← sink_of_check checked]
      exact itself.prints machine (congrArg Outcome.machine? stops)

end Session

/-- The limit on calls is only a cut-off. A text that is answered without exceeding it is answered
alike under every greater limit, with the same session but for the limit. If it is exceeded, what
has been printed by then is the beginning of what is printed under a greater limit. -/
theorem limit_only_cuts_off (session : Session) (input : Input) {limit : Nat}
    (allows : session.settings.maxCallDepth ≤ limit) {reply : Reply (Option Value)}
    (answers : session.Answers input reply) :
    (¬ reply.Overflows → (session.allowing limit).Answers input (reply.allowing limit)) ∧
    (reply.Overflows → ∀ reply', (session.allowing limit).Answers input reply' →
      ∃ after last, reply.session? = some after ∧ reply'.session? = some last ∧
        session.machine.sink.Begins after.machine.sink ∧
        after.machine.sink.Begins last.machine.sink) := by
  obtain ⟨ended, enough, same⟩ := answers
  refine ⟨fun inLimit => ⟨?_, enough, fun steps more => ?_⟩, ?_⟩
  · cases reply with
    | exhausted => exact absurd rfl ended
    | _ => exact nofun
  · have reached := same steps more
    rw [← reached]
    exact Session.respond_allowing allows (reached ▸ ended) (reached ▸ inLimit)
  · rintro overflows reply' ⟨ended', enough', same'⟩
    have reached := same (max enough enough') (Nat.le_max_left _ _)
    have reached' := same' (max enough enough') (Nat.le_max_right _ _)
    obtain ⟨after, replies⟩ := Reply.exists_session ended
    obtain ⟨last, replies'⟩ := Reply.exists_session ended'
    exact ⟨after, last, replies, replies', Session.begins_of_overflow allows (reached ▸ overflows)
      (reached ▸ replies) (reached' ▸ replies')⟩

instance {α : Type} (reply : Reply α) : Decidable reply.Overflows :=
  match reply with
  | .failed (.runtime fault) _ => inferInstanceAs (Decidable (fault.value.family = .stackOverflow))
  | .failed (.lexical _) _ | .failed (.syntactic _) _ | .failed (.binding _) _
  | .failed (.settings _) _ | .failed .output _ | .done _ _ | .exhausted => .isFalse id

def nestedCalls : Input :=
  .program "fn outer() { print true; middle(); } fn middle() { print false; inner(); }
    fn inner() { print nil; } outer();"

set_option maxRecDepth 100000 in
/-- Two calls at once are too few for the innermost line, and three are as good as four. -/
theorem nested_calls_cut_off :
    let session := fun limit => Session.start { maxCallDepth := limit } (fun _ => 0) .capturing
    ∃ reply reply', (session 2).Answers nestedCalls reply ∧ reply.Overflows ∧
      (session 3).Answers nestedCalls reply' ∧
      (∃ after last, reply.session? = some after ∧ reply'.session? = some last ∧
        after.machine.sink.lines = ["true", "false"] ∧
        last.machine.sink.lines = ["true", "false", "nil"] ∧
        after.machine.sink.Begins last.machine.sink) ∧
      (session 4).Answers nestedCalls (reply'.allowing 4) := by
  intro session
  have sound (limit : Nat) := (Chronicle.Reached.start { maxCallDepth := limit } (fun _ => 0)
    .capturing).sound
  obtain ⟨prints, overflows⟩ :
      (session 2).printed 30 nestedCalls = some ["true", "false"] ∧
        ((session 2).respond 30 nestedCalls).Overflows := by decide +kernel
  obtain ⟨prints', inLimit⟩ :
      (session 3).printed 30 nestedCalls = some ["true", "false", "nil"] ∧
        ¬ ((session 3).respond 30 nestedCalls).Overflows := by decide +kernel
  obtain ⟨after, replies, lines⟩ := Option.map_eq_some_iff.mp prints
  obtain ⟨last, replies', lines'⟩ := Option.map_eq_some_iff.mp prints'
  have answers := (sound 2).answers_respond (Reply.ended_of_session replies)
  have answers' := (sound 3).answers_respond (Reply.ended_of_session replies')
  have deeper : (session 2).settings.maxCallDepth ≤ 3 := by decide
  obtain ⟨after', last', same, same', -, begins⟩ :=
    (limit_only_cuts_off (session 2) nestedCalls deeper answers).2 overflows _ answers'
  obtain rfl := Option.some.inj (replies.symm.trans same)
  obtain rfl := Option.some.inj (replies'.symm.trans same')
  have deeper' : (session 3).settings.maxCallDepth ≤ 4 := by decide
  exact ⟨_, _, answers, overflows, answers',
    ⟨after, last, replies, replies', lines, lines', begins⟩,
    (limit_only_cuts_off (session 3) nestedCalls deeper' answers').1 inLimit⟩

end ClassScript
