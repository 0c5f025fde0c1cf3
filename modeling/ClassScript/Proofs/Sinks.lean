import ClassScript.Proofs.Chronicle

/-!
All sinks see the same program, up to the first line that does not find room.
-/

set_option autoImplicit false

namespace ClassScript

open Run

def linesBytes (lines : List String) : ByteArray :=
  (linesText lines).toUTF8

private theorem linesBytes_nil : linesBytes [] = ByteArray.empty := by
  simp [linesBytes, linesText]

private theorem linesBytes_cons (line : String) (rest : List String) :
    linesBytes (line :: rest) = (line ++ "\n").toUTF8 ++ linesBytes rest := by
  simp [linesBytes, linesText, String.join_cons]

namespace Sink

/-- Print lines in order, up to one that does not find room. -/
def emitAll (sink : Sink) : List String → Bool × Sink
  | [] => (true, sink)
  | line :: rest =>
    match sink.emit line with
    | (true, after) => after.emitAll rest
    | (false, after) => (false, after)

private theorem emitAll_append (sink : Sink) (first second : List String) :
    sink.emitAll (first ++ second) =
      match sink.emitAll first with
      | (true, after) => after.emitAll second
      | (false, after) => (false, after) := by
  induction first generalizing sink with
  | nil => rfl
  | cons line rest ih =>
    simp only [List.cons_append, emitAll]
    generalize sink.emit line = printed
    obtain ⟨fits, after⟩ := printed
    cases fits with
    | true => exact ih after
    | false => rfl

theorem emitAll_kept (held : Array String) (lines : List String) :
    emitAll (.kept held) lines = (true, .kept (held ++ lines.toArray)) := by
  induction lines generalizing held with
  | nil => simp [emitAll]
  | cons line rest ih => simp [emitAll, emit, ih]

private theorem emitAll_unlimited (bytes : ByteArray) (lines : List String) :
    emitAll (.written bytes none) lines = (true, .written (bytes ++ linesBytes lines) none) := by
  induction lines generalizing bytes with
  | nil => simp [emitAll, linesBytes_nil]
  | cons line rest ih =>
    simp only [emitAll, emit, ih]
    rw [linesBytes_cons, ByteArray.append_assoc]

private theorem emitAll_limited (bytes : ByteArray) (room : Nat) (lines : List String) :
    emitAll (.written bytes (some room)) lines =
      (decide ((linesBytes lines).size ≤ room),
        .written (bytes ++ (linesBytes lines).extract 0 room)
          (some (room - (linesBytes lines).size))) := by
  induction lines generalizing bytes room with
  | nil =>
    have nothing : ByteArray.empty.extract 0 room = ByteArray.empty := by simp
    simp [emitAll, linesBytes_nil, nothing]
  | cons line rest ih =>
    rw [linesBytes_cons, ByteArray.extract_append, ByteArray.size_append, Nat.zero_sub,
      ← ByteArray.append_assoc, ← Nat.sub_sub]
    simp only [emitAll, emit]
    generalize (line ++ "\n").toUTF8 = text
    by_cases fits : text.size ≤ room
    · have whole : (text.size + (linesBytes rest).size ≤ room) =
          ((linesBytes rest).size ≤ room - text.size) := by
        rw [eq_iff_iff]
        omega
      simp only [fits, decide_true, ih, whole]
    · have short : ¬ text.size + (linesBytes rest).size ≤ room := by omega
      have full : room - text.size = 0 := by omega
      simp [fits, short, full]

end Sink

namespace Run

variable {α β : Type}

theorem Outcome.over_backTo (outcome : Outcome α) (frame : Frame) (sink : Sink) :
    (outcome.backTo frame).over sink = (outcome.over sink).backTo frame := by
  cases outcome <;> rfl

structure Reprints (printed : Bool × Sink) (outcome other : Outcome α) : Prop where
  fits : printed.1 = true → other = outcome.over printed.2
  full : printed.1 = false → ∃ last, other = .stopped .sinkFull last ∧ last.sink = printed.2

/-- Whatever the first evaluation prints into a sink that keeps lines, the second one prints into
any other sink. -/
def Mirrors (first : Traced α) (second : Eval α) : Prop :=
  ∀ (notes : Notes) (machine : Machine) (held : Array String) (after : Machine),
    (first notes (machine.over (.kept held))).2.machine? = some after →
    ∃ lines : List String, after.sink = .kept (held ++ lines.toArray) ∧
      ∀ sink : Sink, Reprints (sink.emitAll lines) (first notes (machine.over (.kept held))).2
        (second (machine.over sink))

namespace Mirrors

private theorem over_of_sink {machine : Machine} {sink : Sink} (same : machine.sink = sink) :
    machine = machine.over sink := by
  rw [← same]
  rfl

variable {first : Traced α} {second : Eval α}

private theorem of_brief (brief : Traced.Brief False first) (erases : first.Erases second) :
    Mirrors first second := by
  intro notes machine held after ends
  refine ⟨[], ?_, fun sink => ⟨fun _ => ?_, nofun⟩⟩
  · rw [brief.sink ends]
    simp [Machine.over]
  · obtain ⟨-, -, -, -, -, silent⟩ := brief notes (machine.over (.kept held))
    rw [← erases notes]
    exact congrArg Prod.snd (silent sink)

private theorem bind {next : α → Traced β} {next' : α → Eval β} (mirrors : Mirrors first second)
    (continues : ∀ value, Mirrors (next value) (next' value)) :
    Mirrors (first >>= next) (second >>= next') := by
  intro notes machine held last ends
  have begins := mirrors notes machine held
  simp only [Bind.bind] at ends ⊢
  generalize first notes (machine.over (.kept held)) = result at begins ends
  obtain ⟨notes, outcome⟩ := result
  cases outcome with
  | exhausted => cases ends
  | stopped reason after =>
    obtain ⟨lines, kept, reprints⟩ := begins after rfl
    obtain rfl := Option.some.inj ends
    refine ⟨lines, kept, fun sink => ?_⟩
    obtain ⟨fits, full⟩ := reprints sink
    refine ⟨fun roomy => ?_, fun short => ?_⟩
    · rw [fits roomy]
      rfl
    · obtain ⟨last, stops, same⟩ := full short
      exact ⟨last, by rw [stops], same⟩
  | done value after =>
    obtain ⟨lines, kept, reprints⟩ := begins after rfl
    rw [over_of_sink kept] at ends ⊢
    obtain ⟨more, kept', goesOn⟩ := continues value notes after (held ++ lines.toArray) last ends
    refine ⟨lines ++ more, by simp [kept'], fun sink => ?_⟩
    obtain ⟨fits, full⟩ := reprints sink
    rw [sink.emitAll_append]
    -- Either all lines up to here have found room, or the second evaluation has stopped already.
    generalize sink.emitAll lines = printed at fits full ⊢
    obtain ⟨roomy, middle⟩ := printed
    cases roomy with
    | true =>
      rw [fits rfl]
      exact goesOn middle
    | false =>
      obtain ⟨last, stops, same⟩ := full rfl
      exact ⟨nofun, fun _ => ⟨last, by rw [stops], same⟩⟩

private theorem within (frame : Frame) (mirrors : Mirrors first second) :
    Mirrors (Traced.within frame first) (Eval.within frame second) := by
  intro notes machine held last ends
  rw [Traced.within_eq, Outcome.machine?_backTo] at ends
  obtain ⟨after, inside, rfl⟩ := Option.map_eq_some_iff.mp ends
  obtain ⟨lines, kept, reprints⟩ := mirrors notes { machine with frame } held after inside
  refine ⟨lines, kept, fun sink => ?_⟩
  obtain ⟨fits, full⟩ := reprints sink
  rw [Traced.within_eq, Eval.within_eq]
  refine ⟨fun roomy => ?_, fun short => ?_⟩
  · exact (congrArg (Outcome.backTo machine.frame) (fits roomy)).trans
      (Outcome.over_backTo _ _ _).symm
  · obtain ⟨last, stops, same⟩ := full short
    exact ⟨_, congrArg (Outcome.backTo machine.frame) stops, same⟩

private theorem emit (line : String) : Mirrors (Traced.lift (Eval.emit line)) (Eval.emit line) := by
  intro _ machine held after ends
  obtain rfl := Option.some.inj ends
  refine ⟨[line], by simp, fun sink => ?_⟩
  have printed : sink.emitAll [line] = sink.emit line := by
    rw [Sink.emitAll]
    rcases sink.emit line with ⟨_ | _, after⟩ <;> rfl
  have begins : Eval.emit line (machine.over sink) =
      match sink.emit line with
      | (true, after) => .done () (machine.over after)
      | (false, after) => .stopped .sinkFull (machine.over after) := rfl
  simp only [Traced.lift]
  rw [printed, begins]
  obtain ⟨roomy, middle⟩ := sink.emit line
  cases roomy with
  | true => exact ⟨fun _ => rfl, by simp⟩
  | false => exact ⟨by simp, fun _ => ⟨_, rfl, rfl⟩⟩

end Mirrors

def mirroring (rules : Rules) : Discipline rules rules.maxDepth where
  Holds _ := Mirrors
  Open _ := True
  Stands _ := True
  Near _ many few := many = few
  allows := rules.allows_own
  deeper _ _ := trivial
  near := @near_of_eq
  mono mirrors _ := mirrors
  brief brief erases := .of_brief brief.rough erases
  exhaust same ends lacks _ _ _ _ _ ends' := by
    rw [lacks (ends.elim id same.trans)] at ends'
    cases ends'
  bind := .bind
  note only rest notes machine held := by
    obtain ⟨notes', value, result, -⟩ := only notes (machine.over (.kept held))
    simp only [Bind.bind, result]
    exact rest value notes' machine held
  mark _ rest _ machine held := rest _ machine held
  frame rest notes machine := rest machine.frame trivial notes machine
  within _ inside _ := .within _ inside
  refused less := absurd less (Nat.lt_irrefl _)
  addScope rest := .bind (.of_brief (.addScope _) (.lift _)) fun ref => rest ref trivial
  emit := .emit
  define _ _ := .of_brief (brief_define _ _) (.lift _)
  assign _ _ _ _ _ _ _ machine held := Mirrors.bind
    (.of_brief (brief_writeVariable _ _ _ _) (.lift _)) (fun _ => .of_brief (.pure _) (.pure _)) _
    machine held

/-- What code prints into a sink that keeps lines, it prints into any other sink. -/
private theorem code_reprints (rules : Rules) (steps : Nat) (code : Code) {machine after : Machine}
    {held : Array String}
    (ends : (code.run rules steps (machine.over (.kept held))).machine? = some after) :
    ∃ lines : List String, after.sink = .kept (held ++ lines.toArray) ∧
      ∀ sink : Sink, Reprints (sink.emitAll lines)
        (code.run rules steps (machine.over (.kept held)))
        (code.run rules steps (machine.over sink)) := by
  have mirrors : Mirrors (code.noted rules steps) (code.run rules steps) :=
    code.keeps (mirroring rules) rfl
  have prints := mirrors .start machine held after
  simp only [code.noted_erases rules steps .start] at prints
  exact prints ends

end Run

def Session.over (session : Session) (sink : Sink) : Session :=
  { session with machine := session.machine.over sink }

def Reply.over {α : Type} (sink : Sink) : Reply α → Reply α
  | .done value session => .done value (session.over sink)
  | .failed failure session => .failed failure (session.over sink)
  | .exhausted => .exhausted

theorem Reply.session?_over {α : Type} (reply : Reply α) (sink : Sink) :
    (reply.over sink).session? = reply.session?.map fun session => session.over sink := by
  cases reply <;> rfl

namespace Session

theorem check_over (session : Session) (sink : Sink) (input : Input) :
    (session.over sink).check input =
      ((session.check input).1, (session.check input).2.over sink) := by
  have unseen : Unseen fun session => session.over sink :=
    ⟨fun _ => rfl, fun _ => rfl, fun _ _ => rfl, fun _ _ code => by cases code <;> rfl⟩
  exact unseen.check session input

private theorem reply_over {α : Type} (session : Session) (sink : Sink) (outcome : Outcome α) :
    session.reply (outcome.over sink) = (session.reply outcome).over sink := by
  cases outcome <;> rfl

/-- What a text prints into a sink that keeps lines, it prints into any other sink, and it replies
alike if there is room for all of it. -/
theorem respond_over (session : Session) (input : Input) (steps : Nat) (held : Array String)
    {after : Session}
    (replies : ((session.over (.kept held)).respond steps input).session? = some after) :
    ∃ lines : List String, after.machine.sink = .kept (held ++ lines.toArray) ∧
      ∀ sink : Sink,
        ((sink.emitAll lines).1 = true → (session.over sink).respond steps input =
          ((session.over (.kept held)).respond steps input).over (sink.emitAll lines).2) ∧
        ((sink.emitAll lines).1 = false → ∃ last, (session.over sink).respond steps input =
          .failed .output last ∧ last.machine.sink = (sink.emitAll lines).2) := by
  rw [respond_eq, check_over] at replies
  simp only [respond_eq, check_over]
  generalize session.check input = checked at replies ⊢
  obtain ⟨result, ready⟩ := checked
  cases result with
  | error failure =>
    obtain rfl := Option.some.inj replies
    exact ⟨[], by simp [Session.over, Machine.over], fun sink => ⟨fun _ => rfl, nofun⟩⟩
  | ok code =>
    have begins (sink : Sink) : proceed steps (.ok code, ready.over sink) =
        ready.reply (code.run ready.rules steps (ready.machine.over sink)) := rfl
    rw [begins, session?_reply] at replies
    obtain ⟨machine, ends, rfl⟩ := Option.map_eq_some_iff.mp replies
    obtain ⟨lines, kept, reprints⟩ := code_reprints ready.rules steps code ends
    refine ⟨lines, kept, fun sink => ⟨fun roomy => ?_, fun short => ?_⟩⟩
    · rw [begins, begins, (reprints sink).fits roomy, reply_over]
    · obtain ⟨last, stops, same⟩ := (reprints sink).full short
      rw [begins, stops]
      exact ⟨_, rfl, same⟩

end Session

/-- All sinks see the same program. If a text ends over a sink that keeps lines, then over a writer
it prints the bytes of the same lines, each with a newline after it. Over an unlimited writer, or
one with room for all of them, it ends alike, with the same session but for the sink. Over a writer
with less room it fails for that, and what is written is as much as fits. -/
theorem sinks_see_same_program (session : Session) (input : Input) (steps : Nat)
    (held : Array String) {after : Session}
    (replies : ((session.over (.kept held)).respond steps input).session? = some after) :
    ∃ lines : List String, after.machine.sink = .kept (held ++ lines.toArray) ∧
      let reply := (session.over (.kept held)).respond steps input
      let text := (linesText lines).toUTF8
      (∀ bytes, (session.over (.written bytes none)).respond steps input =
        reply.over (.written (bytes ++ text) none)) ∧
      (∀ bytes room, text.size ≤ room →
        (session.over (.written bytes (some room))).respond steps input =
          reply.over (.written (bytes ++ text) (some (room - text.size)))) ∧
      (∀ bytes room, room < text.size → ∃ failure last,
        (session.over (.written bytes (some room))).respond steps input = .failed failure last ∧
        last.machine.sink.bytes = bytes ++ text.extract 0 room ∧
        failure.label = "IoError" ∧ failure.message = "failed to write whole buffer" ∧
        failure.category = .io ∧ failure.isStatic = false ∧ failure.position? = none) := by
  obtain ⟨lines, kept, reprints⟩ := session.respond_over input steps held replies
  refine ⟨lines, kept, fun bytes => ?_, fun bytes room roomy => ?_, fun bytes room short => ?_⟩
  · obtain ⟨fits, -⟩ := reprints (.written bytes none)
    rw [Sink.emitAll_unlimited] at fits
    exact fits rfl
  · obtain ⟨fits, -⟩ := reprints (.written bytes (some room))
    rw [Sink.emitAll_limited] at fits
    have whole : (linesBytes lines).extract 0 room = linesBytes lines := by
      rw [← Nat.max_eq_left roomy]
      exact ByteArray.extract_zero_max_size
    rw [whole] at fits
    exact fits (decide_eq_true roomy)
  · obtain ⟨-, full⟩ := reprints (.written bytes (some room))
    rw [Sink.emitAll_limited] at full
    obtain ⟨last, stops, same⟩ := full (decide_eq_false (Nat.not_le.mpr short))
    refine ⟨.output, last, stops, ?_, rfl, rfl, rfl, rfl, rfl⟩
    rw [same]
    rfl

def printsTwice : Input :=
  .program "print \"né\"; print nil;"

set_option maxRecDepth 100000 in
/-- A writer with room for two bytes gets half of the second character. -/
theorem half_character_is_written :
    let session := Session.start {} (fun _ => 0) .capturing
    (∃ last, ((session.over (.writing none)).respond 9 printsTwice).session? = some last ∧
      last.machine.sink.bytes = "né\nnil\n".toUTF8) ∧
    ∃ failure last, (session.over (.writing (some 2))).respond 9 printsTwice =
        .failed failure last ∧
      last.machine.sink.bytes.data = #[0x6e, 0xc3] ∧ failure.category = .io := by
  intro session
  have prints : (session.over (.kept #[])).printed 9 printsTwice = some ["né", "nil"] := by
    decide +kernel
  obtain ⟨after, replies, lines⟩ := Option.map_eq_some_iff.mp prints
  obtain ⟨found, kept, unlimited, -, limited⟩ :=
    sinks_see_same_program session printsTwice 9 #[] replies
  rw [kept] at lines
  obtain rfl : found = ["né", "nil"] := by simpa [Sink.lines] using lines
  constructor
  · have text : ByteArray.empty ++ (linesText ["né", "nil"]).toUTF8 = "né\nnil\n".toUTF8 := by
      decide +kernel
    refine ⟨after.over (.written (ByteArray.empty ++ (linesText ["né", "nil"]).toUTF8) none), ?_,
      text⟩
    rw [Sink.writing, unlimited, Reply.session?_over, replies]
    rfl
  · obtain ⟨failure, last, stops, bytes, -, -, category, -⟩ :=
      limited ByteArray.empty 2 (by decide +kernel)
    refine ⟨failure, last, stops, ?_, category⟩
    rw [bytes]
    decide +kernel

end ClassScript
