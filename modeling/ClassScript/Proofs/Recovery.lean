import ClassScript.Proofs.LexemeCuts
import ClassScript.Proofs.Reading
import ClassScript.Proofs.Progress

/-!
Reading on after faults. Main statement: up to the first fault reading on is plain reading, it
always gets to the end mark, and its faults are of different tokens, in the order of the text.
-/

set_option autoImplicit false

namespace ClassScript

def Position.Before (first second : Position) : Prop :=
  first.line < second.line ∨ first.line = second.line ∧ first.column < second.column

open Phrase

namespace Parse

def Seen (start : List Token) (state : State) (token : Token) : Prop :=
  ∃ back, token :: back <:+ start ∧ state.feed.tokens <:+ token :: back

structure Came (start : List Token) (known : Token → Prop) (state : State) : Prop where
  marked : Marked state.feed.tokens
  left : state.feed.tokens <:+ start
  seen : ∀ token, known token → Seen start state token

def Goes {α : Type} (start : List Token) (state : State) : Reply α → Prop
  | .ok _ after => Marked after.feed.tokens ∧ after.feed.tokens <:+ state.feed.tokens
  | .fault found after => (Marked after.feed.tokens ∧ after.feed.tokens <:+ state.feed.tokens) ∧
    ∃ token problem, found = token.fault problem ∧ Seen start after token

section Forward

variable {α β : Type} {start : List Token} {known : Token → Prop} {state after : State}

private theorem Seen.trans {token : Token} (seen : Seen start state token)
    (left : after.feed.tokens <:+ state.feed.tokens) : Seen start after token := by
  obtain ⟨back, within, behind⟩ := seen
  exact ⟨back, within, left.trans behind⟩

private theorem Came.trans (came : Came start known state)
    (goes : Marked after.feed.tokens ∧ after.feed.tokens <:+ state.feed.tokens) :
    Came start known after :=
  ⟨goes.1, goes.2.trans came.left, fun token isKnown => (came.seen token isKnown).trans goes.2⟩

private theorem Came.stays (came : Came start known state) :
    Marked state.feed.tokens ∧ state.feed.tokens <:+ state.feed.tokens :=
  ⟨came.marked, List.suffix_rfl⟩

private theorem Goes.trans {reply : Reply α} (left : after.feed.tokens <:+ state.feed.tokens)
    (goes : Goes start after reply) : Goes start state reply := by
  cases reply with
  | ok value last => exact ⟨goes.1, goes.2.trans left⟩
  | fault found last => exact ⟨⟨goes.1.1, goes.1.2.trans left⟩, goes.2⟩

private theorem Came.seen_current (came : Came start known state) :
    Seen start state state.current :=
  ⟨state.upcoming, came.left, List.suffix_rfl⟩

theorem State.advance_of_plain (marked : Marked state.feed.tokens)
    (plain : state.current.isFinish = false) :
    state.advance.previous = state.current ∧ state.advance.feed.tokens = state.upcoming := by
  have passed := State.passed rfl plain (marked.tail plain).ne_nil
  exact ⟨passed.1, congrArg Feed.tokens passed.2⟩

private theorem Came.advance (came : Came start known state) :
    Marked state.advance.feed.tokens ∧ state.advance.feed.tokens <:+ state.feed.tokens := by
  cases plain : state.current.isFinish with
  | true =>
    have same : state.advance = state := by simp [State.advance, plain]
    rw [same]
    exact came.stays
  | false =>
    rw [(State.advance_of_plain came.marked plain).2]
    exact ⟨came.marked.tail plain, List.suffix_cons _ _⟩

def Forward (known : Token → Prop) (reader : Parse α) : Prop :=
  ∀ start state, Came start known state → Goes start state (reader state)

private theorem forward_bind {reader : Parse α} {next : α → Parse β} (first : Forward known reader)
    (continues : ∀ value, Forward known (next value)) : Forward known (reader >>= next) := by
  intro start state came
  have goes := first start state came
  simp only [Bind.bind]
  cases replies : reader state with
  | ok value after =>
    rw [replies] at goes
    exact (continues value start after (came.trans goes)).trans goes.2
  | fault found after =>
    rw [replies] at goes
    exact goes

private theorem forward_stepThen {choose : Token → Step α} {next : α → Parse β}
    (passed : ∀ token value, choose token = .pass value → token.isFinish = false ∧
      ∀ start state, Came start known state → Seen start state state.previous →
        Goes start state (next value state))
    (stayed : ∀ token value, choose token = .stay value → Forward known (next value)) :
    Forward known (Step.reader choose >>= next) := by
  intro start state came
  simp only [Bind.bind, Step.reader]
  cases chosen : choose state.current with
  | pass value =>
    obtain ⟨plain, goesOn⟩ := passed _ value chosen
    refine (goesOn start state.advance (came.trans came.advance) ?_).trans came.advance.2
    rw [(State.advance_of_plain came.marked plain).1]
    exact came.seen_current.trans came.advance.2
  | stay value => exact stayed _ value chosen start state came
  | refuse problem => exact ⟨came.stays, _, problem, rfl, came.seen_current⟩

private theorem forward_step (choose : Token → Step α) : Forward known (Step.reader choose) := by
  intro start state came
  simp only [Step.reader]
  cases choose state.current with
  | pass value => exact came.advance
  | stay value => exact came.stays
  | refuse problem => exact ⟨came.stays, _, problem, rfl, came.seen_current⟩

private theorem forward_attempt {reader : Parse α} (forward : Forward known reader) :
    Forward known (attempt reader) := by
  intro start state came
  have goes := forward start state came
  simp only [attempt]
  cases replies : reader state with
  | ok value after =>
    rw [replies] at goes
    exact goes
  | fault found after =>
    rw [replies] at goes
    simp only
    split
    · exact goes
    · exact came.stays

end Forward

def onward : Congruence id 0 where
  Holds known _ reader _ := Forward known reader
  After known _ reader _ := ∀ start state, Came start known state →
    Seen start state state.previous → Goes start state (reader state)
  pure _ _ _ came := came.stays
  bind := forward_bind
  step := forward_step
  stepThen := forward_stepThen
  afterPrevious continues start state came seen := by
    refine continues state.previous start state ⟨came.marked, came.left, ?_⟩
    rintro token (isKnown | rfl)
    · exact came.seen token isKnown
    · exact seen
  after holds start state came _ := holds start state came
  failAt isKnown problem _ _ came := ⟨came.stays, _, problem, rfl, came.seen _ isKnown⟩
  previous _ _ came := came.stays
  checkNextIdentifier _ _ came := came.stays
  freshId _ _ came := came.stays
  attempt _ := forward_attempt
  deep _ _ _ came := ⟨came.stays, _, _, rfl, came.seen_current⟩

section Declarations

variable {depth : Nat} {state after : State}

private theorem declaration_goes (depth : Nat) (marked : Marked state.feed.tokens) :
    Goes state.feed.tokens state (Grammar.declaration depth state) :=
  onward.declaration depth (fun _ => False) _ state
    ⟨marked, List.suffix_rfl, fun _ => False.elim⟩

private theorem declaration_shorter {stmt : Stmt} (marked : Marked state.feed.tokens)
    (read : Grammar.declaration depth state = .ok stmt after) :
    after.feed.tokens.length < state.feed.tokens.length :=
  Grammar.Rule.declaration.ruled.shorter marked read rfl

private theorem declaration_held (marked : Marked state.feed.tokens)
    (room : 32 * state.feed.tokens.length + 14 ≤ depth) :
    ¬(Grammar.declaration depth state).RanOut :=
  fun deep => Nat.not_lt_of_le room (Grammar.Rule.declaration.ruled.enough marked deep)

private theorem declaration_eq {depth' : Nat} (marked : Marked state.feed.tokens)
    (room : 32 * state.feed.tokens.length + 14 ≤ depth)
    (room' : 32 * state.feed.tokens.length + 14 ≤ depth') :
    Grammar.declaration depth state = Grammar.declaration depth' state := by
  rcases Nat.le_total depth depth' with less | less
  · exact (Grammar.Rule.declaration.ruled.deeper less (declaration_held marked room)).symm
  · exact Grammar.Rule.declaration.ruled.deeper less (declaration_held marked room')

end Declarations

private theorem left_resume (previous current : Token) (upcoming : List Token) (nextId : RefId)
    (marked : Marked (current :: upcoming)) :
    Marked (resume previous current upcoming nextId).feed.tokens ∧
      (resume previous current upcoming nextId).feed.tokens <:+ current :: upcoming := by
  induction upcoming generalizing previous current with
  | nil =>
    rw [resume]
    split <;> exact ⟨marked, List.suffix_rfl⟩
  | cons next rest ih =>
    rw [resume]
    split
    · exact ⟨marked, List.suffix_rfl⟩
    next goesOn =>
      have plain : current.isFinish = false := by
        cases isFinish : current.isFinish with
        | false => rfl
        | true => simp [isFinish] at goesOn
      obtain ⟨marked', left⟩ := ih current next (marked.tail plain)
      exact ⟨marked', left.trans (List.suffix_cons _ _)⟩

private theorem synchronize_of_finish {state : State} (ended : state.current.isFinish) :
    state.synchronize = state := by
  have stays : state.advance = state := by simp [State.advance, ended]
  unfold State.synchronize
  rw [stays, resume.eq_def, if_pos (by simp [ended])]

private theorem left_synchronize {state : State} (marked : Marked state.feed.tokens)
    (plain : state.current.isFinish = false) :
    Marked state.synchronize.feed.tokens ∧ state.synchronize.feed.tokens <:+ state.upcoming := by
  have passed := (State.advance_of_plain marked plain).2
  have left := left_resume state.advance.previous state.advance.current state.advance.upcoming
    state.advance.nextId
  change state.advance.current :: state.advance.upcoming = state.upcoming at passed
  rw [passed] at left
  exact left (marked.tail plain)

private theorem synchronize_shorter {state after : State} (plain : state.current.isFinish = false)
    (marked : Marked after.feed.tokens) (left : after.feed.tokens <:+ state.feed.tokens) :
    Marked after.synchronize.feed.tokens ∧
      after.synchronize.feed.tokens.length < state.feed.tokens.length := by
  cases ended : after.current.isFinish with
  | true =>
    rw [synchronize_of_finish ended]
    refine ⟨marked, Nat.lt_of_le_of_ne left.length_le fun same => ?_⟩
    have whole := left.eq_of_length same
    have first : after.current = state.current := (List.cons.inj whole).1
    rw [first, plain] at ended
    cases ended
  | false =>
    obtain ⟨marked', behind⟩ := left_synchronize marked ended
    have total := left.length_le
    have fewer := behind.length_le
    refine ⟨marked', Nat.lt_of_le_of_lt fewer (Nat.lt_of_lt_of_le ?_ total)⟩
    exact Nat.lt_succ_self _

private theorem recover_of_finish {state : State} (ended : state.current.isFinish)
    (depth steps : Nat) :
    recover depth steps state = { statements := [], faults := [], nextId := state.nextId } := by
  cases steps with
  | zero => rfl
  | succ steps => rw [recover, if_pos ended]

private theorem recover_eq {depth depth' steps steps' : Nat} {state : State}
    (marked : Marked state.feed.tokens) (room : 32 * state.feed.tokens.length + 14 ≤ depth)
    (room' : 32 * state.feed.tokens.length + 14 ≤ depth')
    (enough : state.feed.tokens.length ≤ steps) (enough' : state.feed.tokens.length ≤ steps') :
    recover depth steps state = recover depth' steps' state := by
  induction steps generalizing steps' state with
  | zero => exact absurd enough (Nat.not_le_of_lt (Nat.succ_pos _))
  | succ steps ih =>
    cases steps' with
    | zero => exact absurd enough' (Nat.not_le_of_lt (Nat.succ_pos _))
    | succ steps' =>
      rw [recover, recover, declaration_eq marked room room']
      cases plain : state.current.isFinish with
      | true => rfl
      | false =>
        simp only [Bool.false_eq_true, if_false]
        have goes := declaration_goes depth' marked
        cases read : Grammar.declaration depth' state with
        | ok stmt after =>
          rw [read] at goes
          have fewer := declaration_shorter marked read
          simp only [ih goes.1 (by omega) (by omega) (by omega)
            (by omega : after.feed.tokens.length ≤ steps')]
        | fault found after =>
          rw [read] at goes
          obtain ⟨marked', fewer⟩ := synchronize_shorter plain goes.1.1 goes.1.2
          simp only [ih marked' (by omega) (by omega) (by omega)
            (by omega : after.synchronize.feed.tokens.length ≤ steps')]

private theorem ne_deep_of_recover {depth steps : Nat} {state : State}
    (marked : Marked state.feed.tokens) (room : 32 * state.feed.tokens.length + 14 ≤ depth) :
    ∀ found ∈ (recover depth steps state).faults, found.value.problem ≠ .nestedTooDeep := by
  induction steps generalizing state with
  | zero => exact fun _ member => absurd member List.not_mem_nil
  | succ steps ih =>
    rw [recover]
    split
    · exact fun _ member => absurd member List.not_mem_nil
    next plain =>
      have goes := declaration_goes depth marked
      cases read : Grammar.declaration depth state with
      | ok stmt after =>
        rw [read] at goes
        have fewer := declaration_shorter marked read
        exact ih goes.1 (by omega)
      | fault found after =>
        rw [read] at goes
        obtain ⟨marked', fewer⟩ :=
          synchronize_shorter (Bool.eq_false_iff.mpr plain) goes.1.1 goes.1.2
        have held := declaration_held marked room
        rw [read] at held
        exact List.forall_mem_cons.mpr ⟨held,
          ih marked' (by omega)⟩

private theorem blamed_of_recover {depth steps : Nat} {state : State}
    (marked : Marked state.feed.tokens) : ∃ blamed : List Token, blamed.Sublist state.feed.tokens ∧
      List.Forall₂ (fun found token => ∃ problem, found = token.fault problem)
        (recover depth steps state).faults blamed := by
  induction steps generalizing state with
  | zero => exact ⟨[], List.nil_sublist _, .nil⟩
  | succ steps ih =>
    rw [recover]
    split
    · exact ⟨[], List.nil_sublist _, .nil⟩
    have goes := declaration_goes depth marked
    cases read : Grammar.declaration depth state with
    | ok stmt after =>
      rw [read] at goes
      obtain ⟨blamed, within, faults⟩ := ih goes.1
      exact ⟨blamed, within.trans goes.2.sublist, faults⟩
    | fault found after =>
      rw [read] at goes
      obtain ⟨⟨marked', -⟩, token, problem, isFault, back, within, behind⟩ := goes
      cases ended : after.current.isFinish with
      | true =>
        refine ⟨[token], (List.singleton_sublist.mpr List.mem_cons_self).trans within.sublist, ?_⟩
        simp only [synchronize_of_finish ended, recover_of_finish ended]
        exact .cons ⟨problem, isFault⟩ .nil
      | false =>
        obtain ⟨marked'', next⟩ := left_synchronize marked' ended
        obtain ⟨blamed, later, faults⟩ := ih marked''
        have tail : after.upcoming <:+ back := by
          rcases List.suffix_cons_iff.mp behind with whole | later
          · exact (List.cons.inj whole).2 ▸ List.suffix_rfl
          · exact (List.suffix_cons _ _).trans later
        refine ⟨token :: blamed, ?_, .cons ⟨problem, isFault⟩ faults⟩
        exact ((later.trans (next.trans tail).sublist).cons_cons token).trans within.sublist

def completed : Nat → State → List Stmt
  | 0, _ => []
  | depth + 1, state =>
    if state.current.isFinish then []
    else
      match Grammar.declaration depth state with
      | .ok statement after => statement :: completed depth after
      | .fault _ _ => []

def Refines (before : List Stmt) (left : Recovered) : Reply (List Stmt) → Prop
  | .ok program last =>
    before = program ∧ left = { statements := program, faults := [], nextId := last.nextId }
  | .fault found _ => left.faults.head? = some found ∧ before <+: left.statements

private theorem declarations_of_plain {depth : Nat} {state : State}
    (plain : state.current.isFinish = false) :
    Grammar.declarations (depth + 1) state = (Grammar.declaration depth >>= fun first =>
      Grammar.declarations depth >>= fun rest => pure (first :: rest)) state := by
  rw [Grammar.declarations]
  simp only [Bind.bind, atEnd, plain]
  rfl

private theorem recover_refines {depth bound steps : Nat} {state : State}
    (marked : Marked state.feed.tokens) (deep : 32 * state.feed.tokens.length + 15 ≤ depth)
    (room : 32 * state.feed.tokens.length + 14 ≤ bound)
    (enough : state.feed.tokens.length ≤ steps) :
    Refines (completed depth state) (recover bound steps state)
      (Grammar.declarations depth state) := by
  induction depth generalizing steps state with
  | zero => omega
  | succ depth ih =>
    cases steps with
    | zero => exact absurd enough (Nat.not_le_of_lt (Nat.succ_pos _))
    | succ steps =>
      cases plain : state.current.isFinish with
      | true =>
        rw [recover_of_finish plain, Grammar.declarations, completed, if_pos plain]
        simp only [Bind.bind, atEnd, plain]
        exact ⟨rfl, rfl⟩
      | false =>
        rw [declarations_of_plain plain, completed, recover,
          declaration_eq marked room (by omega : _ ≤ depth)]
        simp only [plain, Bool.false_eq_true, if_false, Bind.bind]
        have goes := declaration_goes depth marked
        cases read : Grammar.declaration depth state with
        | fault found after => exact ⟨rfl, List.nil_prefix⟩
        | ok stmt after =>
          rw [read] at goes
          have fewer := declaration_shorter marked read
          have rest := @ih steps after goes.1 (by omega) (by omega) (by omega)
          simp only
          cases others : Grammar.declarations depth after with
          | ok program last =>
            rw [others] at rest
            simp only [Refines] at rest
            simp only [rest]
            exact ⟨rfl, rfl⟩
          | fault found last =>
            rw [others] at rest
            exact ⟨rest.1, List.cons_prefix_cons.mpr ⟨rfl, rest.2⟩⟩

end Parse

namespace Position

open Text

private theorem Before.trans {first second third : Position} (before : first.Before second)
    (before' : second.Before third) : first.Before third := by
  unfold Before at *
  omega

private theorem before_afterByte (p : Position) (byte : UInt8) : p.Before (p.afterByte byte) := by
  unfold afterByte
  split
  · exact .inl (Nat.lt_succ_self _)
  · exact .inr ⟨rfl, Nat.lt_succ_self _⟩

private theorem before_pastBytes (p : Position) {bytes : List UInt8} (some : bytes ≠ []) :
    p.Before (p.pastBytes bytes) := by
  induction bytes generalizing p with
  | nil => contradiction
  | cons byte rest ih =>
    cases rest with
    | nil => exact before_afterByte p byte
    | cons next rest =>
      exact (before_afterByte p byte).trans (ih (p.afterByte byte) (List.cons_ne_nil _ _))

private theorem before_ofOffset {bytes : List UInt8} {offset offset' : Nat}
    (less : offset < offset') (within : offset' ≤ bytes.length) :
    (ofOffset bytes offset).Before (ofOffset bytes offset') := by
  have split : bytes.take offset' = bytes.take offset ++ (bytes.take offset').drop offset := by
    conv_lhs => rw [← List.take_append_drop offset (bytes.take offset')]
    rw [List.take_take, Nat.min_eq_left (Nat.le_of_lt less)]
  rw [ofOffset_eq_pastBytes, ofOffset_eq_pastBytes, split, pastBytes_append]
  refine before_pastBytes _ fun none => ?_
  have length := congrArg List.length none
  simp only [List.length_drop, List.length_take, List.length_nil] at length
  omega

end Position

namespace Token

open Text

theorem Cut.position_eq {text : String} {offset : Nat} {rest : List Char}
    {found : List (Nat × Token)} (cut : Cut text offset rest found) :
    ∀ entry ∈ found, entry.2.position = .ofOffset (bytes text) entry.1 := by
  induction cut with
  | finish => simp [tokenAt]
  | blank _ _ ih => exact ih
  | token _ _ _ ih => exact List.forall_mem_cons.mpr ⟨rfl, ih⟩

theorem Tokenized.offset_le {text : String} {found : List (Nat × Token)}
    (tokenized : Tokenized text found) : ∀ entry ∈ found, entry.1 ≤ (bytes text).length := by
  obtain ⟨tokens, mark, rfl, -, -⟩ := tokenized.ended
  intro entry member
  rcases List.mem_append.mp member with before | last
  · have apart := (List.pairwise_append.mp tokenized.apart).2.2
    exact Nat.le_of_lt (apart entry before _ (List.mem_singleton_self _)).1
  · rw [List.mem_singleton.mp last]

private theorem ordered_of_scan {text : String} {tokens : List Token}
    (scanned : scan text = .ok tokens) :
    tokens.Pairwise fun first second => first.position.Before second.position := by
  obtain ⟨found, tokenized, rfl⟩ := exists_tokenized scanned
  refine List.pairwise_map.mpr (tokenized.apart.imp_of_mem ?_)
  intro first second isFirst isSecond apart
  rw [tokenized.cut.position_eq first isFirst, tokenized.cut.position_eq second isSecond]
  exact Position.before_ofOffset apart.1 (tokenized.offset_le second isSecond)

end Token

open Parse

/-- A fault stands where the token does that it blames. -/
private theorem positions_of_blamed {faults : List (Located SyntaxFault)} {blamed : List Token}
    (blames : List.Forall₂ (fun found token => ∃ problem, found = token.fault problem)
      faults blamed) : faults.map Located.position = blamed.map Token.position := by
  induction blames with
  | nil => rfl
  | cons first _ ih =>
    obtain ⟨problem, rfl⟩ := first
    rw [List.map_cons, List.map_cons, ih]
    rfl

/-- Reading on after faults refines plain reading. It gets to the end mark: greater bounds on steps
and nesting change nothing, and no fault is one of nesting. What plain reading accepts is read just
so; where plain reading stops, the first fault and the declarations before it are the same. The
faults are those of different tokens, in the order of the text. -/
theorem recovery_refines_reading {text : String} {tokens : List Token}
    (scanned : Token.scan text = .ok tokens) (first : RefId) :
    (∀ depth steps, depthBound tokens.length ≤ depth → tokens.length < steps →
      recover depth steps (.ofTokens tokens first) = parseRecovering tokens first) ∧
    (∀ found ∈ (parseRecovering tokens first).faults, found.value.problem ≠ .nestedTooDeep) ∧
    (∀ program last, parseProgram tokens first = .ok program last →
      completed (depthBound tokens.length) (.ofTokens tokens first) = program ∧
      parseRecovering tokens first =
        { statements := program, faults := [], nextId := last.nextId }) ∧
    (∀ found last, parseProgram tokens first = .fault found last →
      (parseRecovering tokens first).faults.head? = some found ∧
      completed (depthBound tokens.length) (.ofTokens tokens first) <+:
        (parseRecovering tokens first).statements) ∧
    (∃ blamed : List Token, blamed.Sublist tokens ∧
      List.Forall₂ (fun found token => ∃ problem, found = token.fault problem)
        (parseRecovering tokens first).faults blamed) ∧
    (parseRecovering tokens first).faults.Pairwise fun earlier later =>
      earlier.position.Before later.position := by
  have marked := Token.scan_marked scanned
  have feed := Grammar.feed_ofTokens marked.ne_nil first
  have tokensAhead : (State.ofTokens tokens first).feed.tokens = tokens := congrArg Feed.tokens feed
  have ready : Marked (State.ofTokens tokens first).feed.tokens := tokensAhead.symm ▸ marked
  have bound : depthBound tokens.length = 32 * tokens.length + 64 := by
    unfold depthBound
    omega
  have refines : Refines (completed (depthBound tokens.length) (.ofTokens tokens first))
      (parseRecovering tokens first) (parseProgram tokens first) :=
    recover_refines ready (by rw [tokensAhead]; omega) (by rw [tokensAhead]; omega)
      (by rw [tokensAhead]; omega)
  obtain ⟨blamed, within, faults⟩ := blamed_of_recover ready
  rw [tokensAhead] at within
  refine ⟨fun depth steps deep enough => ?_, ?_, fun program last read => ?_,
    fun found last read => ?_, ⟨blamed, within, faults⟩, ?_⟩
  · exact recover_eq ready (by rw [tokensAhead]; omega) (by rw [tokensAhead]; omega)
      (by rw [tokensAhead]; omega) (by rw [tokensAhead]; omega)
  · exact ne_deep_of_recover ready (by rw [tokensAhead]; omega)
  · rwa [read] at refines
  · rwa [read] at refines
  · have positions := List.pairwise_map.mpr ((Token.ordered_of_scan scanned).sublist within)
    rw [← positions_of_blamed faults] at positions
    exact List.pairwise_map.mp positions

def faultyLines : String :=
  "var a = 1;\n1 = a + 2;\nprint a\nvar b = 2;\nprint b;"

def faultyTokens : List Token :=
  (Token.scan faultyLines).toOption.getD []

theorem faultyLines_are_recovered :
    Token.scan faultyLines = .ok faultyTokens ∧
    (parseRecovering faultyTokens 0).faults.map Located.position = [⟨2, 3⟩, ⟨4, 1⟩] ∧
    (parseRecovering faultyTokens 0).statements.length = 2 ∧
    (parseRecovering faultyTokens 0).faults.Pairwise fun earlier later =>
      earlier.position.Before later.position := by
  have scanned : Token.scan faultyLines = .ok faultyTokens :=
    eq_ok_of_toBool _ (by decide +kernel)
  refine ⟨scanned, by decide +kernel, by decide +kernel, ?_⟩
  exact (recovery_refines_reading scanned 0).2.2.2.2.2

end ClassScript
