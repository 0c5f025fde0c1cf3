import ClassScript.Proofs.Phrases
import ClassScript.Syntax.Program

/-!
What a reader answers, told by the tokens in front of it, with one rule for each move that the
grammar rules are built from.
-/

set_option autoImplicit false

namespace ClassScript

open Phrase Grammar

namespace Phrase

variable {refused other : Terminal → Prop} {which : Terminal} {tokens : List Token}

variable {token : Token} {rest : List Token}

theorem isTerminal_iff : token.isTerminal which = true ↔ token.kind = .terminal which := by
  unfold Token.isTerminal
  cases token.kind <;> simp

theorem mapped_eq_some_iff {α : Type} {recognise : Terminal → Option α} {value : α} :
    mapped recognise token = some value ↔
      ∃ which, token.isTerminal which = true ∧ recognise which = some value := by
  simp only [isTerminal_iff]
  unfold mapped
  cases token.kind <;> simp

theorem meant_accessWords : meant accessWords = mapped accessWord :=
  congrArg mapped (funext fun which => by cases which <;> rfl)

theorem meant_dispatchWords : meant dispatchWords = mapped dispatchWord :=
  congrArg mapped (funext fun which => by cases which <;> rfl)

theorem meant_unaryMarks : meant unaryMarks = mapped unaryOperator :=
  congrArg mapped (funext fun which => by cases which <;> rfl)

theorem lookup_assignmentMarks (which : Terminal) :
    assignmentMarks.lookup which = assignmentMark which := by
  cases which <;> rfl

theorem meant_assignmentMarks : meant assignmentMarks = mapped assignmentMark :=
  congrArg mapped (funext lookup_assignmentMarks)

theorem lookup_operatorMarks (level : Nat) (which : Terminal) :
    (operatorMarks level).lookup which = operatorAt level which := by
  match level with
  | 0 | 1 | 2 | 3 | 4 | 5 => cases which <;> rfl
  | _ + 6 => rfl

theorem meant_operatorMarks (level : Nat) :
    meant (operatorMarks level) = mapped (operatorAt level) :=
  congrArg mapped (funext (lookup_operatorMarks level))

theorem literal?_eq_some_iff {value : Literal} :
    literal? token = some value ↔ Denotes token.kind value := by
  constructor
  · unfold literal?
    split <;> rename_i kind <;> rintro ⟨⟩ <;> rw [kind] <;> constructor
  · generalize isKind : token.kind = kind
    rintro (_ | _ | _ | _ | _) <;> simp [literal?, isKind]

theorem Avoids.mono (avoids : Avoids refused tokens)
    (weaker : ∀ which, other which → refused which) : Avoids other tokens := by
  cases tokens with
  | nil => trivial
  | cons token rest =>
    intro which isWhich isOther
    exact avoids which isWhich (weaker which isOther)

theorem Avoids.or (first : Avoids refused tokens) (second : Avoids other tokens) :
    Avoids (fun which => refused which ∨ other which) tokens := by
  cases tokens with
  | nil => trivial
  | cons token rest =>
    intro which isWhich either
    cases either with
    | inl isRefused => exact first which isWhich isRefused
    | inr isOther => exact second which isWhich isOther

theorem avoids_eq_iff :
    Avoids (fun found => found = which) tokens ↔ starts which tokens = false := by
  cases tokens with
  | nil => simp [Avoids, starts]
  | cons token rest =>
    simp only [Avoids, starts, Token.isTerminal]
    cases token.kind <;> simp

theorem Avoids.of_isTerminal (isWhich : token.isTerminal which) (apart : ¬refused which) :
    Avoids refused (token :: rest) := by
  intro found isFound
  rw [isTerminal_iff.mp isWhich] at isFound
  cases isFound
  exact apart

theorem starts_of_isTerminal {found : Terminal} (isFound : token.isTerminal found)
    (apart : found ≠ which) : starts which (token :: rest) = false :=
  avoids_eq_iff.mp (.of_isTerminal isFound apart)

end Phrase

namespace Parse

def State.feed (state : State) : Feed where
  tokens := state.current :: state.upcoming
  nextId := state.nextId

def Marked (tokens : List Token) : Prop :=
  ∃ token ∈ tokens, token.isFinish

variable {rest : List Token} {token : Token}

theorem Marked.tail (marked : Marked (token :: rest)) (plain : token.isFinish = false) :
    Marked rest := by
  obtain ⟨mark, member, isMark⟩ := marked
  cases member with
  | head => simp [plain] at isMark
  | tail _ later => exact ⟨mark, later, isMark⟩

theorem Marked.before {before after : List Token} (marked : Marked after)
    (left : after <:+ before) : Marked before := by
  obtain ⟨mark, member, isMark⟩ := marked
  exact ⟨mark, left.subset member, isMark⟩

theorem Marked.cons (marked : Marked rest) : Marked (token :: rest) :=
  marked.before (List.suffix_cons _ _)

theorem Marked.ne_nil {tokens : List Token} (marked : Marked tokens) : tokens ≠ [] := by
  obtain ⟨mark, member, -⟩ := marked
  exact List.ne_nil_of_mem member

theorem isFinish_of_isTerminal {which : Terminal} (isWhich : token.isTerminal which) :
    token.isFinish = false := by
  simp [Token.isFinish, isTerminal_iff.mp isWhich]

theorem isFinish_of_isIdentifier (isName : token.isIdentifier) : token.isFinish = false := by
  unfold Token.isIdentifier at isName
  unfold Token.isFinish
  cases kind : token.kind <;> simp [kind] at isName ⊢

/-- In front of a feed and behind a token, a reader answers with a value, the token it passed last
and what it leaves, of which `gives` holds, or with a problem of which `fails` holds. -/
def Answers {α : Type} (fails : SyntaxProblem → Prop) (reader : Parse α) (last : Token)
    (feed : Feed) (gives : α → Token → Feed → Prop) : Prop :=
  ∀ state : State, state.previous = last → state.feed = feed →
    match reader state with
    | .ok value after => gives value after.previous after.feed
    | .fault fault _ => fails fault.value.problem

def TooDeep (problem : SyntaxProblem) : Prop :=
  problem = .nestedTooDeep

theorem State.passed {state : State} {id : RefId} (ahead : state.feed = ⟨token :: rest, id⟩)
    (plain : token.isFinish = false) (more : rest ≠ []) :
    state.advance.previous = token ∧ state.advance.feed = ⟨rest, id⟩ := by
  obtain ⟨previous, current, upcoming, nextId⟩ := state
  obtain ⟨⟨rfl, rfl⟩, rfl⟩ := ahead
  cases upcoming with
  | nil => contradiction
  | cons next rest => simp [State.advance, plain, State.feed]

namespace Answers

variable {α β : Type} {fails : SyntaxProblem → Prop} {last token : Token} {feed : Feed}
  {tokens rest : List Token} {id : RefId} {which : Terminal} {what : String}

variable {value : α} {next : α → Parse β} {reader no yes : Parse α} {fails' : SyntaxProblem → Prop}
  {problem : SyntaxProblem} {gives : α → Token → Feed → Prop}
  {choose : Bool → Parse α} {pass : Unit → Parse α}

theorem pure (holds : gives value last feed) : Answers fails (Pure.pure value) last feed gives := by
  rintro state rfl rfl
  exact holds

theorem of_pure (more : feed.tokens ≠ [])
    (answers : Answers fails (Pure.pure value) last feed gives) : gives value last feed := by
  obtain ⟨tokens, id⟩ := feed
  cases tokens with
  | nil => contradiction
  | cons token rest => exact answers ⟨last, token, rest, id⟩ rfl rfl

theorem bind {gives : β → Token → Feed → Prop}
    (first : Answers fails reader last feed fun value last feed =>
      Answers fails (next value) last feed gives) :
    Answers fails (reader >>= next) last feed gives := by
  intro state behind ahead
  have found := first state behind ahead
  simp only [Bind.bind]
  cases read : reader state with
  | ok value after =>
    rw [read] at found
    exact found after rfl rfl
  | fault fault after =>
    rw [read] at found
    exact found

theorem imp {gives gives' : α → Token → Feed → Prop}
    (answers : Answers fails reader last feed gives)
    (problems : ∀ problem, fails problem → fails' problem)
    (values : ∀ value last feed, gives value last feed → gives' value last feed) :
    Answers fails' reader last feed gives' := by
  intro state behind ahead
  have found := answers state behind ahead
  cases read : reader state with
  | ok value after =>
    rw [read] at found
    exact values _ _ _ found
  | fault fault after =>
    rw [read] at found
    exact problems _ found

theorem and {gives gives' : α → Token → Feed → Prop} (first : Answers fails reader last feed gives)
    (second : Answers fails' reader last feed gives') :
    Answers (fun problem => fails problem ∧ fails' problem) reader last feed
      fun value last feed => gives value last feed ∧ gives' value last feed := by
  intro state behind ahead
  have found := first state behind ahead
  have found' := second state behind ahead
  cases read : reader state with
  | ok value after =>
    rw [read] at found found'
    exact ⟨found, found'⟩
  | fault fault after =>
    rw [read] at found found'
    exact ⟨found, found'⟩

theorem andThen {gives' : β → Token → Feed → Prop}
    (first : Answers fails reader last feed gives)
    (second : ∀ value last feed, gives value last feed →
      Answers fails (next value) last feed gives') :
    Answers fails (reader >>= next) last feed gives' :=
  bind (first.imp (fun _ => id) second)

theorem fail (holds : fails problem) : Answers fails (Parse.fail problem) last feed gives :=
  fun _ _ _ => holds

theorem failAt (holds : fails problem) :
    Answers fails (Parse.failAt token problem) last feed gives :=
  fun _ _ _ => holds

theorem bounded {reader : Nat → Parse α} (depth : Nat) (zero : reader 0 = Parse.fail .nestedTooDeep)
    (succ : ∀ depth, Answers TooDeep (reader (depth + 1)) last feed gives) :
    Answers TooDeep (reader depth) last feed gives := by
  cases depth with
  | zero => exact zero ▸ fail rfl
  | succ depth => exact succ depth

theorem previous {next : Token → Parse α} (holds : Answers fails (next last) last feed gives) :
    Answers fails (Parse.previous >>= next) last feed gives := by
  rintro state rfl rfl
  exact holds state rfl rfl

theorem current {next : Token → Parse α} (holds : ∀ token rest, tokens = token :: rest →
      Answers fails (next token) last ⟨tokens, id⟩ gives) :
    Answers fails (Parse.current >>= next) last ⟨tokens, id⟩ gives := by
  intro state behind ahead
  exact holds _ _ (congrArg Feed.tokens ahead).symm state behind ahead

theorem atEnd (holds : Answers fails (choose (ended feed.tokens)) last feed gives) :
    Answers fails (Parse.atEnd >>= choose) last feed gives := by
  rintro state rfl rfl
  exact holds state rfl rfl

theorem check (holds : Answers fails (choose (starts which feed.tokens)) last feed gives) :
    Answers fails (Parse.check which >>= choose) last feed gives := by
  rintro state rfl rfl
  exact holds state rfl rfl

theorem checkNextIdentifier
    (holds : Answers fails (choose (feed.tokens.tail.head?.any Token.isIdentifier)) last feed
      gives) : Answers fails (Parse.checkNextIdentifier >>= choose) last feed gives := by
  rintro state rfl rfl
  exact holds state rfl rfl

theorem freshId {next : RefId → Parse α}
    (holds : Answers fails (next id) last ⟨tokens, id + 1⟩ gives) :
    Answers fails (Parse.freshId >>= next) last ⟨tokens, id⟩ gives := by
  rintro state rfl ⟨⟩
  exact holds _ rfl rfl

theorem advance (plain : token.isFinish = false) (more : rest ≠ [])
    (holds : Answers fails (pass ()) token ⟨rest, id⟩ gives) :
    Answers fails (Parse.advance >>= pass) last ⟨token :: rest, id⟩ gives := by
  intro state behind ahead
  obtain ⟨behind, ahead⟩ := State.passed ahead plain more
  exact holds _ behind ahead

theorem accept_found (isWhich : token.isTerminal which) (more : rest ≠ [])
    (holds : Answers fails (choose true) token ⟨rest, id⟩ gives) :
    Answers fails (Parse.accept which >>= choose) last ⟨token :: rest, id⟩ gives := by
  refine bind fun state behind ahead => ?_
  have passed := State.passed ahead (isFinish_of_isTerminal isWhich) more
  simp only [State.feed, Feed.mk.injEq, List.cons.injEq] at ahead
  simp only [Parse.accept, ahead, isWhich, if_true, passed]
  exact holds

theorem accept_absent (absent : starts which feed.tokens = false)
    (holds : Answers fails (choose false) last feed gives) :
    Answers fails (Parse.accept which >>= choose) last feed gives := by
  refine bind ?_
  rintro state rfl rfl
  simp only [starts, State.feed] at absent
  simp only [Parse.accept, absent, Bool.false_eq_true, if_false]
  exact holds

theorem expect_found (isWhich : token.isTerminal which) (more : rest ≠ [])
    (holds : Answers fails (pass ()) token ⟨rest, id⟩ gives) :
    Answers fails (Parse.expect which what >>= pass) last ⟨token :: rest, id⟩ gives := by
  refine bind fun state behind ahead => ?_
  have passed := State.passed ahead (isFinish_of_isTerminal isWhich) more
  simp only [State.feed, Feed.mk.injEq, List.cons.injEq] at ahead
  simp only [Parse.expect, ahead, isWhich, if_true, passed]
  exact holds

theorem expect_absent (absent : starts which feed.tokens = false) (holds : fails (.expected what)) :
    Answers fails (Parse.expect which what >>= pass) last feed gives := by
  refine bind ?_
  rintro state rfl rfl
  simp only [starts, State.feed] at absent
  simp only [Parse.expect, absent, Bool.false_eq_true, if_false]
  exact holds

theorem identifier_found {next : Identifier → Parse α} (isName : token.isIdentifier)
    (more : rest ≠ []) (holds : Answers fails (next (named token)) token ⟨rest, id⟩ gives) :
    Answers fails (Parse.identifier what >>= next) last ⟨token :: rest, id⟩ gives := by
  refine bind fun state behind ahead => ?_
  have passed := State.passed ahead (isFinish_of_isIdentifier isName) more
  simp only [State.feed, Feed.mk.injEq, List.cons.injEq] at ahead
  simp only [Parse.identifier, ahead, isName, if_true, passed]
  exact holds

theorem acceptMap_found {next : Option β → Parse α} {recognise : Terminal → Option β} {value : β}
    (isValue : mapped recognise token = some value) (more : rest ≠ [])
    (holds : Answers fails (next (some value)) token ⟨rest, id⟩ gives) :
    Answers fails (Parse.acceptMap recognise >>= next) last ⟨token :: rest, id⟩ gives := by
  refine bind fun state behind ahead => ?_
  obtain ⟨which, isWhich, known⟩ := mapped_eq_some_iff.mp isValue
  have passed := State.passed ahead (isFinish_of_isTerminal isWhich) more
  simp only [State.feed, Feed.mk.injEq, List.cons.injEq] at ahead
  simp only [Parse.acceptMap, ahead, isTerminal_iff.mp isWhich, known, passed]
  exact holds

theorem acceptMap_absent {next : Option β → Parse α} {recognise : Terminal → Option β}
    (absent : Avoids (fun which => (recognise which).isSome) feed.tokens)
    (holds : Answers fails (next none) last feed gives) :
    Answers fails (Parse.acceptMap recognise >>= next) last feed gives := by
  refine bind ?_
  rintro state rfl rfl
  have unknown : Parse.acceptMap recognise state = .ok none state := by
    unfold Parse.acceptMap
    split
    next which isWhich =>
      rw [Option.not_isSome_iff_eq_none.mp (absent which isWhich)]
    next => rfl
  rw [unknown]
  exact holds

theorem skip {found : Terminal} (isFound : token.isTerminal found) (apart : found ≠ which)
    (holds : Answers fails no last ⟨token :: rest, id⟩ gives) :
    Answers fails (Parse.accept which >>= fun found => if found then yes else no) last
      ⟨token :: rest, id⟩ gives :=
  accept_absent (starts_of_isTerminal isFound apart) holds

theorem accept (marked : Marked tokens)
    (found : ∀ token rest, tokens = token :: rest → token.isTerminal which → Marked rest →
      Answers fails (choose true) token ⟨rest, id⟩ gives)
    (absent : starts which tokens = false → Answers fails (choose false) last ⟨tokens, id⟩ gives) :
    Answers fails (Parse.accept which >>= choose) last ⟨tokens, id⟩ gives := by
  cases begins : starts which tokens with
  | false => exact accept_absent begins (absent begins)
  | true =>
    cases tokens with
    | nil => simp [starts] at begins
    | cons token rest =>
      have left := marked.tail (isFinish_of_isTerminal begins)
      exact accept_found begins left.ne_nil (found token rest rfl begins left)

theorem expect (marked : Marked tokens)
    (found : ∀ token rest, tokens = token :: rest → token.isTerminal which → Marked rest →
      Answers fails (pass ()) token ⟨rest, id⟩ gives)
    (absent : fails (.expected what) := by rintro ⟨⟩) :
    Answers fails (Parse.expect which what >>= pass) last ⟨tokens, id⟩ gives := by
  cases begins : starts which tokens with
  | false => exact expect_absent begins absent
  | true =>
    cases tokens with
    | nil => simp [starts] at begins
    | cons token rest =>
      have left := marked.tail (isFinish_of_isTerminal begins)
      exact expect_found begins left.ne_nil (found token rest rfl begins left)

theorem identifier {next : Identifier → Parse α} (marked : Marked tokens)
    (found : ∀ token rest, tokens = token :: rest → token.isIdentifier → Marked rest →
      Answers fails (next (named token)) token ⟨rest, id⟩ gives)
    (absent : fails (.expected what) := by rintro ⟨⟩) :
    Answers fails (Parse.identifier what >>= next) last ⟨tokens, id⟩ gives := by
  intro state behind ahead
  cases isName : state.current.isIdentifier with
  | false =>
    simp only [Bind.bind, Parse.identifier, isName, Bool.false_eq_true, if_false]
    exact absent
  | true =>
    have same := congrArg Feed.tokens ahead
    simp only [State.feed] at same
    rw [← same] at marked
    have left := marked.tail (isFinish_of_isIdentifier isName)
    have holds := found _ _ same.symm isName left
    have ahead' : state.feed = ⟨state.current :: state.upcoming, id⟩ := by rw [ahead, same]
    exact identifier_found isName left.ne_nil holds state behind ahead'

theorem acceptMap {next : Option β → Parse α} {recognise : Terminal → Option β}
    (marked : Marked tokens) (found : ∀ token rest value, tokens = token :: rest →
      mapped recognise token = some value → Marked rest →
      Answers fails (next (some value)) token ⟨rest, id⟩ gives)
    (absent : Avoids (fun which => (recognise which).isSome) tokens →
      Answers fails (next none) last ⟨tokens, id⟩ gives) :
    Answers fails (Parse.acceptMap recognise >>= next) last ⟨tokens, id⟩ gives := by
  cases tokens with
  | nil =>
    have unknown : Avoids (fun which => (recognise which).isSome) [] := trivial
    exact acceptMap_absent unknown (absent unknown)
  | cons token rest =>
    cases isValue : mapped recognise token with
    | none =>
      have unknown : Avoids (fun which => (recognise which).isSome) (token :: rest) := by
        intro which isWhich known
        simp [mapped, isWhich] at isValue
        simp [isValue] at known
      exact acceptMap_absent unknown (absent unknown)
    | some value =>
      obtain ⟨which, isWhich, -⟩ := mapped_eq_some_iff.mp isValue
      have left := marked.tail (isFinish_of_isTerminal isWhich)
      exact acceptMap_found isValue left.ne_nil (found token rest value rfl isValue left)

theorem ifChecks (found : starts which feed.tokens = true → Answers fails yes last feed gives)
    (absent : starts which feed.tokens = false → Answers fails no last feed gives) :
    Answers fails (Parse.check which >>= fun found => if found then yes else no) last feed
      gives := by
  refine check ?_
  cases begins : starts which feed.tokens with
  | true => exact found begins
  | false => exact absent begins

theorem attempt {gives : Option α → Token → Feed → Prop} (answers : Answers
      (fun problem => (problem = .nestedTooDeep → fails problem) ∧
        (problem ≠ .nestedTooDeep → gives none last feed))
      reader last feed fun value last feed => gives (some value) last feed) :
    Answers fails (Parse.attempt reader) last feed gives := by
  intro state behind ahead
  have found := answers state behind ahead
  simp only [Parse.attempt]
  cases read : reader state with
  | ok value after =>
    rw [read] at found
    exact found
  | fault fault after =>
    rw [read] at found
    by_cases deep : fault.value.problem = .nestedTooDeep
    · simp only [deep, if_true]
      exact deep ▸ found.1 deep
    · simp only [deep, if_false, behind, ahead]
      exact found.2 deep

end Answers

/-- In front of a feed, a reader gives a value and leaves a feed, or runs out of depth. -/
def Gives {α : Type} (reader : Parse α) (before : Feed) (value : α) (after : Feed) : Prop :=
  ∀ last, Answers TooDeep reader last before fun found _ left => found = value ∧ left = after

namespace Gives

variable {α β : Type} {reader : Parse α} {before middle : Feed} {value : α} {last : Token}

theorem andThen {next : α → Parse β} {gives : β → Token → Feed → Prop}
    (first : Gives reader before value middle)
    (second : ∀ last, Answers TooDeep (next value) last middle gives) :
    Answers TooDeep (reader >>= next) last before gives := by
  refine (first last).andThen ?_
  rintro _ last _ ⟨rfl, rfl⟩
  exact second last

theorem andPure (first : Gives reader before value middle) {made : α → β} :
    Answers TooDeep (reader >>= fun found => pure (made found)) last before fun found _ left =>
      found = made value ∧ left = middle :=
  first.andThen fun _ => .pure ⟨rfl, rfl⟩

end Gives

end Parse

end ClassScript
