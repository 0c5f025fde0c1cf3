import ClassScript.Proofs.ReaderSoundness
import ClassScript.Proofs.Congruence

/-!
How far readers go. Main statement: wherever a rule of the grammar starts in tokens that end with
the end mark, it comes to an end, further on unless it may match nothing, and it numbers references
from the counter on, one after the other.
-/

set_option autoImplicit false

namespace ClassScript

namespace Parse

structure State.At (tokens : List Token) (index : Nat) (state : State) : Prop where
  previous : tokens[index - 1]? = some state.previous
  left : tokens.drop index = state.feed.tokens

inductive Walk : State → List RefId → State → Prop where
  | stay {state : State} : Walk state [] state
  | pass {state after : State} {ids : List RefId} (rest : Walk state.advance ids after) :
    Walk state ids after
  | number {state after : State} {ids : List RefId}
    (rest : Walk { state with nextId := state.nextId + 1 } ids after) :
    Walk state (state.nextId :: ids) after

section Way

variable {tokens : List Token} {index : Nat} {state middle after : State} {ids more : List RefId}

private theorem State.At.advance (stands : state.At tokens index) :
    ∃ further, index ≤ further ∧ state.advance.At tokens further := by
  obtain ⟨previous, current, upcoming, nextId⟩ := state
  unfold State.advance
  split
  next next rest _ same =>
    refine ⟨index + 1, Nat.le_succ _, ?_, ?_⟩
    · have first := congrArg (·[0]?) stands.left
      simpa [State.feed] using first
    · have later := congrArg List.tail stands.left
      simpa [State.feed, show upcoming = _ from same] using later
  · exact ⟨index, Nat.le_refl _, stands⟩

private theorem Walk.trans (moves : Walk state ids middle) (further : Walk middle more after) :
    Walk state (ids ++ more) after := by
  induction moves with
  | stay => exact further
  | pass _ ih => exact .pass (ih further)
  | number _ ih => exact .number (ih further)

/-- A reader does not go back, and does not leave the tokens. -/
private theorem Walk.at (moves : Walk state ids after) (stands : state.At tokens index) :
    ∃ further, index ≤ further ∧ after.At tokens further := by
  induction moves generalizing index with
  | stay => exact ⟨index, Nat.le_refl _, stands⟩
  | pass _ ih =>
    obtain ⟨next, forward, passed⟩ := stands.advance
    obtain ⟨further, onward, stops⟩ := ih passed
    exact ⟨further, Nat.le_trans forward onward, stops⟩
  | number _ ih => exact ih ⟨stands.previous, stands.left⟩

private theorem Walk.numbers (moves : Walk state ids after) :
    ids = List.range' state.nextId ids.length ∧ after.nextId = state.nextId + ids.length := by
  induction moves with
  | stay => exact ⟨rfl, rfl⟩
  | pass _ ih => rwa [State.nextId_advance] at ih
  | number _ ih =>
    obtain ⟨same, counter⟩ := ih
    rw [List.length_cons, List.range'_succ, ← same]
    exact ⟨rfl, counter.trans (Nat.add_right_comm _ _ _)⟩

end Way

def Walks {α β : Type} (change : RefId → RefId) (move : α → β) (reader : Parse α)
    (other : Parse β) : Prop :=
  ∀ state, ∃ ids, Walk state ids (reader state).state ∧
    ((∀ id ∈ ids, change id = id) → other state = (reader state).later 0 move)

section Readers

variable {α β γ δ : Type} {change : RefId → RefId}

private theorem walks_still {move : α → β} {reader : Parse α} {other : Parse β}
    (still : ∀ state, (reader state).state = state)
    (same : ∀ state, other state = (reader state).later 0 move) : Walks change move reader other :=
  fun state => ⟨[], (still state).symm ▸ .stay, fun _ => same state⟩

private theorem walks_bind {move : α → β} {move' : γ → δ} {reader : Parse α} {other : Parse β}
    {next : α → Parse γ} {next' : β → Parse δ} (first : Walks change move reader other)
    (continues : ∀ value, Walks change move' (next value) (next' (move value))) :
    Walks change move' (reader >>= next) (other >>= next') := by
  intro state
  obtain ⟨ids, moves, same⟩ := first state
  simp only [Bind.bind]
  cases replies : reader state with
  | ok value after =>
    rw [replies] at moves same
    obtain ⟨more, further, same'⟩ := continues value after
    refine ⟨ids ++ more, moves.trans further, fun fixed => ?_⟩
    rw [same fun id member => fixed id (List.mem_append_left _ member)]
    exact same' fun id member => fixed id (List.mem_append_right _ member)
  | fault found after =>
    rw [replies] at moves same
    exact ⟨ids, moves, fun fixed => by rw [same fixed]; rfl⟩

private theorem walks_stepThen {move : γ → δ} {choose : Token → Step α} {next : α → Parse γ}
    {next' : α → Parse δ}
    (passed : ∀ token value, choose token = .pass value →
      Walks change move (next value) (next' value))
    (stayed : ∀ token value, choose token = .stay value →
      Walks change move (next value) (next' value)) :
    Walks change move (Step.reader choose >>= next) (Step.reader choose >>= next') := by
  intro state
  simp only [Bind.bind, Step.reader]
  cases chosen : choose state.current with
  | pass value =>
    obtain ⟨ids, moves, same⟩ := passed _ value chosen state.advance
    exact ⟨ids, .pass moves, same⟩
  | stay value => exact stayed _ value chosen state
  | refuse problem => exact ⟨[], .stay, fun _ => rfl⟩

private theorem walks_attempt {reader other : Parse α} (still : Unnumbered reader)
    (walks : Walks change id reader other) : Walks change id (attempt reader) (attempt other) := by
  intro state
  obtain ⟨ids, moves, same⟩ := walks state
  -- No number has been handed out, so the change cannot matter.
  have none : ids = [] := by
    have counter := moves.numbers.2.symm.trans (still state)
    exact List.eq_nil_of_length_eq_zero (Nat.add_eq_left.mp counter)
  subst none
  refine ⟨[], ?_, fun fixed => ?_⟩
  · unfold attempt
    cases replies : reader state with
    | ok value after =>
      rw [replies] at moves
      exact moves
    | fault found after =>
      rw [replies] at moves
      simp only
      split
      · exact moves
      · exact .stay
  · simp only [attempt, same fixed]
    cases reader state with
    | ok value after => rfl
    | fault found after =>
      simp only [Reply.later]
      split <;> rfl

end Readers

def walking (change : RefId → RefId) : Congruence change 0 where
  Holds _ := Walks change
  After _ := Walks change
  pure same := walks_still (fun _ => rfl) fun _ => congrArg (Reply.ok · _) same
  bind := walks_bind
  step choose state := by
    unfold Step.reader
    cases choose state.current with
    | pass value => exact ⟨[], .pass .stay, fun _ => rfl⟩
    | stay value | refuse problem => exact ⟨[], .stay, fun _ => rfl⟩
  stepThen passed := walks_stepThen fun token value chosen => (passed token value chosen).2
  afterPrevious continues state := continues state.previous state
  after := id
  failAt _ _ := walks_still (fun _ => rfl) fun _ => rfl
  previous := walks_still (fun _ => rfl) fun _ => rfl
  checkNextIdentifier := walks_still (fun _ => rfl) fun _ => rfl
  freshId state := by
    refine ⟨[state.nextId], .number .stay, fun fixed => ?_⟩
    exact congrArg (Reply.ok · _) (fixed _ List.mem_cons_self).symm
  attempt := walks_attempt
  deep even := even rfl ▸ walks_still (fun _ => rfl) fun _ => rfl

end Parse

namespace Grammar

open Parse Phrase

/-- The rules of the grammar, with whether they may match nothing and the places of the references
in what they read. -/
inductive Rule : {α : Type} → Bool → (Nesting → α → List Site) → (Nat → Parse α) → Prop where
  | typeName : Rule false (fun _ _ => []) typeName
  | typeArguments : Rule false (fun _ _ => []) typeArguments
  | typeHint : Rule true (fun _ _ => []) typeHint
  | parameters (count : Nat) : Rule false (fun _ _ => []) (parameters · count)
  | memberModifiers (access : Option Visibility) (dispatch : Option Dispatch) :
    Rule true (fun _ _ => []) (memberModifiers · access dispatch)
  | expression : Rule false exprSites expression
  | operation {level : Nat} (inRange : level ≤ operandLevel) :
    Rule false exprSites (operation · level)
  | operand : Rule false exprSites operand
  | arguments (count : Nat) : Rule false exprsSites (arguments · count)
  | primary : Rule false exprSites primary
  | functionRest (name : Identifier) : Rule false functionSites (functionRest · name)
  | functionBody : Rule false (fun nesting found => stmtsSites nesting found.2) functionBody
  | namedFunction (kind : String) : Rule false functionSites (namedFunction · kind)
  | block : Rule false stmtsSites block
  | declaration : Rule false stmtSites declaration
  | varDeclaration : Rule false stmtSites varDeclaration
  | classDeclaration : Rule false stmtSites classDeclaration
  | members : Rule false (fun nesting found =>
    fieldsSites nesting found.fields ++ methodsSites nesting found.methods) members
  | field (visibility : Visibility) :
    Rule false (fun nesting found => optionalSites nesting found.initial) (field · visibility)
  | statement : Rule false stmtSites statement
  | printed : Rule false exprsSites printed
  | expressionStatement : Rule false stmtSites expressionStatement
  | countedLoop : Rule false stmtSites countedLoop
  | loopInitial : Rule false optionalStmtSites loopInitial
  | branch : Rule false stmtSites branch

/-- A rule respects every relation between readers, leaves fewer tokens unless it may stay, and
runs out of depth only with little of it. -/
structure Ruled {α : Type} (stays : Bool) (sites : Nesting → α → List Site)
    (rule : Nat → Parse α) : Prop where
  related : ∃ renumber : (RefId → RefId) → α → α, (∀ value, Renumbers renumber sites value) ∧
    ∀ {change : RefId → RefId} {more : Nat} (logic : Congruence change more) (depth : Nat),
      logic.Relates (renumber change) rule depth
  shorter : ∀ {depth : Nat} {state after : State} {value : α}, Marked state.feed.tokens →
    rule depth state = .ok value after → stays = false →
      after.feed.tokens.length < state.feed.tokens.length
  enough : ∀ {depth : Nat} {state : State}, Marked state.feed.tokens →
    (rule depth state).RanOut → depth < 32 * state.feed.tokens.length + 14

variable {α : Type} {stays : Bool} {sites : Nesting → α → List Site} {rule : Nat → Parse α}

private theorem Ruled.of_finds {renumber : (RefId → RefId) → α → α} {rank : Nat}
    {phrase : Feed → Feed → α → Prop} (renumbers : ∀ value, Renumbers renumber sites value)
    (relates : ∀ {change : RefId → RefId} {more : Nat} (logic : Congruence change more)
      (depth : Nat), logic.Relates (renumber change) rule depth)
    (finds : ∀ depth, Finds depth rank (rule depth) phrase)
    (left : ∀ {before after value}, phrase before after value →
      Left (!stays) before.tokens after.tokens)
    (small : rank ≤ 14 := by omega) : Ruled stays sites rule where
  related := ⟨renumber, renumbers, relates⟩
  shorter {depth state after value} marked read strict := by
    have found := finds depth _ _ marked state rfl rfl
    rw [read] at found
    exact (left found.1).shorter (by rw [strict]; rfl)
  enough {depth state} marked deep := by
    have spent := finds depth _ _ marked state rfl rfl
    cases replies : rule depth state with
    | ok value after =>
      rw [replies] at deep
      exact deep.elim
    | fault found after =>
      rw [replies] at deep spent
      exact Nat.lt_of_lt_of_le (spent deep) (Nat.add_le_add_left small _)

private theorem Ruled.of_uncounted {rank : Nat} {phrase : List Token → List Token → α → Prop}
    (relates : ∀ {change : RefId → RefId} {more : Nat} (logic : Congruence change more)
      (depth : Nat), logic.Relates id rule depth)
    (finds : ∀ depth, Finds depth rank (rule depth) (Uncounted phrase))
    (left : ∀ {before after value}, phrase before after value → Left (!stays) before after)
    (small : rank ≤ 14 := by omega) : Ruled stays (fun _ _ => []) rule := by
  refine .of_finds (fun value => ⟨rfl, by simp [covered_nil]⟩) relates finds ?_ small
  rintro before _ value ⟨after, rfl, derived⟩
  exact left derived

theorem Rule.ruled (isRule : Rule stays sites rule) : Ruled stays sites rule := by
  cases isRule with
  | typeName =>
    exact .of_uncounted (fun logic depth => (logic.types depth).1)
      (fun depth => (finds_types depth).1) TypePhrase.left
  | typeArguments =>
    exact .of_uncounted (fun logic depth => (logic.types depth).2)
      (fun depth => (finds_types depth).2) TypePhrases.left
  | typeHint => exact .of_uncounted Congruence.typeHint finds_typeHint Hint.left
  | parameters count =>
    exact .of_uncounted (Congruence.parameters · · count) (finds_parameters · count) (·.1.left)
  | memberModifiers access dispatch =>
    exact .of_uncounted (Congruence.memberModifiers · · access dispatch)
      (finds_memberModifiers · access dispatch) Modifiers.left
  | expression => exact .of_finds renumbers_expr Congruence.expression finds_expression (·.1.left)
  | operation inRange =>
    exact .of_finds renumbers_expr (Congruence.operation · · _) (finds_operation · _ inRange)
      (·.1.left)
  | operand => exact .of_finds renumbers_expr Congruence.operand finds_operand (·.1.left)
  | arguments count =>
    exact .of_finds renumbers_exprs (Congruence.arguments · · count) (finds_arguments · count)
      (·.1.left)
  | primary => exact .of_finds renumbers_expr Congruence.primary finds_primary Primary.left
  | functionRest name =>
    exact .of_finds renumbers_function (Congruence.functionRest · · name)
      (finds_functionRest · name) FunctionRest.left
  | functionBody =>
    exact .of_finds (fun found => by simp [Renumbers, Prod.ext_iff, renumbers_stmts found.2])
      Congruence.functionBody finds_functionBody FunctionBody.left
  | namedFunction kind =>
    refine .of_finds renumbers_function (Congruence.namedFunction · · kind)
      (finds_namedFunction · kind) ?_
    rintro ⟨_, id⟩ after decl ⟨name, opening, rest, rfl, isName, opens, derived⟩
    exact (Left.identifier isName).trans <| (Left.terminal opens (by decide)).trans derived.left
  | block => exact .of_finds renumbers_stmts Congruence.block finds_block Block.left
  | declaration =>
    exact .of_finds renumbers_stmt Congruence.declaration finds_declaration Declaration.left
  | varDeclaration =>
    refine .of_finds renumbers_stmt Congruence.varDeclaration finds_varDeclaration ?_
    rintro before after stmt ⟨name, hint, initial, derived, -⟩
    exact derived.left
  | classDeclaration =>
    exact .of_finds renumbers_stmt Congruence.classDeclaration finds_classDeclaration (·.2)
  | members =>
    refine .of_finds (fun found => ?_) Congruence.members finds_members MemberList.left
    simp [Renumbers, Members.renumber, covered_append, renumbers_fields found.fields,
      renumbers_methods found.methods]
  | field visibility =>
    refine .of_finds (fun found => by simp [Renumbers, renumbers_optional found.initial])
      (Congruence.field · · visibility) (finds_field · visibility) ?_
    rintro before after decl ⟨name, hint, initial, derived, -⟩
    exact derived.left
  | statement => exact .of_finds renumbers_stmt Congruence.statement finds_statement Statement.left
  | printed => exact .of_finds renumbers_exprs Congruence.printed finds_printed Commas.left
  | expressionStatement =>
    refine .of_finds renumbers_stmt Congruence.expressionStatement finds_expressionStatement ?_
    rintro before after stmt ⟨value, mark, derived, isMark, -⟩
    exact derived.left.trans (.terminal isMark (by decide))
  | countedLoop => exact .of_finds renumbers_stmt Congruence.countedLoop finds_countedLoop (·.2)
  | loopInitial =>
    exact .of_finds renumbers_optionalStmt Congruence.loopInitial finds_loopInitial LoopInitial.left
  | branch => exact .of_finds renumbers_stmt Congruence.branch finds_branch (·.2)

/-- With enough depth it makes no difference how much there is. -/
theorem Ruled.deeper (ruled : Ruled stays sites rule) {state : State} {least depth : Nat}
    (room : least ≤ depth) (held : ¬(rule least state).RanOut) :
    rule depth state = rule least state := by
  obtain ⟨more, rfl⟩ := Nat.exists_eq_add_of_le' room
  obtain ⟨renumber, renumbers, relates⟩ := ruled.related
  have shifts := relates (shifting 0 more) least (fun _ => False) state
  refine (shifts.resolve_left fun excused => held excused.2).trans ?_
  cases rule least state with
  | ok value after => exact congrArg (Reply.ok · after) (renumbers value).1
  | fault found after => rfl

private theorem Ruled.moves (ruled : Ruled stays sites rule) (depth : Nat) (state : State) :
    (∃ ids, Walk state ids (rule depth state).state) ∧
      ∀ value after, rule depth state = .ok value after → ∀ nesting, ∀ site ∈ sites nesting value,
        ∀ number out, site.use? = some (number, out) →
          state.nextId ≤ number ∧ number < after.nextId := by
  obtain ⟨renumber, renumbers, relates⟩ := ruled.related
  refine ⟨?_, fun value after read nesting site member number out used => ?_⟩
  · obtain ⟨ids, moves, -⟩ := relates (walking id) depth (fun _ => False) state
    exact ⟨ids, moves⟩
  -- Changing all other numbers changes nothing, so the tree has none of them.
  let change (number : RefId) : RefId :=
    if state.nextId ≤ number ∧ number < after.nextId then number else number + 1
  obtain ⟨ids, moves, same⟩ := relates (walking change) depth (fun _ => False) state
  rw [Nat.zero_add, read] at same
  rw [read] at moves
  obtain ⟨handed, counter⟩ := moves.numbers
  have kept := same fun number member => by
    rw [handed, List.mem_range'_1, ← counter] at member
    exact if_pos member
  have still : renumber change value = renumber id value :=
    (Reply.ok.inj kept).1.symm.trans (renumbers value).1.symm
  have agrees := ((renumbers value).2 _ _ nesting).mpr still site member number out used
  simp only [change, id] at agrees
  split at agrees
  · assumption
  · exact absurd agrees (Nat.succ_ne_self _)

end Grammar

end ClassScript
