import ClassScript.Proofs.ReaderRules
import ClassScript.Proofs.Renumber

/-!
Relations between readers. A relation that the moves of reading respect holds between what a rule
reads with one bound on nesting and with another.
-/

set_option autoImplicit false

namespace ClassScript

namespace Parse

inductive Step (α : Type) where
  | pass (value : α)
  | stay (value : α)
  | refuse (problem : SyntaxProblem)

def Step.reader {α : Type} (choose : Token → Step α) : Parse α :=
  fun state =>
    match choose state.current with
    | .pass value => .ok value state.advance
    | .stay value => .ok value state
    | .refuse problem => .fault (state.current.fault problem) state

def Step.accepting (which : Terminal) (token : Token) : Step Bool :=
  if token.isTerminal which then .pass true else .stay false

def Step.mapping {α : Type} (recognise : Terminal → Option α) (token : Token) : Step (Option α) :=
  match Phrase.mapped recognise token with
  | some value => .pass (some value)
  | none => .stay none

private theorem accept_eq (which : Terminal) : accept which = Step.reader (.accepting which) := by
  funext state
  simp only [accept, Step.reader, Step.accepting]
  cases state.current.isTerminal which <;> rfl

private theorem acceptMap_eq {α : Type} (recognise : Terminal → Option α) :
    acceptMap recognise = Step.reader (.mapping recognise) := by
  funext state
  simp only [acceptMap, Step.reader, Step.mapping, Phrase.mapped]
  cases state.current.kind with
  | terminal which => cases known : recognise which <;> simp only [known]
  | _ => rfl

private theorem expect_eq (which : Terminal) (what : String) :
    expect which what = Step.reader fun token =>
    if token.isTerminal which then .pass () else .refuse (.expected what) := by
  funext state
  simp only [expect, Step.reader]
  cases state.current.isTerminal which <;> rfl

private theorem identifier_eq (what : String) : identifier what = Step.reader fun token =>
    if token.isIdentifier then .pass (Phrase.named token) else .refuse (.expected what) := by
  funext state
  simp only [identifier, Step.reader]
  cases state.current.isIdentifier <;> rfl

/-- The reader hands out no number, whatever it replies. -/
def Unnumbered {α : Type} (reader : Parse α) : Prop :=
  ∀ state, (reader state).state.nextId = state.nextId

theorem State.nextId_advance (state : State) : state.advance.nextId = state.nextId := by
  unfold State.advance
  split <;> rfl

private theorem unnumbered_step {α : Type} (choose : Token → Step α) :
    Unnumbered (Step.reader choose) := by
  intro state
  unfold Step.reader
  cases choose state.current with
  | pass value => exact state.nextId_advance
  | stay value | refuse problem => rfl

theorem Unnumbered.bind {α β : Type} {reader : Parse α} {next : α → Parse β}
    (first : Unnumbered reader) (continues : ∀ value, Unnumbered (next value)) :
    Unnumbered (reader >>= next) := by
  intro state
  have kept := first state
  simp only [Bind.bind]
  cases replies : reader state <;> rw [replies] at kept
  · exact (continues _ _).trans kept
  · exact kept

/-- A relation between readers that goes through the moves of the grammar; the second one may number
references in another way and has that much more depth. -/
structure Congruence (change : RefId → RefId) (more : Nat) where
  /-- Readers are related, given the tokens that are known to have been passed. -/
  Holds {α β : Type} (known : Token → Prop) (move : α → β) (reader : Parse α) (other : Parse β) :
    Prop
  /-- Readers are related right behind a token that has been passed. -/
  After {α β : Type} (known : Token → Prop) (move : α → β) (reader : Parse α) (other : Parse β) :
    Prop
  pure {α β : Type} {known : Token → Prop} {move : α → β} {value : α} {value' : β}
    (same : value' = move value) : Holds known move (Pure.pure value) (Pure.pure value')
  bind {α β γ δ : Type} {known : Token → Prop} {move : α → β} {move' : γ → δ} {reader : Parse α}
    {other : Parse β} {next : α → Parse γ} {next' : β → Parse δ}
    (first : Holds known move reader other)
    (continues : ∀ value, Holds known move' (next value) (next' (move value))) :
    Holds known move' (reader >>= next) (other >>= next')
  step {α : Type} {known : Token → Prop} (choose : Token → Step α) :
    Holds known id (Step.reader choose) (Step.reader choose)
  stepThen {α γ δ : Type} {known : Token → Prop} {move : γ → δ} {choose : Token → Step α}
    {next : α → Parse γ} {next' : α → Parse δ}
    (passed : ∀ token value, choose token = .pass value →
      token.isFinish = false ∧ After known move (next value) (next' value))
    (stayed : ∀ token value, choose token = .stay value →
      Holds known move (next value) (next' value)) :
    Holds known move (Step.reader choose >>= next) (Step.reader choose >>= next')
  afterPrevious {γ δ : Type} {known : Token → Prop} {move : γ → δ} {next : Token → Parse γ}
    {next' : Token → Parse δ}
    (continues : ∀ mark, Holds (fun token => known token ∨ token = mark) move (next mark)
      (next' mark)) :
    After known move (Parse.previous >>= next) (Parse.previous >>= next')
  after {α β : Type} {known : Token → Prop} {move : α → β} {reader : Parse α} {other : Parse β}
    (holds : Holds known move reader other) : After known move reader other
  failAt {α β : Type} {known : Token → Prop} {move : α → β} {token : Token}
    (passed : known token) (problem : SyntaxProblem) :
    Holds known move (Parse.failAt token problem) (Parse.failAt token problem)
  previous {known : Token → Prop} : Holds known id Parse.previous Parse.previous
  checkNextIdentifier {known : Token → Prop} :
    Holds known id Parse.checkNextIdentifier Parse.checkNextIdentifier
  freshId {known : Token → Prop} : Holds known change Parse.freshId Parse.freshId
  attempt {α : Type} {known : Token → Prop} {reader other : Parse α} (still : Unnumbered reader)
    (holds : Holds known id reader other) :
    Holds known id (Parse.attempt reader) (Parse.attempt other)
  deep {α β : Type} {known : Token → Prop} {move : α → β} {other : Parse β}
    (even : more = 0 → other = Grammar.tooDeep) : Holds known move Grammar.tooDeep other

namespace Congruence

variable {change : RefId → RefId} {more : Nat} (logic : Congruence change more)

def Relates {α : Type} (move : α → α) (rule : Nat → Parse α) (depth : Nat) : Prop :=
  ∀ known, logic.Holds known move (rule depth) (rule (more + depth))

theorem relates_zero {α : Type} {move : α → α} {rule : Nat → Parse α}
    (none : rule 0 = Grammar.tooDeep) : logic.Relates move rule 0 := by
  intro known
  rw [none]
  refine logic.deep ?_
  rintro rfl
  exact none

theorem relates_succ {α : Type} {move : α → α} {rule : Nat → Parse α} {depth : Nat}
    (holds : ∀ known, logic.Holds known move (rule (depth + 1)) (rule (more + depth + 1))) :
    logic.Relates move rule (depth + 1) :=
  holds

variable {α γ δ : Type} {known : Token → Prop} {move : γ → δ}

theorem bind_same {reader other : Parse α} {next : α → Parse γ} {next' : α → Parse δ}
    (holds : logic.Holds known id reader other)
    (continues : ∀ value, logic.Holds known move (next value) (next' value)) :
    logic.Holds known move (reader >>= next) (other >>= next') :=
  logic.bind holds continues

theorem fail (problem : SyntaxProblem) :
    logic.Holds known move (Parse.fail problem) (Parse.fail problem) := by
  have stops : logic.Holds known id (Parse.fail (α := Empty) problem) (Parse.fail problem) :=
    logic.step fun _ => .refuse problem
  have both : logic.Holds known move (Parse.fail (α := Empty) problem >>= Empty.elim)
      (Parse.fail problem >>= Empty.elim) := logic.bind stops Empty.rec
  exact both

theorem current : logic.Holds known id current current :=
  logic.step .stay

theorem atEnd : logic.Holds known id atEnd atEnd :=
  logic.step fun token => .stay token.isFinish

theorem check (which : Terminal) : logic.Holds known id (check which) (check which) :=
  logic.step fun token => .stay (token.isTerminal which)

theorem advance : logic.Holds known id advance advance :=
  logic.step fun _ => .pass ()

theorem accept (which : Terminal) : logic.Holds known id (accept which) (accept which) :=
  accept_eq which ▸ logic.step _

theorem acceptMap (recognise : Terminal → Option α) :
    logic.Holds known id (acceptMap recognise) (acceptMap recognise) :=
  acceptMap_eq recognise ▸ logic.step _

theorem expect (which : Terminal) (what : String) :
    logic.Holds known id (expect which what) (expect which what) :=
  expect_eq which what ▸ logic.step _

theorem identifier (what : String) : logic.Holds known id (identifier what) (identifier what) :=
  identifier_eq what ▸ logic.step _

theorem expects {which : Terminal} {what : String} {next : Parse γ} {next' : Parse δ}
    (holds : logic.Holds known move next next') :
    logic.Holds known move (Parse.expect which what >>= fun _ => next)
      (Parse.expect which what >>= fun _ => next') :=
  logic.bind_same (logic.expect which what) fun _ => holds

theorem ifAccepts {which : Terminal} {yes no : Parse γ} {yes' no' : Parse δ}
    (found : logic.Holds known move yes yes') (absent : logic.Holds known move no no') :
    logic.Holds known move (Parse.accept which >>= fun found => if found then yes else no)
      (Parse.accept which >>= fun found => if found then yes' else no') := by
  refine logic.bind_same (logic.accept which) fun isFound => ?_
  cases isFound with
  | true => exact found
  | false => exact absent

theorem acceptThen {which : Terminal} {next : Bool → Parse γ} {next' : Bool → Parse δ}
    (found : logic.After known move (next true) (next' true))
    (absent : logic.Holds known move (next false) (next' false)) :
    logic.Holds known move (Parse.accept which >>= next) (Parse.accept which >>= next') := by
  rw [accept_eq]
  refine logic.stepThen (fun token value passes => ?_) fun token value stays => ?_
  · unfold Step.accepting at passes
    split at passes
    next isWhich =>
      cases passes
      exact ⟨isFinish_of_isTerminal isWhich, found⟩
    · cases passes
  · unfold Step.accepting at stays
    split at stays
    · cases stays
    · cases stays
      exact absent

theorem acceptMapThen {recognise : Terminal → Option α} {next : Option α → Parse γ}
    {next' : Option α → Parse δ}
    (found : ∀ value, logic.After known move (next (some value)) (next' (some value)))
    (absent : logic.Holds known move (next none) (next' none)) :
    logic.Holds known move (Parse.acceptMap recognise >>= next)
      (Parse.acceptMap recognise >>= next') := by
  rw [acceptMap_eq]
  refine logic.stepThen (fun token value passes => ?_) fun token value stays => ?_
  · unfold Step.mapping at passes
    split at passes
    next isValue =>
      cases passes
      obtain ⟨which, isWhich, -⟩ := Phrase.mapped_eq_some_iff.mp isValue
      exact ⟨isFinish_of_isTerminal isWhich, found _⟩
    · cases passes
  · unfold Step.mapping at stays
    split at stays
    · cases stays
    · cases stays
      exact absent

end Congruence

end Parse

namespace Grammar

open Parse

def Members.renumber (change : RefId → RefId) (members : Members) : Members where
  fields := renumberFields change members.fields
  methods := renumberMethods change members.methods

private theorem unnumbered_types (depth : Nat) :
    Unnumbered (typeName depth) ∧ Unnumbered (typeArguments depth) := by
  induction depth with
  | zero => exact ⟨fun _ => rfl, fun _ => rfl⟩
  | succ depth ih =>
    refine ⟨.bind (identifier_eq _ ▸ unnumbered_step _) fun name =>
      .bind (accept_eq _ ▸ unnumbered_step _) fun opened => ?_, .bind ih.1 fun first =>
      .bind (accept_eq _ ▸ unnumbered_step _) fun followed => ?_⟩
    · split
      · exact .bind ih.2 fun _ => .bind (expect_eq _ _ ▸ unnumbered_step _) fun _ _ => rfl
      · exact fun _ => rfl
    · split
      · exact .bind ih.2 fun _ _ => rfl
      · exact fun _ => rfl

theorem unnumbered_annotatedBlock (depth : Nat) : Unnumbered (annotatedBlock depth) := by
  cases depth with
  | zero => exact fun _ => rfl
  | succ depth =>
    exact .bind (unnumbered_types depth).1 fun _ =>
      .bind (expect_eq _ _ ▸ unnumbered_step _) fun _ _ => rfl

end Grammar

namespace Parse.Congruence

open Grammar

variable {change : RefId → RefId} {more : Nat} (logic : Congruence change more)

theorem types (depth : Nat) :
    logic.Relates id typeName depth ∧ logic.Relates id typeArguments depth := by
  induction depth with
  | zero => exact ⟨logic.relates_zero rfl, logic.relates_zero rfl⟩
  | succ depth ih =>
    refine ⟨logic.relates_succ fun known => ?_, logic.relates_succ fun known => ?_⟩
    · rw [typeName, typeName]
      refine logic.bind_same (logic.identifier _) fun name => ?_
      refine logic.ifAccepts ?_ ?_
      · exact logic.bind_same (ih.2 known) fun arguments => logic.expects <| logic.pure rfl
      · exact logic.pure rfl
    · rw [typeArguments, typeArguments]
      refine logic.bind_same (ih.1 known) fun first => ?_
      refine logic.ifAccepts ?_ ?_
      · exact logic.bind_same (ih.2 known) fun rest => logic.pure rfl
      · exact logic.pure rfl

theorem typeHint (depth : Nat) : logic.Relates id Grammar.typeHint depth := by
  intro known
  refine logic.ifAccepts ?_ ?_
  · exact logic.bind_same ((logic.types depth).1 known) fun hint => logic.pure rfl
  · exact logic.pure rfl

theorem parameters (depth count : Nat) :
    logic.Relates id (fun bound => Grammar.parameters bound count) depth := by
  induction depth generalizing count with
  | zero => exact logic.relates_zero rfl
  | succ depth ih =>
    refine logic.relates_succ fun known => ?_
    rw [Grammar.parameters, Grammar.parameters]
    split
    · exact logic.fail _
    refine logic.bind_same (logic.identifier _) fun name => ?_
    refine logic.bind_same (logic.typeHint _ known) fun hint => ?_
    refine logic.ifAccepts ?_ ?_
    · exact logic.bind_same (ih (count + 1) known) fun rest => logic.pure rfl
    · exact logic.pure rfl

theorem memberModifiers (depth : Nat) (access : Option Visibility) (dispatch : Option Dispatch) :
    logic.Relates id (fun bound => Grammar.memberModifiers bound access dispatch) depth := by
  induction depth generalizing access dispatch with
  | zero => exact logic.relates_zero rfl
  | succ depth ih =>
    refine logic.relates_succ fun known => ?_
    refine logic.acceptMapThen (fun visibility => ?_)
      (logic.acceptMapThen (fun found => ?_) (logic.pure rfl))
    -- A keyword that is given twice is blamed after it has been passed.
    · simp only
      split
      · exact logic.afterPrevious fun token => logic.failAt (.inr rfl) _
      · exact logic.after (ih _ _ known)
    · simp only
      split
      · exact logic.afterPrevious fun token => logic.failAt (.inr rfl) _
      · exact logic.after (ih _ _ known)

theorem superclassClause {known : Token → Prop} :
    logic.Holds known (Option.map fun parent => { parent with id := change parent.id })
      Grammar.superclassClause Grammar.superclassClause := by
  refine logic.ifAccepts ?_ ?_
  · exact logic.bind_same (logic.identifier _) fun name =>
      logic.bind logic.freshId fun id => logic.pure rfl
  · exact logic.pure rfl

theorem commas {known : Token → Prop} {one one' : Parse Expr} {others others' : Parse (List Expr)}
    (holds : logic.Holds known (Expr.renumber change) one one')
    (continues : logic.Holds known (renumberExprs change) others others') :
    logic.Holds known (renumberExprs change) (do
      let value ← one
      if ← Parse.accept .comma then
        let rest ← others
        return value :: rest
      else
        return [value]) (do
      let value ← one'
      if ← Parse.accept .comma then
        let rest ← others'
        return value :: rest
      else
        return [value]) := by
  refine logic.bind holds fun value => logic.ifAccepts ?_ ?_
  · exact logic.bind continues fun rest => logic.pure rfl
  · exact logic.pure rfl

-- By recursion on the bound, one case for each rule.
mutual

theorem expression : ∀ depth, logic.Relates (Expr.renumber change) Grammar.expression depth
  | 0 => logic.relates_zero rfl
  | depth + 1 => logic.relates_succ fun known => by
    refine logic.bind (operation depth 0 known) fun target => ?_
    refine logic.acceptMapThen (fun abbreviated => ?_) (logic.pure rfl)
    -- The mark is blamed after the right side has been read.
    refine logic.afterPrevious fun mark => logic.bind (expression depth _) fun right => ?_
    cases target with
    | reference id name =>
      refine logic.bind logic.freshId fun id => logic.pure ?_
      cases abbreviated <;> rfl
    | property object name | index object key position =>
      refine logic.pure ?_
      cases abbreviated <;> rfl
    | _ => exact logic.failAt (.inr rfl) _

theorem operation : ∀ depth level,
    logic.Relates (Expr.renumber change) (Grammar.operation · level) depth
  | 0, _ => logic.relates_zero rfl
  | depth + 1, level => logic.relates_succ fun known => by
    rw [Grammar.operation, Grammar.operation]
    split
    · exact operand depth known
    · exact logic.bind (operation depth _ known) fun left => operationRest depth level left known

theorem operationRest : ∀ depth level left known, logic.Holds known (Expr.renumber change)
    (Grammar.operationRest depth level left)
    (Grammar.operationRest (more + depth) level (left.renumber change))
  | 0, _, _, _ => logic.deep (by rintro rfl; rfl)
  | depth + 1, level, left, known => by
    refine logic.bind_same (logic.acceptMap _) fun found => ?_
    cases found with
    | none => exact logic.pure rfl
    | some operator =>
      refine logic.bind_same logic.previous fun mark =>
        logic.bind (operation depth _ known) fun right => ?_
      have joined : operator.apply (left.renumber change) mark.position (right.renumber change) =
          (operator.apply left mark.position right).renumber change := by
        cases operator <;> rfl
      rw [joined]
      exact operationRest depth level _ known

theorem operand : ∀ depth, logic.Relates (Expr.renumber change) Grammar.operand depth
  | 0 => logic.relates_zero rfl
  | depth + 1 => logic.relates_succ fun known => by
    refine logic.bind_same (logic.acceptMap _) fun found => ?_
    cases found with
    | some operator =>
      exact logic.bind_same logic.previous fun mark => logic.bind (operand depth known) fun inner =>
        logic.pure rfl
    | none => exact logic.bind (primary depth known) fun first => accesses depth first known

theorem accesses : ∀ depth object known, logic.Holds known (Expr.renumber change)
    (Grammar.accesses depth object) (Grammar.accesses (more + depth) (object.renumber change))
  | 0, _, _ => logic.deep (by rintro rfl; rfl)
  | depth + 1, object, known => by
    have called (position : Position) (arguments : List Expr) :
        logic.Holds known (Expr.renumber change) (do
          Parse.expect .rightParen "')' after arguments"
          Grammar.accesses depth (.call object position arguments)) (do
          Parse.expect .rightParen "')' after arguments"
          Grammar.accesses (more + depth) (.call (object.renumber change) position
            (renumberExprs change arguments))) :=
      logic.expects (accesses depth (.call object position arguments) known)
    refine logic.ifAccepts ?_ (logic.ifAccepts ?_ (logic.ifAccepts ?_ (logic.pure rfl)))
    · refine logic.bind_same logic.previous fun mark =>
        logic.bind_same (logic.check _) fun closed => ?_
      split
      · exact called mark.position []
      · exact logic.bind (arguments depth 0 known) fun arguments => called mark.position arguments
    · exact logic.bind_same (logic.identifier _) fun name =>
        accesses depth (.property object name) known
    · exact logic.bind_same logic.previous fun mark =>
        logic.bind (expression depth known) fun key =>
          logic.expects (accesses depth (.index object key mark.position) known)

theorem arguments : ∀ depth count,
    logic.Relates (renumberExprs change) (Grammar.arguments · count) depth
  | 0, _ => logic.relates_zero rfl
  | depth + 1, count => logic.relates_succ fun known => by
    rw [Grammar.arguments, Grammar.arguments]
    split
    · exact logic.fail _
    · exact logic.commas (expression depth known) (arguments depth _ known)

theorem primary : ∀ depth, logic.Relates (Expr.renumber change) Grammar.primary depth
  | 0 => logic.relates_zero rfl
  | depth + 1 => logic.relates_succ fun known => by
    refine logic.bind_same logic.current fun first => ?_
    cases literal? first with
    | some value => exact logic.bind_same logic.advance fun _ => logic.pure rfl
    | none =>
      simp only
      split
      · exact logic.bind_same (logic.identifier _) fun name => logic.bind logic.freshId fun id =>
          logic.pure rfl
      refine logic.ifAccepts (logic.bind logic.freshId fun id => logic.pure rfl) ?_
      refine logic.ifAccepts ?_ ?_
      · exact logic.expects <| logic.bind_same (logic.identifier _) fun method =>
          logic.bind logic.freshId fun id => logic.pure rfl
      refine logic.ifAccepts ?_ ?_
      · exact logic.bind (expression depth known) fun inner => logic.expects <| logic.pure rfl
      refine logic.ifAccepts ?_ ?_
      · exact logic.bind (elements depth known) fun elements => logic.expects <| logic.pure rfl
      refine logic.ifAccepts ?_ ?_
      · exact logic.bind (entries depth known) fun entries => logic.expects <| logic.pure rfl
      refine logic.ifAccepts ?_ (logic.fail _)
      exact logic.expects <| logic.bind (functionRest depth _ known) fun decl => logic.pure rfl

theorem elements : ∀ depth, logic.Relates (renumberExprs change) Grammar.elements depth
  | 0 => logic.relates_zero rfl
  | depth + 1 => logic.relates_succ fun known => by
    refine logic.bind_same (logic.check _) fun closed => ?_
    split
    · exact logic.pure rfl
    · exact logic.commas (expression depth known) (elements depth known)

theorem entries : ∀ depth, logic.Relates (renumberEntries change) Grammar.entries depth
  | 0 => logic.relates_zero rfl
  | depth + 1 => logic.relates_succ fun known => by
    refine logic.bind_same (logic.check _) fun closed => ?_
    split
    · exact logic.pure rfl
    refine logic.bind (expression depth known) fun key => logic.expects ?_
    refine logic.bind (expression depth known) fun value => logic.ifAccepts ?_ (logic.pure rfl)
    exact logic.bind (entries depth known) fun rest => logic.pure rfl

theorem functionRest : ∀ depth name,
    logic.Relates (renumberFunction change) (Grammar.functionRest · name) depth
  | 0, _ => logic.relates_zero rfl
  | depth + 1, name => logic.relates_succ fun known => by
    have finishes (parameters : List Parameter) :
        logic.Holds known (renumberFunction change) (do
          Parse.expect .rightParen "')' after parameters"
          let found ← Grammar.functionBody depth
          return { name, parameters, returns := found.1, body := found.2 }) (do
          Parse.expect .rightParen "')' after parameters"
          let found ← Grammar.functionBody (more + depth)
          return { name, parameters, returns := found.1, body := found.2 }) :=
      logic.expects <| logic.bind (functionBody depth known) fun body => logic.pure rfl
    refine logic.bind_same (logic.check _) fun closed => ?_
    split
    · exact finishes []
    · exact logic.bind_same (logic.parameters _ _ known) fun parameters => finishes parameters

theorem functionBody : ∀ depth,
    logic.Relates (Prod.map id (renumberStmts change)) Grammar.functionBody depth
  | 0 => logic.relates_zero rfl
  | depth + 1 => logic.relates_succ fun known => by
    refine logic.ifAccepts ?_
      (logic.expects <| logic.bind (block depth known) fun body => logic.pure rfl)
    refine logic.bind_same logic.previous fun arrow =>
      logic.bind_same (logic.attempt (unnumbered_annotatedBlock depth) (annotatedBlock depth known))
        fun found => ?_
    cases found with
    | some returns => exact logic.bind (block depth known) fun body => logic.pure rfl
    | none =>
      exact logic.bind (expression depth known) fun value =>
        logic.bind_same (logic.accept _) fun _ => logic.pure rfl

theorem annotatedBlock : ∀ depth, logic.Relates id Grammar.annotatedBlock depth
  | 0 => logic.relates_zero rfl
  | _ + 1 => logic.relates_succ fun known =>
    logic.bind_same ((logic.types _).1 known) fun _ => logic.expects <| logic.pure rfl

theorem namedFunction : ∀ depth kind,
    logic.Relates (renumberFunction change) (Grammar.namedFunction · kind) depth
  | 0, _ => logic.relates_zero rfl
  | depth + 1, _ => logic.relates_succ fun known =>
    logic.bind_same (logic.identifier _) fun name =>
      logic.expects <| functionRest depth name known

theorem block : ∀ depth, logic.Relates (renumberStmts change) Grammar.block depth
  | 0 => logic.relates_zero rfl
  | depth + 1 => logic.relates_succ fun known => by
    refine logic.bind_same (logic.check _) fun closed => logic.bind_same logic.atEnd fun ended => ?_
    split
    · exact logic.expects <| logic.pure rfl
    · exact logic.bind (declaration depth known) fun first =>
        logic.bind (block depth known) fun rest => logic.pure rfl

theorem declaration : ∀ depth, logic.Relates (Stmt.renumber change) Grammar.declaration depth
  | 0 => logic.relates_zero rfl
  | depth + 1 => logic.relates_succ fun known => by
    refine logic.ifAccepts (classDeclaration depth known) ?_
    refine logic.bind_same (logic.check _) fun marked =>
      logic.bind_same logic.checkNextIdentifier fun named => ?_
    split
    · exact logic.bind_same logic.advance fun _ => logic.bind (namedFunction depth _ known)
        fun decl => logic.pure (by rw [Stmt.renumber])
    · exact logic.ifAccepts (varDeclaration depth known) (statement depth known)

theorem varDeclaration : ∀ depth, logic.Relates (Stmt.renumber change) Grammar.varDeclaration depth
  | 0 => logic.relates_zero rfl
  | depth + 1 => logic.relates_succ fun known =>
    logic.bind_same (logic.identifier _) fun _ =>
      logic.bind_same (logic.typeHint _ known) fun _ =>
        logic.bind (initialValue depth known) fun _ => logic.expects <| logic.pure rfl

theorem initialValue : ∀ depth, logic.Relates (renumberOptional change) Grammar.initialValue depth
  | 0 => logic.relates_zero rfl
  | depth + 1 => logic.relates_succ fun known =>
    logic.ifAccepts (logic.bind (expression depth known) fun _ => logic.pure rfl)
      (logic.pure rfl)

theorem classDeclaration : ∀ depth,
    logic.Relates (Stmt.renumber change) Grammar.classDeclaration depth
  | 0 => logic.relates_zero rfl
  | depth + 1 => logic.relates_succ fun known =>
    logic.bind_same (logic.identifier _) fun name =>
      logic.bind logic.superclassClause fun superclass => logic.expects <|
        logic.bind (members depth known) fun members => logic.pure (by rw [Stmt.renumber]; rfl)

theorem members : ∀ depth, logic.Relates (Members.renumber change) Grammar.members depth
  | 0 => logic.relates_zero rfl
  | depth + 1 => logic.relates_succ fun known => by
    refine logic.bind_same (logic.check _) fun closed => logic.bind_same logic.atEnd fun ended => ?_
    split
    · exact logic.expects <| logic.pure rfl
    refine logic.bind_same (logic.memberModifiers _ _ _ known) fun modifiers => ?_
    refine logic.acceptThen ?_ (logic.ifAccepts ?_ (logic.fail _))
    · simp only [if_true]
      split
      · exact logic.afterPrevious fun token => logic.failAt (.inr rfl) _
      · exact logic.after (logic.bind (field depth _ known) fun first =>
          logic.bind (members depth known) fun rest => logic.pure rfl)
    · exact logic.bind (namedFunction depth _ known) fun function =>
        logic.bind (members depth known) fun rest => logic.pure rfl

theorem field : ∀ depth visibility, logic.Relates
    (fun decl => { decl with initial := renumberOptional change decl.initial })
    (Grammar.field · visibility) depth
  | 0, _ => logic.relates_zero rfl
  | depth + 1, _ => logic.relates_succ fun known =>
    logic.bind_same (logic.identifier _) fun _ =>
      logic.bind_same (logic.typeHint _ known) fun _ =>
        logic.bind (initialValue depth known) fun _ => logic.expects <| logic.pure rfl

theorem statement : ∀ depth, logic.Relates (Stmt.renumber change) Grammar.statement depth
  | 0 => logic.relates_zero rfl
  | depth + 1 => logic.relates_succ fun known => by
    refine logic.ifAccepts (countedLoop depth known) (logic.ifAccepts (branch depth known) ?_)
    refine logic.ifAccepts ?_ ?_
    · exact logic.expects <| logic.bind (expression depth known) fun condition =>
        logic.expects <| logic.bind (statement depth known) fun body => logic.pure rfl
    refine logic.ifAccepts ?_ ?_
    · exact logic.bind_same logic.previous fun keyword =>
        logic.bind (optionalExpression depth _ known) fun value => logic.expects <| logic.pure rfl
    have keyword {made : Position → Stmt} (fixed : ∀ mark, (made mark).renumber change = made mark)
        (what : String) : logic.Holds known (Stmt.renumber change) (do
          let word ← Parse.previous
          Parse.expect .semicolon what
          return made word.position) (do
          let word ← Parse.previous
          Parse.expect .semicolon what
          return made word.position) :=
      logic.bind_same logic.previous fun word => logic.expects <| logic.pure (fixed _).symm
    refine logic.ifAccepts (keyword (fun _ => rfl) _) ?_
    refine logic.ifAccepts (keyword (fun _ => rfl) _) ?_
    refine logic.ifAccepts (logic.bind (block depth known) fun body => logic.pure rfl) ?_
    refine logic.ifAccepts ?_ (expressionStatement depth known)
    exact logic.bind_same logic.previous fun keyword =>
      logic.bind (printed depth known) fun values => logic.expects <| logic.pure rfl

theorem optionalExpression : ∀ depth mark,
    logic.Relates (renumberOptional change) (Grammar.optionalExpression · mark) depth
  | 0, _ => logic.relates_zero rfl
  | depth + 1, mark => logic.relates_succ fun known => by
    refine logic.bind_same (logic.check _) fun found => ?_
    split
    · exact logic.pure rfl
    · exact logic.bind (expression depth known) fun value => logic.pure rfl

theorem printed : ∀ depth, logic.Relates (renumberExprs change) Grammar.printed depth
  | 0 => logic.relates_zero rfl
  | depth + 1 => logic.relates_succ fun known =>
    logic.commas (expression depth known) (printed depth known)

theorem expressionStatement : ∀ depth,
    logic.Relates (Stmt.renumber change) Grammar.expressionStatement depth
  | 0 => logic.relates_zero rfl
  | depth + 1 => logic.relates_succ fun known =>
    logic.bind (expression depth known) fun _ => logic.expects <| logic.pure rfl

theorem countedLoop : ∀ depth, logic.Relates (Stmt.renumber change) Grammar.countedLoop depth
  | 0 => logic.relates_zero rfl
  | depth + 1 => logic.relates_succ fun known =>
    logic.expects <| logic.bind (loopInitial depth known) fun _ =>
      logic.bind (optionalExpression depth _ known) fun _ => logic.expects <|
        logic.bind (optionalExpression depth _ known) fun _ => logic.expects <|
          logic.bind (statement depth known) fun _ => logic.pure rfl

theorem loopInitial : ∀ depth,
    logic.Relates (renumberOptionalStmt change) Grammar.loopInitial depth
  | 0 => logic.relates_zero rfl
  | depth + 1 => logic.relates_succ fun known => by
    refine logic.ifAccepts (logic.pure rfl) (logic.ifAccepts ?_ ?_)
    · exact logic.bind (varDeclaration depth known) fun initial => logic.pure rfl
    · exact logic.bind (expressionStatement depth known) fun initial => logic.pure rfl

theorem branch : ∀ depth, logic.Relates (Stmt.renumber change) Grammar.branch depth
  | 0 => logic.relates_zero rfl
  | depth + 1 => logic.relates_succ fun known => by
    refine logic.expects <| logic.bind (expression depth known) fun condition => logic.expects <|
      logic.bind (statement depth known) fun whenTrue => logic.ifAccepts ?_ (logic.pure rfl)
    exact logic.bind (statement depth known) fun whenFalse => logic.pure rfl

end

theorem declarations (depth : Nat) :
    logic.Relates (renumberStmts change) Grammar.declarations depth := by
  induction depth with
  | zero => exact logic.relates_zero rfl
  | succ depth ih =>
    refine logic.relates_succ fun known => ?_
    refine logic.bind_same logic.atEnd fun ended => ?_
    split
    · exact logic.pure rfl
    · exact logic.bind (logic.declaration depth known) fun first =>
        logic.bind (ih known) fun rest => logic.pure rfl

theorem loneExpression (depth : Nat) :
    logic.Relates (Expr.renumber change) Grammar.loneExpression depth := by
  intro known
  refine logic.bind (logic.expression depth known) fun value =>
    logic.bind_same (logic.accept _) fun _ => logic.bind_same logic.atEnd fun ended => ?_
  split
  · exact logic.pure rfl
  · exact logic.fail _

end Parse.Congruence

def numberedLater (ahead : Nat) : RefId → RefId :=
  fun id => id + ahead

namespace Parse

def State.later (ahead : Nat) (state : State) : State :=
  { state with nextId := state.nextId + ahead }

def Reply.later {α β : Type} (ahead : Nat) (move : α → β) : Reply α → Reply β
  | .ok value state => .ok (move value) (state.later ahead)
  | .fault found state => .fault found (state.later ahead)

def Reply.RanOut {α : Type} : Reply α → Prop
  | .ok _ _ => False
  | .fault found _ => found.value.problem = .nestedTooDeep

def Shifts {α β : Type} (excused : Prop) (ahead : Nat) (move : α → β) (reader : Parse α)
    (shifted : Parse β) : Prop :=
  ∀ state : State, excused ∧ (reader state).RanOut ∨
    shifted (state.later ahead) = (reader state).later ahead move

theorem State.advance_later (ahead : Nat) (state : State) :
    (state.later ahead).advance = state.advance.later ahead := by
  simp only [State.advance, State.later]
  split <;> rfl

section Moves

variable {α β γ δ : Type} {excused : Prop} {ahead : Nat}

private theorem shifts_bind {move : α → β} {move' : γ → δ} {reader : Parse α} {shifted : Parse β}
    {next : α → Parse γ} {next' : β → Parse δ} (shifts : Shifts excused ahead move reader shifted)
    (continues : ∀ value, Shifts excused ahead move' (next value) (next' (move value))) :
    Shifts excused ahead move' (reader >>= next) (shifted >>= next') := by
  intro state
  have first := shifts state
  simp only [Bind.bind]
  cases replies : reader state with
  | ok value after =>
    rw [replies] at first
    rw [first.resolve_left fun deep => deep.2]
    exact continues value after
  | fault fault after =>
    rw [replies] at first
    refine first.imp id fun same => ?_
    rw [same]
    rfl

private theorem shifts_stepThen {move : γ → δ} {choose : Token → Step α} {next : α → Parse γ}
    {next' : α → Parse δ}
    (passed : ∀ token value, choose token = .pass value →
      Shifts excused ahead move (next value) (next' value))
    (stayed : ∀ token value, choose token = .stay value →
      Shifts excused ahead move (next value) (next' value)) :
    Shifts excused ahead move (Step.reader choose >>= next) (Step.reader choose >>= next') := by
  intro state
  have same : (state.later ahead).current = state.current := rfl
  simp only [Bind.bind, Step.reader, State.advance_later, same]
  cases chosen : choose state.current with
  | pass value => exact passed _ value chosen state.advance
  | stay value => exact stayed _ value chosen state
  | refuse problem => exact .inr rfl

private theorem shifts_attempt {reader shifted : Parse α}
    (shifts : Shifts excused ahead id reader shifted) :
    Shifts excused ahead id (attempt reader) (attempt shifted) := by
  intro state
  have first := shifts state
  simp only [attempt]
  cases replies : reader state with
  | ok value after =>
    rw [replies] at first
    rw [first.resolve_left fun deep => deep.2]
    exact .inr rfl
  | fault fault after =>
    rw [replies] at first
    rcases first with ⟨isExcused, deep⟩ | same
    · have isDeep : fault.value.problem = .nestedTooDeep := deep
      refine .inl ⟨isExcused, ?_⟩
      simp only [isDeep, if_true]
      exact isDeep
    · rw [same]
      refine .inr ?_
      simp only [Reply.later]
      split <;> rfl

end Moves

def shifting (ahead more : Nat) : Congruence (numberedLater ahead) more where
  Holds _ move reader other := Shifts (0 < more) ahead move reader other
  After _ move reader other := Shifts (0 < more) ahead move reader other
  pure same _ := .inr (by rw [same]; rfl)
  bind first continues := shifts_bind first continues
  step choose state := by
    have same : (state.later ahead).current = state.current := rfl
    simp only [Step.reader, State.advance_later, same]
    cases choose state.current <;> exact .inr rfl
  stepThen passed := shifts_stepThen fun token value chosen => (passed token value chosen).2
  afterPrevious continues state := continues state.previous state
  after holds := holds
  failAt _ _ _ := .inr rfl
  previous _ := .inr rfl
  checkNextIdentifier _ := .inr rfl
  freshId state := .inr (by
    simp only [freshId, State.later, Reply.later, numberedLater, Nat.add_right_comm])
  attempt _ holds := shifts_attempt holds
  deep even state := by
    rcases Nat.eq_zero_or_pos more with none | some
    · rw [even none]
      exact .inr rfl
    · exact .inl ⟨some, show SyntaxProblem.nestedTooDeep = .nestedTooDeep from rfl⟩

end Parse

theorem Parse.Congruence.Relates.later {α : Type} {ahead depth : Nat} {move : α → α}
    {rule : Nat → Parse α} (relates : (shifting ahead 0).Relates move rule depth)
    (state : State) : rule depth (state.later ahead) = (rule depth state).later ahead move := by
  have shifts := relates (fun _ => False) state
  rw [Nat.zero_add] at shifts
  exact shifts.resolve_left fun excused => Nat.lt_irrefl _ excused.1

section Programs

variable (tokens : List Token) (first ahead : Nat)

theorem Parse.State.ofTokens_later :
    State.ofTokens tokens (first + ahead) = (State.ofTokens tokens first).later ahead := by
  cases tokens <;> rfl

/-- A program read from a later number on is the same program, its numbers that much greater. -/
theorem parseProgram_later :
    parseProgram tokens (first + ahead) =
      (parseProgram tokens first).later ahead (renumberStmts (numberedLater ahead)) := by
  unfold parseProgram
  rw [Parse.State.ofTokens_later]
  exact (Parse.Congruence.declarations _ _).later _

theorem parseExpression_later :
    parseExpression tokens (first + ahead) =
      (parseExpression tokens first).later ahead (Expr.renumber (numberedLater ahead)) := by
  unfold parseExpression
  rw [Parse.State.ofTokens_later]
  exact (Parse.Congruence.loneExpression _ _).later _

end Programs

end ClassScript
