import ClassScript.Proofs.PhraseShift
import ClassScript.Proofs.Sentences
import ClassScript.Proofs.Congruence

/-!
An expression in its contexts. Its tokens make the same tree everywhere, but the expression after an
arrow takes a semicolon where it finds one.
-/

set_option autoImplicit false

namespace ClassScript

open Parse Phrase

namespace Phrase

namespace Ending

def single {mark : Token} (isMark : mark.isFinish) : Ending where
  marks := [{ kind := .terminal .semicolon, lexeme := ";", position := .start }]
  finish := mark
  areMarks := by simp [Token.isTerminal]
  isFinish := isMark

theorem marked (ending : Ending) : Marked ending.tokens :=
  ⟨ending.finish, by simp [tokens], ending.isFinish⟩

theorem avoids_continues (ending : Ending) : Avoids Continues ending.tokens := by
  obtain ⟨mark, isMark, split⟩ | ⟨alone, _⟩ := ending.cases_tokens
  · rw [split]
    exact .of_isTerminal isMark (by decide)
  · rw [alone]
    exact Grammar.avoids_of_ended ending.isFinish

theorem ended_drop (ending : Ending) (taken : Nat) :
    ended (ending.drop taken).tokens = true ↔ ending.marks.length ≤ taken := by
  rw [← List.drop_eq_nil_iff]
  have areMarks := (ending.drop taken).areMarks
  simp only [drop, tokens] at areMarks ⊢
  cases split : ending.marks.drop taken with
  | nil => simp [ended, ending.isFinish]
  | cons mark rest =>
    have isMark := areMarks mark (by rw [split]; exact List.mem_cons_self)
    simp [ended, isFinish_of_isTerminal isMark]

theorem length_tokens (ending : Ending) : ending.tokens.length = ending.marks.length + 1 := by
  simp [tokens]

theorem length_drop (ending : Ending) (taken : Nat) :
    (ending.drop taken).tokens.length = ending.marks.length - taken + 1 := by
  simp [drop, tokens]

variable {ending : Ending}

theorem starts_semicolon (some : ending.marks ≠ []) : starts .semicolon ending.tokens = true := by
  obtain ⟨marks, finish, areMarks, isFinish⟩ := ending
  cases marks with
  | nil => contradiction
  | cons mark rest => exact areMarks mark List.mem_cons_self

theorem eq_drop_of_cons {mark : Token} {rest : List Token} (split : ending.tokens = mark :: rest)
    (isMark : mark.isTerminal .semicolon) : rest = (ending.drop 1).tokens := by
  obtain ⟨mark', _, found⟩ | ⟨found, _⟩ := ending.cases_tokens
  · exact (List.cons.inj (split.symm.trans found)).2
  · obtain ⟨rfl, _⟩ := List.cons.inj (split.symm.trans found)
    have isFinish := ending.isFinish
    simp [isFinish_of_isTerminal isMark] at isFinish

end Ending

variable {front tokens lead rest : List Token} {mark : Token} {first next id : RefId} {value : Expr}
  {ending : Ending} {statement : Expr → Stmt} {stmt : Stmt}

theorem Shift.exists_tokens_eq {moved : List Token} (ending : Ending)
    (plain : ∀ token ∈ front, token.isFinish = false) (isMark : mark.isFinish)
    (alike : moved.map Token.unplaced = front.map Token.unplaced) :
    ∃ place, Shift.tokens ⟨place, ending⟩ 0 (front ++ [mark]) = moved ++ ending.tokens := by
  -- A token is told by how many tokens are left.
  let shift : Shift :=
    ⟨fun left => moved.reverse[left.length - 2]?.elim .start Token.position, ending⟩
  suffices moves : ∀ earlier later, moved = earlier ++ later →
      later.map Token.unplaced = front.map Token.unplaced →
      shift.tokens 0 (front ++ [mark]) = later ++ ending.tokens from
    ⟨shift.place, moves [] moved rfl alike⟩
  clear alike
  induction front with
  | nil =>
    intro earlier later split alike
    obtain rfl := List.map_eq_nil_iff.mp alike
    exact shift.atEnd isMark
  | cons token rest ih =>
    intro earlier later split alike
    obtain ⟨token', rest', rfl, same, alike⟩ := List.map_eq_cons_iff.mp alike
    have length := congrArg List.length alike
    rw [List.length_map, List.length_map] at length
    have placed : shift.place (token :: (rest ++ [mark])) = token'.position := by
      simp [shift, split, ← length]
    rw [List.cons_append, shift.cons (plain token List.mem_cons_self), placed,
      ih (fun other member => plain other (List.mem_cons_of_mem _ member)) (earlier ++ [token'])
        rest' (by simp [split]) alike]
    simp only [Token.unplaced, Token.mk.injEq] at same
    rw [← same.1, ← same.2.1]
    rfl

private theorem expression_later {after : List Token}
    (isValue : Expression ⟨tokens, first⟩ ⟨after, next⟩ value) (final : Avoids Continues after)
    (marked : Marked after) (ahead : Nat) :
    ∃ value', Expression ⟨tokens, first + ahead⟩ ⟨after, next + ahead⟩ value' := by
  obtain ⟨last, read, left⟩ := (Grammar.expression_iff (marked.before isValue.left.1)).mpr
    ⟨⟨isValue, final⟩, marked⟩
  have later := ((shifting ahead 0).expression (depthBound tokens.length)).later
    (State.ofTokens tokens first)
  rw [← State.ofTokens_later] at later
  rw [read] at later
  have feed : (last.later ahead).feed = ⟨after, next + ahead⟩ := by
    obtain ⟨sameTokens, sameId⟩ := Feed.mk.inj left
    simp only [State.later, State.feed, sameTokens, sameId]
  have found := (Grammar.expression_iff (marked.before isValue.left.1)).mp ⟨_, later, feed⟩
  exact ⟨_, found.1.1⟩

private theorem end_unique {after after' : List Token} {first' next' : RefId} {value' : Expr}
    (isValue : Expression ⟨tokens, first⟩ ⟨after, next⟩ value)
    (isValue' : Expression ⟨tokens, first'⟩ ⟨after', next'⟩ value')
    (final : Avoids Continues after) (final' : Avoids Continues after') (marked : Marked after)
    (marked' : Marked after') : after = after' := by
  obtain ⟨ahead, rfl⟩ | ⟨ahead, rfl⟩ :=
    (Nat.le_total first first').imp Nat.exists_eq_add_of_le Nat.exists_eq_add_of_le
  · obtain ⟨_, later⟩ := expression_later isValue final marked ahead
    exact congrArg Feed.tokens
      (Grammar.expression_unique later isValue' final final' marked marked').2
  · obtain ⟨_, later⟩ := expression_later isValue' final' marked' ahead
    exact congrArg Feed.tokens
      (Grammar.expression_unique isValue later final final' marked marked').2

private theorem not_trailing (plain : ∀ token ∈ front, token.isFinish = false)
    (isMark : mark.isFinish) (some : ending.marks ≠ [])
    (isValue : Expression ⟨front ++ ending.tokens, first⟩ ⟨ending.tokens, next⟩ value) :
    ¬Trailing (front ++ [mark]) [mark] := by
  rintro ⟨arrow, rest, id, id', inner, isArrow, ⟨earlier, whole⟩, unannotated, isInner⟩
  obtain ⟨body, rfl⟩ := isInner.left.1
  have split : front = earlier ++ arrow :: body := by
    have same : (earlier ++ arrow :: body) ++ [mark] = front ++ [mark] := by simpa using whole
    exact (List.append_cancel_right same).symm
  have within : ∀ token ∈ body, token.isFinish = false := by
    intro token member
    exact plain token (split ▸ List.mem_append_right _ (List.mem_cons_of_mem _ member))
  obtain ⟨place, moved⟩ := Shift.exists_tokens_eq ending within isMark rfl
  -- The arrow has its body before the ending, and the body ends where the same tokens end alone.
  have bodied : Bodied (body ++ ending.tokens) ending.tokens := by
    refine isValue.left.bodied arrow _ isArrow ⟨earlier, ?_⟩ ?_
    · simp [split]
    · simp
  obtain annotated | ⟨_, ⟨stop, _⟩, _, isBody, ends⟩ := bodied
  · exact not_annotated ⟨place, ending⟩ unannotated (moved ▸ annotated)
  · obtain ⟨taken, _, moves⟩ := reaches_expression isInner
    obtain ⟨_, isMoved, _⟩ := moves ⟨place, ending⟩
    have finish : ended [mark] = true := isMark
    simp only [Shift.feed, moved, Shift.atEnd _ finish] at isMoved
    have stops (final : Avoids Continues stop) (within : ending.tokens <:+ stop) :
        stop = (ending.drop taken).tokens :=
      end_unique isBody isMoved final (ending.drop taken).avoids_continues
        (ending.marked.before within) (ending.drop taken).marked
    have long := ending.length_tokens
    have short := ending.length_drop taken
    obtain ⟨alone, within⟩ | ⟨mark', rest, rfl, isMark', within⟩ := ends
    · have same : stop = (ending.drop taken).tokens := stops (alone.mono fun _ => .inl) within
      have less := within.length_le
      simp only [same] at less
      have positive := List.length_pos_iff.mpr some
      have none : taken = 0 := by omega
      have absent : starts .semicolon stop = false := avoids_eq_iff.mp (alone.mono fun _ => .inr)
      rw [same, none] at absent
      have present : starts .semicolon (ending.drop 0).tokens = true := Ending.starts_semicolon some
      simp [present] at absent
    · have same := congrArg List.length (stops (.of_isTerminal isMark' (by decide))
        (within.trans (List.suffix_cons _ _)))
      have less := within.length_le
      simp only [List.length_cons] at same
      omega

/-- Tokens in front of an expression that make a statement of it and of the semicolon after it. -/
inductive Introduces : List Token → (Expr → Stmt) → Prop where
  | declared {word name equals : Token} (isWord : word.isTerminal .varWord)
    (isName : name.isIdentifier) (isEquals : equals.isTerminal .equal) :
    Introduces [word, name, equals] fun value => .var (named name) none (some value)
  | printed {word : Token} (isWord : word.isTerminal .printWord) :
    Introduces [word] fun value => .print word.position [value]

private theorem isTerminal_unique {token : Token} {which other : Terminal}
    (isWhich : token.isTerminal which) (isOther : token.isTerminal other) : which = other := by
  have same := (isTerminal_iff.mp isWhich).symm.trans (isTerminal_iff.mp isOther)
  exact Token.Kind.terminal.inj same

private theorem Introduces.makes {after : List Token} (introduces : Introduces lead statement)
    (isValue : Expression ⟨rest, first⟩ ⟨mark :: after, id⟩ value)
    (isMark : mark.isTerminal .semicolon) :
    Declaration ⟨lead ++ rest, first⟩ ⟨after, id⟩ (statement value) := by
  cases introduces with
  | declared isWord isName isEquals =>
    exact .var isWord (.declared isName .none (.some isEquals isValue) isMark)
  | printed isWord => exact .statement (.print isWord (.last isValue) isMark)

private theorem Introduces.only {middle : Feed} (introduces : Introduces lead statement)
    (isStmt : Declaration ⟨lead ++ rest, first⟩ middle stmt) :
    ∃ value mark after id, Expression ⟨rest, first⟩ ⟨mark :: after, id⟩ value ∧
      middle.tokens <:+ after ∧
      (mark.isTerminal .comma = true ∨
        mark.isTerminal .semicolon = true ∧ middle = ⟨after, id⟩) := by
  cases introduces with
  | declared isWord isName isEquals =>
    cases isStmt with
    | classDecl isOther => cases isTerminal_unique isWord isOther
    | function isOther => cases isTerminal_unique isWord isOther
    | statement isOther =>
      have absent : starts .varWord _ = false := (led_statement isOther).starts rfl
      simp [starts, isWord] at absent
    | var _ declared =>
      obtain ⟨_, typed, isInitial, isMark⟩ := declared
      cases typed with
      | some isColon => cases isTerminal_unique isEquals isColon
      | none =>
        cases isInitial with
        | none => cases isTerminal_unique isEquals isMark
        | some _ isValue =>
          exact ⟨_, _, _, _, isValue, List.suffix_refl _, .inr ⟨isMark, rfl⟩⟩
  | printed isWord =>
    cases isStmt with
    | classDecl isOther => cases isTerminal_unique isWord isOther
    | function isOther => cases isTerminal_unique isWord isOther
    | var isOther => cases isTerminal_unique isWord isOther
    | statement isOther =>
      cases isOther with
      | print _ areValues isMark =>
        cases areValues with
        | last isValue => exact ⟨_, _, _, _, isValue, List.suffix_refl _, .inr ⟨isMark, rfl⟩⟩
        | more isValue isComma next =>
          exact ⟨_, _, _, _, isValue, next.left.tail, .inl isComma⟩
      | expression _ isValue =>
        have absent : starts .printWord _ = false := (led_expression isValue).starts rfl
        simp [starts, isWord] at absent
      | countedLoop isOther => cases isTerminal_unique isWord isOther
      | branch isOther => cases isTerminal_unique isWord isOther
      | branches isOther => cases isTerminal_unique isWord isOther
      | loop isOther => cases isTerminal_unique isWord isOther
      | returnValue isOther => cases isTerminal_unique isWord isOther
      | breakLoop isOther => cases isTerminal_unique isWord isOther
      | continueLoop isOther => cases isTerminal_unique isWord isOther
      | block isOther => cases isTerminal_unique isWord isOther

private theorem starts_declaration {before after : Feed}
    (declares : Declaration before after stmt) : starts .semicolon before.tokens = false := by
  cases declares with
  | classDecl isWord | function isWord | var isWord => exact starts_of_isTerminal isWord (by decide)
  | statement isStmt => exact (led_statement isStmt).starts rfl

theorem Ending.ended_of_declarations {after : Feed} {program : List Stmt}
    (derived : Declarations ⟨ending.tokens, id⟩ after program) : ended ending.tokens = true := by
  cases derived with
  | none atEnd => exact atEnd
  | more isFirst _ =>
    by_cases none : ending.marks = []
    · exact (ending.ended_drop 0).mpr (by simp [none])
    · have absent := starts_declaration isFirst
      simp [starts_semicolon none] at absent

section Taken

variable {tokens : List Token} {first next : RefId} {ending : Ending} {taken : Nat} {value : Expr}
  (isValue : Expression ⟨tokens, first⟩ ⟨(ending.drop taken).tokens, next⟩ value)

include isValue

private theorem terminated_of_lt (more : taken < ending.marks.length) :
    ∃ mark, mark.isTerminal .semicolon = true ∧
      Expression ⟨tokens, first⟩ ⟨mark :: (ending.drop (taken + 1)).tokens, next⟩ value := by
  rw [← ending.drop_drop taken 1]
  obtain ⟨mark, isMark, split⟩ | ⟨alone, _⟩ := (ending.drop taken).cases_tokens
  · exact ⟨mark, isMark, split ▸ isValue⟩
  · have few := (ending.ended_drop taken).mp (by rw [alone]; exact ending.isFinish)
    omega

/-- Another expression that begins at the same token leaves the same tokens. -/
private theorem leaves_ending {tokens' : List Token} {next' : RefId} {value' : Expr}
    (isOther : Expression ⟨tokens, first⟩ ⟨tokens', next'⟩ value')
    (final : Avoids Continues tokens') (marked : Marked tokens') :
    tokens' = (ending.drop taken).tokens :=
  end_unique isOther isValue final (ending.drop taken).avoids_continues marked
    (ending.drop taken).marked

private theorem lone_reads_iff :
    (∃ value' last, parseExpression tokens first = .ok value' last) ↔
      ending.marks.length ≤ taken + 1 := by
  have all : Marked tokens := (ending.drop taken).marked.before isValue.left.1
  constructor
  · rintro ⟨value', last, read⟩
    obtain ⟨derived, marked⟩ := (Grammar.parseExpression_iff all).mp ⟨last, read, rfl⟩
    generalize last.feed = after at derived marked
    cases derived with
    | plain isOther atEnd =>
      have same := leaves_ending isValue isOther (Grammar.avoids_of_ended atEnd) marked
      rw [same] at atEnd
      have few := (ending.ended_drop taken).mp atEnd
      omega
    | terminated isOther isMark atEnd =>
      have same := leaves_ending isValue isOther (.of_isTerminal isMark (by decide)) marked.cons
      rw [Ending.eq_drop_of_cons same.symm isMark, ending.drop_drop] at atEnd
      exact (ending.ended_drop (taken + 1)).mp atEnd
  · intro few
    by_cases none : ending.marks.length ≤ taken
    · have atEnd := (ending.ended_drop taken).mpr none
      obtain ⟨last, read, _⟩ := (Grammar.parseExpression_iff all).mpr
        ⟨.plain isValue atEnd, (ending.drop taken).marked⟩
      exact ⟨value, last, read⟩
    · obtain ⟨mark, isMark, isValue⟩ := terminated_of_lt isValue (by omega)
      have atEnd := (ending.ended_drop (taken + 1)).mpr few
      obtain ⟨last, read, _⟩ := (Grammar.parseExpression_iff all).mpr
        ⟨.terminated isValue isMark atEnd, (ending.drop (taken + 1)).marked⟩
      exact ⟨value, last, read⟩

variable {lead : List Token} {statement : Expr → Stmt}

private theorem Introduces.reads (introduces : Introduces lead statement)
    (enough : ending.marks.length = taken + 1) :
    ∃ last, parseProgram (lead ++ tokens) first = .ok [statement value] last := by
  obtain ⟨mark, isMark, isValue⟩ := terminated_of_lt isValue (by omega)
  have atEnd := (ending.ended_drop (taken + 1)).mpr (by omega)
  have derived := Declarations.more (introduces.makes isValue isMark) (.none atEnd)
  have marked := (ending.drop (taken + 1)).marked
  obtain ⟨last, read, _⟩ := (Grammar.parseProgram_iff
    (marked.before (Grammar.left_declarations derived).1)).mpr ⟨derived, marked⟩
  exact ⟨last, read⟩

private theorem Introduces.enough {program : List Stmt} {last : State}
    (introduces : Introduces lead statement)
    (read : parseProgram (lead ++ tokens) first = .ok program last) :
    ending.marks.length = taken + 1 := by
  have all : Marked (lead ++ tokens) :=
    (ending.drop taken).marked.before (isValue.left.1.trans (List.suffix_append _ _))
  obtain ⟨derived, marked⟩ := (Grammar.parseProgram_iff all).mp ⟨last, read, rfl⟩
  generalize last.feed = after at derived marked
  cases derived with
  | none atEnd =>
    cases introduces with
    | declared isWord => simp [ended, isFinish_of_isTerminal isWord] at atEnd
    | printed isWord => simp [ended, isFinish_of_isTerminal isWord] at atEnd
  | more isFirst others =>
    have middle := marked.before (Grammar.left_declarations others).1
    obtain ⟨_, mark, rest, _, isOther, within, isComma | ⟨isMark, rfl⟩⟩ :=
      introduces.only isFirst
    · have same := leaves_ending isValue isOther (.of_isTerminal isComma (by decide))
        (middle.before within).cons
      have absent := (ending.drop taken).starts_tokens (by decide : Terminal.comma ≠ .semicolon)
      rw [← same] at absent
      simp [starts, isComma] at absent
    · have same := leaves_ending isValue isOther (.of_isTerminal isMark (by decide)) middle.cons
      have more : ¬ending.marks.length ≤ taken := by
        rw [← ending.ended_drop, ← same]
        simp [ended, isFinish_of_isTerminal isMark]
      -- After the semicolon only the end mark can be left, since no declaration begins with one.
      have left := Ending.eq_drop_of_cons same.symm isMark
      rw [left, ending.drop_drop] at others
      have few := (ending.ended_drop (taken + 1)).mp (Ending.ended_of_declarations others)
      omega

end Taken

end Phrase

private theorem expression_of_reads {front : List Token} {mark : Token}
    (plain : ∀ token ∈ front, token.isFinish = false) (isMark : mark.isFinish)
    (unmarked : ∀ token ∈ front.getLast?, token.isTerminal .semicolon = false) {first : RefId}
    {value : Expr} {last : State}
    (read : parseExpression (front ++ [mark]) first = .ok value last) :
    ∃ next, Expression ⟨front ++ [mark], first⟩ ⟨[mark], next⟩ value := by
  have single : Marked [mark] := ⟨mark, List.mem_singleton_self _, isMark⟩
  obtain ⟨derived, marked⟩ := (Grammar.parseExpression_iff
    (single.before (List.suffix_append _ _))).mp ⟨last, read, rfl⟩
  generalize last.feed = after at derived marked
  cases derived with
  | plain isValue atEnd =>
    obtain ⟨tokens, next⟩ := after
    have all : tokens = [mark] := eq_mark_of_ended plain isValue.left.1 marked.ne_nil atEnd
    exact ⟨next, all ▸ isValue⟩
  | @terminated semicolon _ _ _ isValue isSemicolon atEnd =>
    obtain rfl := eq_mark_of_ended plain isValue.left.tail marked.ne_nil atEnd
    obtain ⟨earlier, whole⟩ := isValue.left.1
    have same : (earlier ++ [semicolon]) ++ [mark] = front ++ [mark] := by simpa using whole
    have ends := unmarked semicolon (by rw [← List.append_cancel_right same]; simp)
    simp [isSemicolon] at ends

/-- An expression means the same in every context, given its semicolons. The tokens of an expression
take a number of semicolons for themselves, which is none exactly if they do not end with an arrow
and an expression. Wherever they stand, as the value of a variable or as what is printed, they make
up to positions the tree that they make alone if one semicolon more follows than they take, and
with fewer or more there is no program. Alone, as many may follow as in a statement. -/
theorem expressions_need_their_semicolons {front : List Token} {mark : Token}
    (plain : ∀ token ∈ front, token.isFinish = false) (isMark : mark.isFinish)
    (unmarked : ∀ token ∈ front.getLast?, token.isTerminal .semicolon = false) {first : RefId}
    {value : Expr} {last : State}
    (read : parseExpression (front ++ [mark]) first = .ok value last) :
    ∃ taken, (taken = 0 ↔ ¬Trailing (front ++ [mark]) [mark]) ∧
      ∀ (ending : Ending) (moved : List Token),
        moved.map Token.unplaced = front.map Token.unplaced →
        ((∃ value' last', parseExpression (moved ++ ending.tokens) first = .ok value' last') ↔
          ending.marks.length ≤ taken + 1) ∧
        ∀ lead statement, Introduces lead statement →
          (ending.marks.length = taken + 1 → ∃ value' last',
            parseProgram (lead ++ (moved ++ ending.tokens)) first = .ok [statement value'] last' ∧
              value'.unplaced = value.unplaced) ∧
          ∀ program last',
            parseProgram (lead ++ (moved ++ ending.tokens)) first = .ok program last' →
              ending.marks.length = taken + 1 := by
  obtain ⟨next, isValue⟩ := expression_of_reads plain isMark unmarked read
  obtain ⟨taken, final, moves⟩ := reaches_expression isValue
  have takes (ending : Ending) (moved : List Token)
      (alike : moved.map Token.unplaced = front.map Token.unplaced) :
      ∃ value',
        Expression ⟨moved ++ ending.tokens, first⟩ ⟨(ending.drop taken).tokens, next⟩ value' ∧
          value'.unplaced = value.unplaced := by
    obtain ⟨place, found⟩ := Shift.exists_tokens_eq ending plain isMark alike
    obtain ⟨value', isMoved, same⟩ := moves ⟨place, ending⟩
    have ends : ended [mark] = true := isMark
    simp only [Shift.feed, found, Shift.atEnd _ ends] at isMoved
    exact ⟨value', isMoved, same⟩
  refine ⟨taken, ⟨?_, ?_⟩, fun ending moved alike => ?_⟩
  · rintro rfl
    obtain ⟨value', isMoved, _⟩ := takes (Ending.single isMark) front rfl
    exact not_trailing plain isMark (List.cons_ne_nil _ _) isMoved
  · intro closed
    exact final.resolve_right fun trailing => closed trailing.2
  · obtain ⟨value', isMoved, same⟩ := takes ending moved alike
    refine ⟨lone_reads_iff isMoved, fun lead statement introduces => ⟨fun enough => ?_, ?_⟩⟩
    · obtain ⟨last', read'⟩ := introduces.reads isMoved enough
      exact ⟨value', last', read', same⟩
    · intro program last' read'
      exact introduces.enough isMoved read'

def constantTokens : List Token :=
  [wordToken .fnWord "fn", wordToken .leftParen "(", wordToken .rightParen ")",
    wordToken .arrow "->", { kind := .number 1, lexeme := "1", position := .start }]

def nestedTokens : List Token :=
  [wordToken .fnWord "fn", wordToken .leftParen "(", wordToken .rightParen ")",
    wordToken .arrow "->", wordToken .fnWord "fn", wordToken .leftParen "(",
    wordToken .rightParen ")", wordToken .arrow "->", nameToken "a"]

def declarationTokens : List Token :=
  [wordToken .varWord "var", nameToken "x", wordToken .equal "="]

def semicolons (count : Nat) : Ending where
  marks := List.replicate count (wordToken .semicolon ";")
  finish := endToken
  areMarks := by
    intro mark member
    rw [(List.mem_replicate.mp member).2]
    rfl
  isFinish := rfl

/-- The tokens `fn () -> 1` are an expression, but in `var x = fn () -> 1;` the semicolon belongs to
the function, and the declaration has none. -/
theorem arrow_body_takes_the_semicolon :
    (∃ value last, parseExpression (constantTokens ++ [endToken]) 0 = .ok value last) ∧
      ∃ fault last,
        parseProgram (declarationTokens ++ (constantTokens ++ (semicolons 1).tokens)) 0 =
          .fault fault last ∧
        fault.value.problem = .expected "';' after variable declaration" :=
  ⟨⟨_, _, rfl⟩, _, _, rfl, rfl⟩

/-- The tokens `fn () -> fn () -> a` end with an arrow and an expression, and after `var x =` they
make their tree with three semicolons and no program with one. -/
theorem nested_bodies_need_three_semicolons :
    Trailing (nestedTokens ++ [endToken]) [endToken] ∧
      (∃ value last value' last',
        parseExpression (nestedTokens ++ [endToken]) 0 = .ok value last ∧
          parseProgram (declarationTokens ++ (nestedTokens ++ (semicolons 3).tokens)) 0 =
            .ok [.var (named (nameToken "x")) none (some value')] last' ∧
          value'.unplaced = value.unplaced) ∧
      ∀ program last,
        parseProgram (declarationTokens ++ (nestedTokens ++ (semicolons 1).tokens)) 0 ≠
          .ok program last := by
  have reads : ∃ value last, parseExpression (nestedTokens ++ [endToken]) 0 = .ok value last :=
    ⟨_, _, rfl⟩
  obtain ⟨value, last, read⟩ := reads
  obtain ⟨taken, closed, contexts⟩ :=
    expressions_need_their_semicolons (by decide) rfl (by decide) read
  have atLeast : 3 ≤ taken + 1 := (contexts (semicolons 3) nestedTokens rfl).1.mp ⟨_, _, rfl⟩
  have atMost : ¬4 ≤ taken + 1 := by
    intro more
    obtain ⟨_, _, read'⟩ := (contexts (semicolons 4) nestedTokens rfl).1.mpr more
    cases read'
  have introduces : Introduces declarationTokens _ := .declared rfl rfl rfl
  refine ⟨?_, ?_, ?_⟩
  · by_contra absent
    have none := closed.mpr absent
    omega
  · have enough : 3 = taken + 1 := by omega
    obtain ⟨value', last', made, same⟩ :=
      ((contexts (semicolons 3) nestedTokens rfl).2 _ _ introduces).1 enough
    exact ⟨value, last, value', last', read, made, same⟩
  · intro program last' made
    have enough : 1 = taken + 1 :=
      ((contexts (semicolons 1) nestedTokens rfl).2 _ _ introduces).2 program last' made
    omega

end ClassScript
