import ClassScript.Proofs.ReaderCompleteness

/-!
Programs and single expressions are read exactly as the grammar derives them, since the bound on
nesting is never reached.
-/

set_option autoImplicit false

namespace ClassScript

open Parse Phrase

namespace Grammar

variable {tokens : List Token} {after : Feed} {first : RefId} {value : Expr}

theorem feed_ofTokens (more : tokens ≠ []) (first : RefId) :
    (State.ofTokens tokens first).feed = ⟨tokens, first⟩ := by
  cases tokens with
  | nil => contradiction
  | cons token rest => rfl

/-- A reader with a bound that is not reached replies with what its rule derives. -/
private theorem reply_iff {α : Type} {rule : Feed → Feed → α → Prop} {reader : Parse α} {rank : Nat}
    {value : α} (finds : Finds (depthBound tokens.length) rank reader rule) (low : rank ≤ 32)
    (gives : rule ⟨tokens, first⟩ after value → Marked after.tokens →
      Gives reader ⟨tokens, first⟩ value after) (marked : Marked tokens) :
    (∃ last, reader (.ofTokens tokens first) = .ok value last ∧ last.feed = after) ↔
      rule ⟨tokens, first⟩ after value ∧ Marked after.tokens := by
  have ahead := feed_ofTokens marked.ne_nil first
  have found := finds _ ⟨tokens, first⟩ marked _ rfl ahead
  constructor
  · rintro ⟨last, replies, rfl⟩
    rw [replies] at found
    exact found
  · rintro ⟨derived, final⟩
    have given := gives derived final _ _ rfl ahead
    cases replies : reader (.ofTokens tokens first) with
    | ok found last =>
      rw [replies] at given
      exact ⟨last, by rw [given.1], given.2⟩
    | fault fault last =>
      -- The only problem left is a lack of depth, and the bound is too great for that.
      rw [replies] at found given
      have spent := found given
      simp only [depthBound] at spent
      omega

theorem parseProgram_iff {program : List Stmt} (marked : Marked tokens) :
    (∃ last, parseProgram tokens first = .ok program last ∧ last.feed = after) ↔
      Declarations ⟨tokens, first⟩ after program ∧ Marked after.tokens := by
  refine (reply_iff (finds_declarations _) (by decide) ?_ marked).trans (and_congr_left fun _ => ?_)
  · intro derived final
    exact gives_declarations derived.1 final _
  · exact ⟨fun derived => derived.1, fun derived => ⟨derived, (left_declarations derived).2⟩⟩

theorem expression_iff (marked : Marked tokens) :
    (∃ last, expression (depthBound tokens.length) (.ofTokens tokens first) = .ok value last ∧
      last.feed = after) ↔
      (Expression ⟨tokens, first⟩ after value ∧ Avoids Continues after.tokens) ∧
        Marked after.tokens := by
  refine reply_iff (finds_expression _) (by decide) ?_ marked
  intro derived final
  exact gives_expression derived.1 derived.2 final _

/-- Two expressions that begin at the same token and end where neither goes on are the same. -/
theorem expression_unique {after' : Feed} {value' : Expr}
    (isValue : Expression ⟨tokens, first⟩ after value)
    (isValue' : Expression ⟨tokens, first⟩ after' value') (final : Avoids Continues after.tokens)
    (final' : Avoids Continues after'.tokens) (marked : Marked after.tokens)
    (marked' : Marked after'.tokens) : value = value' ∧ after = after' := by
  have all := marked.before isValue.left.1
  obtain ⟨last, read, left⟩ := (expression_iff all).mpr ⟨⟨isValue, final⟩, marked⟩
  obtain ⟨last', read', left'⟩ := (expression_iff all).mpr ⟨⟨isValue', final'⟩, marked'⟩
  obtain ⟨rfl, rfl⟩ := Reply.ok.inj (read.symm.trans read')
  exact ⟨rfl, left.symm.trans left'⟩

/-- `expression ";"?` up to the end mark -/
inductive Lone : Feed → Feed → Expr → Prop where
  | plain {before after : Feed} {value : Expr} (isValue : Expression before after value)
    (atEnd : ended after.tokens) : Lone before after value
  | terminated {before : Feed} {mark : Token} {after : List Token} {id : RefId} {value : Expr}
    (isValue : Expression before ⟨mark :: after, id⟩ value) (isMark : mark.isTerminal .semicolon)
    (atEnd : ended after) : Lone before ⟨after, id⟩ value

private theorem finds_loneExpression (depth : Nat) :
    Finds depth 10 (loneExpression depth) Lone := by
  rintro last ⟨tokens, id⟩ marked
  refine .andThen (finds_expression depth _ _ marked) ?_
  rintro value last ⟨rest, id'⟩ ⟨⟨isValue, final⟩, marked⟩
  refine .accept marked ?_ fun absent => .atEnd ?_
  · rintro mark after rfl isMark marked
    refine .atEnd ?_
    split
    next atEnd => exact .pure ⟨.terminated isValue isMark atEnd, marked⟩
    · exact .fail nofun
  · split
    next atEnd => exact .pure ⟨.plain isValue atEnd, marked⟩
    · exact .fail nofun

theorem avoids_of_ended {refused : Terminal → Prop} (atEnd : ended tokens = true) :
    Avoids refused tokens := by
  cases tokens with
  | nil => trivial
  | cons token rest =>
    intro which isWhich
    simp [ended, Token.isFinish, isWhich] at atEnd

private theorem gives_loneExpression {before : Feed} (derived : Lone before after value)
    (marked : Marked after.tokens) (depth : Nat) :
    Gives (loneExpression depth) before value after := by
  intro last
  cases derived with
  | plain isValue atEnd =>
    refine (gives_expression isValue (avoids_of_ended atEnd) marked depth).andThen fun last => ?_
    refine .accept_absent (avoids_eq_iff.mp (avoids_of_ended atEnd)) ?_
    refine .atEnd ?_
    rw [if_pos atEnd]
    exact .pure ⟨rfl, rfl⟩
  | terminated isValue isMark atEnd =>
    refine (gives_expression isValue (.of_isTerminal isMark (by decide)) marked.cons
      depth).andThen fun last => ?_
    refine .accept_found isMark marked.ne_nil ?_
    refine .atEnd ?_
    rw [if_pos atEnd]
    exact .pure ⟨rfl, rfl⟩

theorem parseExpression_iff (marked : Marked tokens) :
    (∃ last, parseExpression tokens first = .ok value last ∧ last.feed = after) ↔
      Lone ⟨tokens, first⟩ after value ∧ Marked after.tokens := by
  refine reply_iff (finds_loneExpression _) (by decide) ?_ marked
  intro derived final
  exact gives_loneExpression derived final _

end Grammar

theorem eq_mark_of_ended {front after : List Token} {mark : Token}
    (plain : ∀ token ∈ front, token.isFinish = false) (left : after <:+ front ++ [mark])
    (more : after ≠ []) (atEnd : ended after = true) : after = [mark] := by
  obtain rfl | ⟨rest, rfl, within⟩ := List.suffix_concat_iff.mp left
  · contradiction
  · cases rest with
    | nil => rfl
    | cons token rest =>
      have member : token ∈ front := within.subset List.mem_cons_self
      simp [ended, plain token member] at atEnd

/-- Programs are read exactly as the grammar derives them. In front of the end mark, the reader
replies with a program exactly if the tokens before the mark, all of them and each used once in its
place, are derived as that program, with the references numbered as they are derived. -/
theorem programs_are_derived {front : List Token} {mark : Token}
    (plain : ∀ token ∈ front, token.isFinish = false) (isMark : mark.isFinish)
    (first next : RefId) (program : List Stmt) :
    (∃ last, parseProgram (front ++ [mark]) first = .ok program last ∧ last.nextId = next) ↔
      Declarations ⟨front ++ [mark], first⟩ ⟨[mark], next⟩ program := by
  have single : Marked [mark] := ⟨mark, List.mem_singleton_self _, isMark⟩
  have marked : Marked (front ++ [mark]) := single.before (List.suffix_append _ _)
  constructor
  · rintro ⟨last, replies, rfl⟩
    obtain ⟨derived, final⟩ := (Grammar.parseProgram_iff marked).mp ⟨last, replies, rfl⟩
    obtain ⟨left, atEnd⟩ := Grammar.left_declarations derived
    have all : last.feed.tokens = [mark] := eq_mark_of_ended plain left final.ne_nil atEnd
    have whole : last.feed = ⟨[mark], last.nextId⟩ := by rw [← all]; rfl
    rwa [whole] at derived
  · intro derived
    obtain ⟨last, replies, left⟩ := (Grammar.parseProgram_iff marked).mpr ⟨derived, single⟩
    exact ⟨last, replies, congrArg Feed.nextId left⟩

def nameToken (name : String) : Token :=
  { kind := .identifier, lexeme := name, position := .start }

def wordToken (which : Terminal) (lexeme : String) : Token :=
  { kind := .terminal which, lexeme, position := .start }

def endToken : Token :=
  { kind := .finish, lexeme := "", position := .start }

def referenceTo (id : RefId) (name : String) : Expr :=
  .reference id { name, position := .start }

/-- The tokens `a -= b - c - d;` are derived as an assignment of a difference, in which operators
associate to the left. -/
theorem difference_is_derived :
    Declarations
      ⟨[nameToken "a", wordToken .minusEqual "-=", nameToken "b", wordToken .minus "-",
        nameToken "c", wordToken .minus "-", nameToken "d", wordToken .semicolon ";"] ++
        [endToken], 7⟩
      ⟨[endToken], 12⟩
      [.expression (.assign 11 { name := "a", position := .start }
        (.binary (referenceTo 7 "a") .subtract
          (.binary (.binary (referenceTo 8 "b") .subtract (referenceTo 9 "c") .start) .subtract
            (referenceTo 10 "d") .start) .start))] :=
  (programs_are_derived (by decide) rfl 7 12 _).mp ⟨_, rfl, rfl⟩

end ClassScript
