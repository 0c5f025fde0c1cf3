import ClassScript.Proofs.Fronts
import ClassScript.Proofs.Numbering
import ClassScript.Proofs.Sentences
import Mathlib.Tactic.Set

/-!
Phrases number their references consistently, by induction on the derivation.
-/

set_option autoImplicit false

namespace ClassScript

theorem eq_ok_of_toBool {ε α : Type} {result : Except ε α} (fallback : α)
    (succeeds : result.toBool = true) : result = .ok (result.toOption.getD fallback) := by
  cases result with
  | error fault => simp [Except.toBool] at succeeds
  | ok value => rfl

theorem Numbered.plain_past {first limit : Nat} {stmt : Stmt}
    (numbered : Numbered first limit fun nesting => stmtSites nesting stmt) (nesting : Nesting)
    (plain : nesting.Plain) : (nesting.past stmt).Plain :=
  plain.past ((numbered nesting plain).proper _ (mem_stmtSites_self nesting stmt)).2

namespace Token

/-- The token is no identifier that is spelt like `this` or `super`. -/
def Worded (token : Token) : Prop :=
  token.isIdentifier = true → PlainName token.lexeme

private theorem wordKind_worded {word : String} (identifier : Lexeme.wordKind word = .identifier) :
    PlainName word := by
  have thisKnown : Lexeme.keywords.lookup "this" = some .thisWord := by decide
  have superKnown : Lexeme.keywords.lookup "super" = some .superWord := by decide
  refine ⟨?_, ?_⟩
  · rintro rfl
    simp [Lexeme.wordKind, thisKnown] at identifier
  · rintro rfl
    simp [Lexeme.wordKind, superKnown] at identifier

private theorem front_worded {first : Char} {rest raw : List Char}
    (found : Lexeme.front first rest = .token .identifier raw) : PlainName (String.ofList raw) := by
  generalize shown : Lexeme.Front.token .identifier raw = piece at found
  cases Lexeme.fronted_of_front found with
  | word _ =>
    obtain ⟨identifier, rfl⟩ := Lexeme.Front.token.inj shown
    exact wordKind_worded identifier.symm
  | _ => cases shown

variable {cursor : Cursor} {token : Token} {source : String} {tokens : List Token}

private theorem step_worded {next : Cursor} (found : cursor.step = .item (.ok token) next) :
    token.Worded := by
  have stepped := found ▸ cursor.stepped
  cases stepped with
  | @token kind raw rest position leads =>
    obtain ⟨first, rest, -, seen⟩ := leads
    intro identifier
    cases kind with
    | identifier => exact front_worded seen
    | _ => simp [isIdentifier] at identifier

private theorem kind_of_finish {mark : Token} (found : cursor.step = .finish mark) :
    mark.kind = .finish := by
  have stepped := found ▸ cursor.stepped
  cases stepped with
  | finish => rfl

private theorem next_worded (found : cursor.next.1 = .ok token) : token.Worded := by
  fun_induction Cursor.next cursor with
  | case1 cursor after step ih => exact ih found
  | case2 cursor item after step =>
    obtain rfl : item = .ok token := found
    exact step_worded step
  | case3 cursor mark step =>
    obtain rfl : mark = token := by simpa using found
    simp [Worded, isIdentifier, kind_of_finish step]

private theorem finish_of_next {item : Item} (found : cursor.next = (item, none)) :
    ∃ mark, item = .ok mark ∧ mark.kind = .finish := by
  fun_induction Cursor.next cursor with
  | case1 cursor after step ih => exact ih found
  | case2 cursor item after step => cases found
  | case3 cursor mark step =>
    cases found
    exact ⟨mark, rfl, kind_of_finish step⟩

private theorem items_worded (member : .ok token ∈ cursor.items) : token.Worded := by
  fun_induction Cursor.items cursor with
  | case1 cursor item next =>
    have found : .ok token = item := List.mem_singleton.mp member
    exact next_worded (by rw [next, found])
  | case2 cursor item after next ih =>
    rcases List.mem_cons.mp member with found | later
    · exact next_worded (by rw [next, found])
    · exact ih later

private theorem exists_finish_mem_items (cursor : Cursor) :
    ∃ mark, .ok mark ∈ cursor.items ∧ mark.kind = .finish := by
  fun_induction Cursor.items cursor with
  | case1 cursor item next =>
    obtain ⟨mark, rfl, isMark⟩ := finish_of_next next
    exact ⟨mark, List.mem_singleton_self _, isMark⟩
  | case2 cursor item after next ih =>
    obtain ⟨mark, member, isMark⟩ := ih
    exact ⟨mark, List.mem_cons_of_mem _ member, isMark⟩

private theorem scan_worded (scanned : scan source = .ok tokens) :
    ∀ token ∈ tokens, token.Worded := by
  intro token member
  have items : scanAll source = tokens.map .ok := eq_map_of_collect scanned
  exact items_worded (items ▸ List.mem_map_of_mem member)

theorem scan_marked (scanned : scan source = .ok tokens) : Parse.Marked tokens := by
  have items : scanAll source = tokens.map .ok := eq_map_of_collect scanned
  obtain ⟨mark, member, isMark⟩ := exists_finish_mem_items (Cursor.start source.toList)
  rw [← scanAll, items] at member
  obtain ⟨token, isToken, same⟩ := List.mem_map.mp member
  obtain rfl := Except.ok.inj same
  exact ⟨token, isToken, by simp [isFinish, isMark]⟩

end Token

namespace Phrase

open Grammar

def Worded (tokens : List Token) : Prop :=
  ∀ token ∈ tokens, token.Worded

section Worded

variable {token : Token} {before after : List Token}

private theorem Worded.tail (worded : Worded (token :: after)) : Worded after :=
  fun other member => worded other (List.mem_cons_of_mem _ member)

private theorem Worded.plain (worded : Worded (token :: after)) (isName : token.isIdentifier) :
    PlainName (named token).name :=
  worded token List.mem_cons_self isName

private theorem Worded.suffix (worded : Worded before) (left : after <:+ before) : Worded after :=
  fun token member => worded token (left.subset member)

variable {found : List Parameter}

private theorem Worded.parameters (worded : Worded before)
    (declared : Parameters before after found) :
    ∀ parameter ∈ found, PlainName parameter.name.name := by
  induction declared with
  | last isName typed => exact List.forall_mem_singleton.mpr (worded.plain isName)
  | more isName typed isComma next ih =>
    exact List.forall_mem_cons.mpr
      ⟨worded.plain isName, ih (worded.tail.suffix typed.left.1).tail⟩

private theorem Worded.parameterList (worded : Worded before)
    (declared : ParameterList before after found) :
    ∀ parameter ∈ found, PlainName parameter.name.name := by
  cases declared with
  | none => simp
  | some parameters few => exact worded.parameters parameters

end Worded

/-- A phrase takes the numbers from `first` on for the references at its sites. -/
structure Counted (first : Nat) (after : Feed) (sites : Nesting → List Site) : Prop where
  worded : Worded after.tokens
  grown : first ≤ after.nextId
  numbered : Numbered first after.nextId sites

namespace Counted

variable {first id : Nat} {middle after : Feed} {tokens : List Token} {token : Token}
  {sites more : Nesting → List Site}

private theorem map (counted : Counted first after sites)
    (numbered : Numbered first after.nextId more) : Counted first after more :=
  ⟨counted.worded, counted.grown, numbered⟩

private theorem pass (counted : Counted first ⟨token :: tokens, id⟩ sites) :
    Counted first ⟨tokens, id⟩ sites :=
  ⟨counted.worded.tail, counted.grown, counted.numbered⟩

private theorem none (worded : Worded tokens) : Counted id ⟨tokens, id⟩ fun _ => [] :=
  ⟨worded, Nat.le_refl _, .nil⟩

private theorem append (counted : Counted first middle sites)
    (next : Counted middle.nextId after more) :
    Counted first after fun nesting => sites nesting ++ more nesting :=
  ⟨next.worded, Nat.le_trans counted.grown next.grown,
    counted.numbered.append next.numbered counted.grown next.grown⟩

private theorem node {node : Node} (counted : Counted first after sites) (proper : node.Proper)
    (idle : ∀ nesting, Site.use? ⟨nesting, node⟩ = Option.none) :
    Counted first after fun nesting => ⟨nesting, node⟩ :: sites nesting :=
  counted.map (counted.numbered.node proper idle)

private theorem tail {node : Node}
    (counted : Counted first after fun nesting => ⟨nesting, node⟩ :: sites nesting) :
    Counted first after sites :=
  counted.map (counted.numbered.of_mem fun _ _ _ member => .inl (List.mem_cons_of_mem _ member))

private theorem single {node : Node} {depth : Nesting → Option Nat} (worded : Worded tokens)
    (proper : node.Proper)
    (use : ∀ nesting, Site.use? ⟨nesting, node⟩ = Option.some (first, depth nesting)) :
    Counted first ⟨tokens, first + 1⟩ fun nesting => [⟨nesting, node⟩] :=
  ⟨worded, Nat.le_succ _, .single proper use⟩

variable {name : Identifier} {value object key : Expr} {position : Position}

private theorem reference (worded : Worded tokens) (plainName : PlainName name.name) :
    Counted first ⟨tokens, first + 1⟩ (exprSites · (.reference first name)) := by
  exact .single worded plainName fun _ => rfl

private theorem moved {move : Nesting → Nesting} (counted : Counted first after sites)
    (plain : ∀ nesting, nesting.Plain → (move nesting).Plain) :
    Counted first after fun nesting => sites (move nesting) :=
  counted.map (counted.numbered.moved plain)

private theorem joined {left right : Expr}
    (counted : Counted first after fun nesting => exprSites nesting left ++ exprSites nesting right)
    (operator : Operator) (position : Position) :
    Counted first after fun nesting => exprSites nesting (joined left position right operator) := by
  cases operator with
  | logical operator | binary operator =>
    exact counted.node trivial fun _ => rfl

private theorem target {target right : Expr} (counted : Counted first middle (exprSites · target))
    (next : Counted middle.nextId after (exprSites · right)) (abbreviated : Option BinaryOp)
    (mark : Token) :
    Counted first after fun nesting =>
      exprSites nesting target ++ exprSites nesting (assigned abbreviated target mark right) := by
  have both := counted.append next
  cases abbreviated with
  | none => exact both
  | some operator =>
    refine both.map (both.numbered.of_mem ?_)
    intro nesting plain site member
    simp only [assigned, exprSites, List.mem_append, List.mem_cons] at member ⊢
    rcases member with old | rfl | old
    · exact .inl (.inl old)
    · exact .inr ⟨⟨plain, trivial⟩, rfl⟩
    · exact .inl old

private theorem assign {target : RefId} (both : Counted first ⟨tokens, id⟩ fun nesting =>
      exprSites nesting (.reference target name) ++ exprSites nesting value) :
    Counted first ⟨tokens, id + 1⟩ (exprSites · (.assign id name value)) := by
  have plainName : PlainName name.name :=
    ((both.numbered .top trivial).proper ⟨.top, .expr (.reference target name)⟩
      (by simp [exprSites])).2
  have made : Counted id ⟨tokens, id + 1⟩ fun nesting =>
      [⟨nesting, .expr (.assign id name value)⟩] :=
    .single both.worded plainName fun _ => rfl
  have all := both.append made
  refine all.map (all.numbered.of_mem ?_)
  intro nesting plain site member
  simp only [exprSites, List.mem_append, List.mem_cons] at member ⊢
  rcases member with rfl | old
  · exact .inl (.inr (.inl rfl))
  · exact .inl (.inl (.inr old))

private theorem setProperty (both : Counted first after fun nesting =>
      exprSites nesting (.property object name) ++ exprSites nesting value) :
    Counted first after (exprSites · (.setProperty object name value)) := by
  exact (tail both).node trivial fun _ => rfl

private theorem setIndex (both : Counted first after fun nesting =>
      exprSites nesting (.index object key position) ++ exprSites nesting value) :
    Counted first after (exprSites · (.setIndex object key value position)) := by
  exact (tail both).node trivial fun _ => rfl

private theorem index (counted : Counted first after fun nesting =>
      exprSites nesting object ++ exprSites nesting key) :
    Counted first after (exprSites · (.index object key position)) := by
  exact counted.node trivial fun _ => rfl

private theorem property (counted : Counted first after (exprSites · object)) :
    Counted first after (exprSites · (.property object name)) := by
  exact counted.node trivial fun _ => rfl

private theorem call {callee : Expr} {arguments : List Expr}
    (counted : Counted first after fun nesting =>
      exprSites nesting callee ++ exprsSites nesting arguments) :
    Counted first after (exprSites · (.call callee position arguments)) := by
  exact counted.node trivial fun _ => rfl

private theorem function {parameters : List Parameter} {returns : Option TypeName}
    {body : List Stmt} (plainNames : ∀ parameter ∈ parameters, PlainName parameter.name.name)
    (counted : Counted first after (stmtsSites · body)) :
    Counted first after (functionSites · { name, parameters, returns, body }) := by
  exact counted.moved fun nesting plain => plain.parameters _ plainNames

private theorem functionDecl {decl : FunctionDecl Stmt} (plainName : PlainName decl.name.name)
    (counted : Counted first after (functionSites · decl)) :
    Counted first after (stmtSites · (.function decl)) := by
  have declared (nesting : Nesting) (plain : nesting.Plain) :=
    (plain.declare plainName).define plainName
  exact (counted.moved declared).node plainName fun _ => rfl

private theorem var {hint : Option TypeName} {initial : Option Expr}
    (counted : Counted first after (optionalSites · initial)) (plainName : PlainName name.name) :
    Counted first after (stmtSites · (.var name hint initial)) := by
  have declared (nesting : Nesting) (plain : nesting.Plain) := plain.declare plainName
  exact (counted.moved declared).node plainName fun _ => rfl

private theorem stmts {stmt : Stmt} {rest : List Stmt}
    (counted : Counted first middle (stmtSites · stmt))
    (next : Counted middle.nextId after (stmtsSites · rest)) :
    Counted first after (stmtsSites · (stmt :: rest)) := by
  exact counted.append (next.moved counted.numbered.plain_past)

private theorem inside {body : Body} (counted : Counted first after sites) :
    Counted first after fun nesting => sites (.inside body ∅ nesting) :=
  counted.moved fun _ plain => ⟨rfl, rfl, plain⟩

private theorem plain_pastOptional {initial : Option Stmt}
    (counted : Counted first after (optionalStmtSites · initial)) (nesting : Nesting)
    (plain : nesting.Plain) : (nesting.pastOptional initial).Plain := by
  cases initial with
  | none => exact plain
  | some stmt =>
    have numbered := counted.numbered
    exact numbered.plain_past nesting plain

private theorem later {initial : Option Stmt} {body : Body}
    (counted : Counted first middle (optionalStmtSites · initial)) (next : Counted id after sites) :
    Counted id after fun nesting => sites ((Nesting.inside body ∅ nesting).pastOptional initial) :=
  next.moved fun _ plain => counted.plain_pastOptional _ ⟨rfl, rfl, plain⟩

end Counted

variable {after before : Feed} {superclass : Option SuperclassRef}

private theorem superclass_counts :
    Superclass before after superclass → before.nextId ≤ after.nextId ∧
      ∀ parent, superclass = some parent →
        after.nextId = before.nextId + 1 ∧ parent.id = before.nextId
  | .none => ⟨Nat.le_refl _, by simp⟩
  | .some isWord isName => ⟨Nat.le_succ _, by simp⟩

structure MembersCounted (first : Nat) (after : Feed) (members : Members) : Prop where
  worded : Worded after.tokens
  grown : first ≤ after.nextId
  tidy : ∀ inFields inMethods : Nesting, inFields.Plain → inMethods.Plain →
    Tidy first after.nextId
      (fieldsSites inFields members.fields ++ methodsSites inMethods members.methods)

private theorem MembersCounted.classDecl {first middle : Nat} {name : Identifier}
    {members : Members} (counted : MembersCounted middle after members)
    (plainName : PlainName name.name)
    (before : first ≤ middle)
    (clause : ∀ parent, superclass = some parent → middle = first + 1 ∧ parent.id = first) :
    Counted first after (stmtSites ·
      (.classDecl ⟨name, superclass, members.fields, members.methods⟩)) := by
  refine ⟨counted.worded, Nat.le_trans before counted.grown, fun nesting plain => ?_⟩
  set decl : ClassDecl Expr Stmt := ⟨name, superclass, members.fields, members.methods⟩ with made
  have declared : (nesting.past (.classDecl decl)).Plain := plain.past plainName
  have inside := counted.tidy (.fields decl (nesting.past (.classDecl decl)))
    (.methods decl (nesting.past (.classDecl decl))) declared declared
  have proper : Site.Proper ⟨nesting, .stmt (.classDecl decl)⟩ := ⟨plain, plainName⟩
  cases superclass with
  | none => exact (Tidy.nil.append inside before counted.grown).cons proper rfl
  | some parent =>
    obtain ⟨rfl, numbered⟩ := clause parent rfl
    have use : Site.use? ⟨nesting, .stmt (.classDecl decl)⟩ =
        some (first, nesting.depth? parent.name.name) := by
      simp only [Site.use?, made, Option.map_some, numbered]
    exact Tidy.append (Tidy.single proper use) inside before counted.grown

/-- What the rule derives from plain names is counted. -/
abbrev Counts {α : Type} (rule : Feed → Feed → α → Prop) (sites : Nesting → α → List Site)
    (before after : Feed) (found : α) : Prop :=
  rule before after found → Worded before.tokens → Counted before.nextId after (sites · found)

mutual

private theorem counted_expression {before after found} :
    Counts Expression exprSites before after found
  | .operation isValue, worded => counted_operation isValue worded
  | .assign isName _ isValue, worded => by
    have right := counted_expression isValue worded.tail.tail
    exact ((Counted.reference worded.tail (worded.plain isName)).target right _ _).assign
  | .setProperty target _ _ _ isValue, worded => by
    have object := counted_call target worded
    have right := counted_expression isValue object.worded.tail.tail.tail
    exact (object.property.target right _ _).setProperty
  | .setIndex target _ isKey _ _ isValue, worded => by
    have object := counted_call target worded
    have key := counted_expression isKey object.worded.tail
    have right := counted_expression isValue key.worded.tail.tail
    exact ((object.append key).index.target right _ _).setIndex

private theorem counted_operation {level before after found} :
    Counts (Operation level) exprSites before after found
  | .operand isValue, worded => counted_operand isValue worded
  | .tighter _ isValue, worded => counted_operation isValue worded
  | .join _ first _ second, worded => by
    have left := counted_operation first worded
    have right := counted_operation second left.worded.tail
    exact (left.append right).joined _ _

private theorem counted_operand {before after found} : Counts Operand exprSites before after found
  | .unary _ isOperand, worded => (counted_operand isOperand worded.tail).node trivial fun _ => rfl
  | .call isValue, worded => counted_call isValue worded

private theorem counted_call {before after found} : Counts Call exprSites before after found
  | .primary isValue, worded => counted_primary isValue worded
  | .call target _ _, worded => by
    have callee := counted_call target worded
    refine Counted.call ?_
    simpa only [exprsSites, List.append_nil] using callee.pass.pass
  | .callWith target _ areValues _ _, worded => by
    have callee := counted_call target worded
    have arguments := counted_commas areValues callee.worded.tail
    exact (callee.append arguments.pass).call
  | .property target _ _, worded => (counted_call target worded).pass.pass.property
  | .index target _ isKey _, worded => by
    have object := counted_call target worded
    have key := counted_expression isKey object.worded.tail
    exact (object.append key.pass).index

private theorem counted_commas {before after found} : Counts Commas exprsSites before after found
  | .last only, worded => by
    simpa only [exprsSites, List.append_nil] using counted_expression only worded
  | .more first _ next, worded => by
    have value := counted_expression first worded
    have others := counted_commas next value.worded.tail
    simpa only [exprsSites] using value.append others

private theorem counted_primary {before after found} : Counts Primary exprSites before after found
  | .literal _, worded => (Counted.none worded.tail).node trivial fun _ => rfl
  | .reference isName, worded => .reference worded.tail (worded.plain isName)
  | .this _, worded => .single worded.tail trivial fun _ => rfl
  | .super _ _ _, worded => .single worded.tail.tail.tail trivial fun _ => rfl
  | .group _ isValue _, worded =>
    (counted_expression isValue worded.tail).pass.node trivial fun _ => rfl
  | .array _ areValues _, worded =>
    (counted_elements areValues worded.tail).pass.node trivial fun _ => rfl
  | .map _ arePairs _, worded =>
    (counted_entries arePairs worded.tail).pass.node trivial fun _ => rfl
  | .lambda _ _ isRest, worded =>
    (counted_functionRest isRest worded.tail.tail).2.node trivial fun _ => rfl

private theorem counted_elements {before after found} :
    Counts Elements exprsSites before after found
  | .none, worded => by simpa only [exprsSites] using Counted.none worded
  | .last only, worded => by
    simpa only [exprsSites, List.append_nil] using counted_expression only worded
  | .more first _ next, worded => by
    have value := counted_expression first worded
    have others := counted_elements next value.worded.tail
    simpa only [exprsSites] using value.append others

private theorem counted_entries {before after found} :
    Counts Entries entriesSites before after found
  | .none, worded => by simpa only [entriesSites] using Counted.none worded
  | .last isKey _ isValue, worded => by
    have key := counted_expression isKey worded
    have value := counted_expression isValue key.worded.tail
    simpa only [entriesSites, List.append_nil] using key.append value
  | .more isKey _ isValue _ next, worded => by
    have key := counted_expression isKey worded
    have value := counted_expression isValue key.worded.tail
    have others := counted_entries next value.worded.tail
    simpa only [entriesSites] using (key.append value).append others

private theorem counted_functionRest {name : Identifier} {before after : Feed}
    {decl : FunctionDecl Stmt} : FunctionRest name before after decl → Worded before.tokens →
      decl.name = name ∧ Counted before.nextId after (functionSites · decl)
  | .rest declared _ isBody, worded =>
    ⟨rfl, .function (worded.parameterList declared)
      (counted_body isBody (worded.suffix declared.left.1).tail)⟩

private theorem counted_body {before after : Feed} {body : Option TypeName × List Stmt} :
    FunctionBody before after body → Worded before.tokens →
      Counted before.nextId after (stmtsSites · body.2)
  | .block _ isBody, worded => by
    have body := counted_block isBody worded.tail
    exact body
  | .annotated _ isType _ isBody, worded => by
    have body := counted_block isBody (worded.tail.suffix isType.left.1).tail
    exact body
  | .expression _ _ isValue _, worded => by
    simp only [stmtsSites, stmtSites, optionalSites, List.append_nil]
    exact (counted_expression isValue worded.tail).node trivial fun _ => rfl
  | .terminated _ _ isValue _, worded => by
    simp only [stmtsSites, stmtSites, optionalSites, List.append_nil]
    exact (counted_expression isValue worded.tail).pass.node trivial fun _ => rfl

private theorem counted_block {before after found} : Counts Block stmtsSites before after found
  | .none _, worded => by
    simpa only [stmtsSites] using Counted.none worded.tail
  | .more first next, worded => by
    have stmt := counted_declaration first worded
    exact stmt.stmts (counted_block next stmt.worded)

private theorem counted_declaration {before after found} :
    Counts Declaration stmtSites before after found
  | .classDecl _ isName clause _ isBody, worded => by
    obtain ⟨grown, counts⟩ := superclass_counts clause
    have members := counted_memberList isBody (worded.tail.tail.suffix clause.left.1).tail
    exact members.classDecl (worded.tail.plain isName) grown counts
  | .function _ isName _ isRest, worded => by
    obtain ⟨same, counted⟩ := counted_functionRest isRest worded.tail.tail.tail
    exact .functionDecl (same ▸ worded.tail.plain isName) counted
  | .var _ declared, worded => by
    obtain ⟨plainName, counted⟩ := counted_variable declared worded.tail
    exact counted.var plainName
  | .statement isStmt, worded => (counted_statement isStmt worded).2

private theorem counted_variable {before after : Feed} {name : Identifier} {hint : Option TypeName}
    {initial : Option Expr} :
    Variable before after name hint initial → Worded before.tokens →
      PlainName name.name ∧ Counted before.nextId after (optionalSites · initial)
  | .declared isName typed isInitial _, worded =>
    ⟨worded.plain isName, (counted_initial isInitial (worded.tail.suffix typed.left.1)).pass⟩

private theorem counted_initial {before after found} :
    Counts Initial optionalSites before after found
  | .none, worded => by simpa only [optionalSites] using Counted.none worded
  | .some _ isValue, worded => by
    simpa only [optionalSites] using counted_expression isValue worded.tail

private theorem counted_memberList {before after : Feed} {members : Members} :
    MemberList before after members → Worded before.tokens →
      MembersCounted before.nextId after members
  | .none _, worded => by
    refine ⟨worded.tail, Nat.le_refl _, fun _ _ _ _ => ?_⟩
    simpa only [fieldsSites, methodsSites, List.append_nil] using Tidy.nil
  | .field modifiers _ declared next, worded => by
    obtain ⟨-, field⟩ := counted_variable declared (worded.suffix modifiers.left.1).tail
    have others := counted_memberList next field.worded
    refine ⟨others.worded, Nat.le_trans field.grown others.grown, ?_⟩
    intro inFields inMethods plain plain'
    simp only [fieldsSites, List.append_assoc]
    exact (field.numbered inFields plain).append (others.tidy inFields inMethods plain plain')
      field.grown others.grown
  | .method modifiers _ _ _ isRest next, worded => by
    obtain ⟨-, method⟩ :=
      counted_functionRest isRest (worded.suffix modifiers.left.1).tail.tail.tail
    have others := counted_memberList next method.worded
    refine ⟨others.worded, Nat.le_trans method.grown others.grown, ?_⟩
    intro inFields inMethods plain plain'
    have both := (method.numbered inMethods plain').append
      (others.tidy inFields inMethods plain plain') method.grown others.grown
    refine both.of_mem fun site member => .inl ?_
    simp only [methodsSites, List.mem_append] at member ⊢
    tauto

private theorem counted_statement {before after : Feed} {stmt : Stmt} :
    Statement before after stmt → Worded before.tokens →
      stmt.DeclaresNothing ∧ Counted before.nextId after (stmtSites · stmt)
  | .countedLoop _ _ isInitial isCondition _ isIncrement _ isBody, worded => by
    obtain ⟨begins, initial⟩ := counted_loopInitial isInitial worded.tail.tail
    have condition := counted_optional isCondition initial.worded
    have increment := counted_optional isIncrement condition.worded.tail
    obtain ⟨idle, body⟩ := counted_statement isBody increment.worded.tail
    refine ⟨rfl, ?_⟩
    exact (((initial.inside.append (initial.later condition)).append
      (initial.later increment)).append (initial.later body)).node ⟨idle, begins⟩ fun _ => rfl
  | .branch _ _ isCondition _ whenTrue _, worded => by
    have condition := counted_expression isCondition worded.tail.tail
    obtain ⟨idle, stmt⟩ := counted_statement whenTrue condition.worded.tail
    refine ⟨rfl, ?_⟩
    simp only [stmtSites, optionalStmtSites, List.append_nil]
    exact (condition.append stmt).node ⟨idle, by simp⟩ fun _ => rfl
  | .branches _ _ isCondition _ whenTrue _ whenFalse, worded => by
    have condition := counted_expression isCondition worded.tail.tail
    obtain ⟨idle, stmt⟩ := counted_statement whenTrue condition.worded.tail
    obtain ⟨idle', other⟩ := counted_statement whenFalse stmt.worded.tail
    refine ⟨rfl, ?_⟩
    refine ((condition.append stmt).append other).node ⟨idle, ?_⟩ fun _ => rfl
    intro _ same
    exact Option.some.inj same ▸ idle'
  | .loop _ _ isCondition _ isBody, worded => by
    have condition := counted_expression isCondition worded.tail.tail
    obtain ⟨idle, body⟩ := counted_statement isBody condition.worded.tail
    refine ⟨rfl, ?_⟩
    exact (condition.append body).node idle fun _ => rfl
  | .returnValue _ isValue _, worded => by
    refine ⟨rfl, ?_⟩
    exact (counted_optional isValue worded.tail).pass.node trivial fun _ => rfl
  | .breakLoop _ _, worded | .continueLoop _ _, worded => by
    refine ⟨rfl, ?_⟩
    exact (Counted.none worded.tail.tail).node trivial fun _ => rfl
  | .block _ isBody, worded => by
    refine ⟨rfl, ?_⟩
    exact (counted_block isBody worded.tail).inside.node trivial fun _ => rfl
  | .print _ areValues _, worded => by
    refine ⟨rfl, ?_⟩
    exact (counted_commas areValues worded.tail).pass.node trivial fun _ => rfl
  | .expression _ isValue _, worded => by
    refine ⟨rfl, ?_⟩
    exact (counted_expression isValue worded).pass.node trivial fun _ => rfl

private theorem counted_optional {before after found} :
    Counts Optional optionalSites before after found
  | .none, worded => by simpa only [optionalSites] using Counted.none worded
  | .some isValue, worded => by
    simpa only [optionalSites] using counted_expression isValue worded

private theorem counted_loopInitial {before after : Feed} {initial : Option Stmt} :
    LoopInitial before after initial → Worded before.tokens →
      (∀ stmt, initial = some stmt → stmt.BeginsLoop) ∧
        Counted before.nextId after (optionalStmtSites · initial)
  | .none _, worded => by
    refine ⟨by simp, ?_⟩
    simpa only [optionalStmtSites] using Counted.none worded.tail
  | .var _ declared, worded => by
    obtain ⟨plainName, counted⟩ := counted_variable declared worded.tail
    refine ⟨by simp [Stmt.BeginsLoop], ?_⟩
    simpa only [optionalStmtSites] using counted.var plainName
  | .expression isValue _, worded => by
    refine ⟨by simp [Stmt.BeginsLoop], ?_⟩
    exact (counted_expression isValue worded).pass.node trivial fun _ => rfl

end

private theorem counted_declarations {program : List Stmt}
    (derived : Declarations before after program) (worded : Worded before.tokens) :
    Counted before.nextId after (stmtsSites · program) := by
  induction derived with
  | none atEnd => simpa only [stmtsSites] using Counted.none worded
  | more first next ih =>
    have stmt := counted_declaration first worded
    exact stmt.stmts (ih stmt.worded)

private theorem counted_lone {value : Expr} (derived : Lone before after value)
    (worded : Worded before.tokens) : Counted before.nextId after (exprSites · value) := by
  cases derived with
  | plain isValue atEnd => exact counted_expression isValue worded
  | terminated isValue isMark atEnd => exact (counted_expression isValue worded).pass

end Phrase

variable {after session : Session} {source : String}

theorem Session.tidy_of_readProgram {program : List Stmt}
    (read : session.readProgram source = .ok (program, after)) :
    ∃ limit, after = { session with nextId := limit } ∧ session.nextId ≤ limit ∧
      Tidy session.nextId limit (stmtsSites .top program) := by
  unfold Session.readProgram at read
  split at read
  · simp at read
  rename_i tokens scanned
  split at read
  · simp at read
  rename_i found state result
  obtain ⟨rfl, rfl⟩ := read
  obtain ⟨derived, -⟩ := (Grammar.parseProgram_iff (Token.scan_marked scanned)).mp
    ⟨state, result, rfl⟩
  have counted := Phrase.counted_declarations derived (Token.scan_worded scanned)
  exact ⟨state.nextId, rfl, counted.grown, counted.numbered .top trivial⟩

theorem Session.tidy_of_readExpression {expr : Expr}
    (read : session.readExpression source = .ok (expr, after)) :
    ∃ limit, after = { session with nextId := limit } ∧ session.nextId ≤ limit ∧
      Tidy session.nextId limit (exprSites .top expr) := by
  unfold Session.readExpression at read
  split at read
  · simp at read
  rename_i tokens scanned
  split at read
  · simp at read
  rename_i found state result
  obtain ⟨rfl, rfl⟩ := read
  obtain ⟨derived, -⟩ := (Grammar.parseExpression_iff (Token.scan_marked scanned)).mp
    ⟨state, result, rfl⟩
  have counted := Phrase.counted_lone derived (Token.scan_worded scanned)
  exact ⟨state.nextId, rfl, counted.grown, counted.numbered .top trivial⟩

end ClassScript
