import ClassScript.Proofs.Chronicle

/-!
What code inside a scope does to the scopes around it: they keep their names, and unless a variable
is assigned every name keeps its value. The registers are left as they were.
-/

set_option autoImplicit false

namespace ClassScript

namespace Run

open Traced

def Moment.assigns (moment : Moment) : Bool :=
  match moment.node, moment.phase with
  | .expr (.assign _ _ _), .acts _ => true
  | _, _ => false

def Notes.assignments (notes : Notes) : Nat :=
  notes.moments.countP Moment.assigns

theorem Notes.Adds.assignments_le {fits : Moment → Prop} {notes notes' : Notes}
    (adds : Notes.Adds fits notes notes') : notes.assignments ≤ notes'.assignments := by
  obtain ⟨added, moments, -⟩ := adds
  rw [Notes.assignments, Notes.assignments, moments, List.countP_append]
  exact Nat.le_add_left _ _

/-- The scopes below a limit hold the same names as before, and if all was calm the same values. -/
structure SameBelow (limit : Nat) (calm : Prop) (store store' : Store) : Prop where
  size : limit ≤ store'.scopes.size
  names : ∀ (ref : Nat) name, ref < limit →
    (store'.getHere? ref name).isSome = (store.getHere? ref name).isSome
  values : calm → ∀ (ref : Nat) name, ref < limit →
    store'.getHere? ref name = store.getHere? ref name

namespace SameBelow

variable {limit : Nat} {calm calm' both : Prop} {store store' store'' : Store}

private theorem of_values (size : limit ≤ store'.scopes.size)
    (values : ∀ (ref : Nat) name, ref < limit →
      store'.getHere? ref name = store.getHere? ref name) : SameBelow limit calm store store' :=
  ⟨size, fun ref name below => by rw [values ref name below], fun _ => values⟩

private theorem refl (size : limit ≤ store.scopes.size) : SameBelow limit calm store store :=
  of_values size fun _ _ _ => rfl

private theorem trans (same : SameBelow limit calm store store')
    (same' : SameBelow limit calm' store' store'') (split : both → calm ∧ calm') :
    SameBelow limit both store store'' where
  size := same'.size
  names ref name below := (same'.names ref name below).trans (same.names ref name below)
  values isCalm ref name below := by
    obtain ⟨first, second⟩ := split isCalm
    exact (same'.values second ref name below).trans (same.values first ref name below)

private theorem of_extension (size : limit ≤ store.scopes.size)
    (keeps : store.scopes.toList <+: store'.scopes.toList) : SameBelow limit calm store store' := by
  refine of_values (Nat.le_trans size keeps.length_le) fun ref name below => ?_
  have kept : store'.scopes[ref]? = store.scopes[ref]? := by
    have inside := Nat.lt_of_lt_of_le below size
    rw [← Array.getElem?_toList, ← Array.getElem?_toList]
    obtain ⟨more, whole⟩ := keeps
    rw [← whole, List.getElem?_append_left inside]
  rw [Store.getHere?, Store.getHere?, kept]

private theorem define {ref : ScopeRef} (size : limit ≤ store.scopes.size) (new : limit ≤ ref)
    (name : String) (value : Value) : SameBelow limit calm store (store.define ref name value) := by
  refine of_values ?_ fun other key below => ?_
  · simpa [Store.define] using size
  · rw [getHere?_define, if_neg]
    rintro ⟨rfl, -⟩
    omega

private theorem assign {ref : ScopeRef} {name : String} (size : limit ≤ store.scopes.size)
    (held : (store.getHere? ref name).isSome) (value : Value) :
    SameBelow limit False store (store.define ref name value) := by
  refine ⟨?_, fun other key below => ?_, False.elim⟩
  · simpa [Store.define] using size
  · rw [getHere?_define]
    split
    · next same =>
      obtain ⟨rfl, rfl, -⟩ := same
      exact held.symm
    · rfl

end SameBelow

private theorem sameBelow_writeVariable (rules : Rules) (id : RefId) (name : Identifier)
    (value : Value) {limit : Nat} {machine after : Machine}
    (size : limit ≤ machine.store.scopes.size)
    (ends : (writeVariable rules id name value machine).machine? = some after) :
    after.frame = machine.frame ∧ SameBelow limit False machine.store after.store := by
  revert ends
  simp only [writeVariable, Store.assignHere?, bind, Eval.frame, Eval.inspect]
  cases rules.depths.find? id
  all_goals
    simp only
    generalize found : Store.assignAt? machine.store _ _ name.name value = written
    cases written with
    | none =>
      rintro ⟨⟩
      exact ⟨rfl, .refl size⟩
    | some store =>
      obtain ⟨target, held, rfl⟩ := exists_define_of_assignAt? found
      rintro ⟨⟩
      exact ⟨rfl, .assign size held value⟩

/-- What an evaluation has noted, and done to the scopes below a limit. -/
structure Spared {α : Type} (limit bound : Nat) (notes : Notes) (machine : Machine)
    (result : Notes × Outcome α) : Prop where
  adds : Notes.Adds (fun moment => moment.machine.frame.depth ≤ bound) notes result.1
  same : ∀ after, result.2.machine? = some after → after.frame = machine.frame ∧
    SameBelow limit (result.1.assignments = notes.assignments) machine.store after.store

/-- An evaluation spares the scopes below a limit if it declares nothing where it stands, or stands
beyond the limit. No new moment stands in more calls than the bound allows. -/
def Spares {α : Type} (limit bound : Nat) (idle : Prop) (body : Traced α) : Prop :=
  ∀ notes machine, limit ≤ machine.store.scopes.size → machine.frame.depth ≤ bound →
    idle ∨ limit ≤ machine.frame.scope → Spared limit bound notes machine (body notes machine)

namespace Spares

variable {α β : Type} {limit bound : Nat} {idle idle' : Prop} {body : Traced α}
  {next : α → Traced β}

theorem of_brief (brief : Brief True body) : Spares limit bound idle body := by
  intro notes machine size _ _
  obtain ⟨moments, last, ends, frame, scopes, -⟩ := brief notes machine
  refine ⟨.of_eq moments, fun after ends' => ?_⟩
  obtain rfl := Option.some.inj (ends.symm.trans ends')
  exact ⟨frame, .of_extension size (scopes trivial)⟩

theorem goes_on {notes notes' : Notes} {machine middle : Machine} {result : Notes × Outcome β}
    (adds : Notes.Adds (fun moment => moment.machine.frame.depth ≤ bound) notes notes')
    (frame : middle.frame = machine.frame)
    (same : SameBelow limit (notes'.assignments = notes.assignments) machine.store middle.store)
    (spared : Spared limit bound notes' middle result) :
    Spared limit bound notes machine result := by
  have more := adds.assignments_le
  have further := spared.adds.assignments_le
  refine ⟨adds.trans spared.adds, fun after ends => ?_⟩
  obtain ⟨frame', same'⟩ := spared.same after ends
  exact ⟨frame'.trans frame, same.trans same' fun none => by omega⟩

theorem bind (first : Spares limit bound idle body)
    (rest : ∀ value, Spares limit bound idle (next value)) :
    Spares limit bound idle (body >>= next) := by
  intro notes machine size inBound stands
  obtain ⟨adds, same⟩ := first notes machine size inBound stands
  simp only [Bind.bind]
  generalize body notes machine = result at adds same ⊢
  obtain ⟨notes', outcome⟩ := result
  cases outcome with
  | done value middle =>
    obtain ⟨frame, kept⟩ := same middle rfl
    exact goes_on adds frame kept
      (rest value notes' middle kept.size (frame ▸ inBound) (frame ▸ stands))
  | stopped reason middle => exact ⟨adds, same⟩
  | exhausted => exact ⟨adds, same⟩

theorem within {frame : Frame} (inBound : frame.depth ≤ bound)
    (inside : Spares limit bound idle body)
    (stands : idle ∨ limit ≤ frame.scope) :
    Spares limit bound idle' (Traced.within frame body) := by
  intro notes machine size _ _
  obtain ⟨adds, same⟩ := inside notes { machine with frame } size inBound stands
  unfold Traced.within
  generalize body notes { machine with frame } = result at adds same ⊢
  obtain ⟨notes', outcome⟩ := result
  cases outcome with
  | done value after => exact ⟨adds, by rintro _ ⟨⟩; exact ⟨rfl, (same after rfl).2⟩⟩
  | stopped reason after => exact ⟨adds, by rintro _ ⟨⟩; exact ⟨rfl, (same after rfl).2⟩⟩
  | exhausted => exact ⟨adds, by rintro _ ⟨⟩⟩

theorem addScope {scope : Scope} {next : ScopeRef → Traced β}
    (rest : ∀ ref, limit ≤ ref → Spares limit bound idle (next ref)) :
    Spares limit bound idle (lift (Eval.add fun store => store.addScope scope) >>= next) := by
  intro notes machine size inBound stands
  have same : SameBelow limit (notes.assignments = notes.assignments) machine.store
      (machine.store.addScope scope).2 := .of_extension size (by simp [Store.addScope])
  have spared := rest _ size notes { machine with store := (machine.store.addScope scope).2 }
    same.size inBound stands
  exact goes_on (.of_eq rfl) (by rfl) same spared

theorem define (name : String) (value : Value) :
    Spares limit bound False (lift (Eval.define name value)) := by
  intro notes machine size _ stands
  refine ⟨.of_eq rfl, ?_⟩
  rintro after ⟨⟩
  exact ⟨rfl, .define size (stands.resolve_left id) name value⟩

theorem assign (rules : Rules) (pending : Nat) (spot : Spot) (id : RefId) (name : Identifier)
    (expr : Expr) (value : Value) :
    Spares limit bound idle (do
      Traced.mark pending spot (.expr (.assign id name expr)) (.acts [value])
      lift (writeVariable rules id name value)
      Pure.pure value) := by
  intro notes machine size inBound _
  have written (after : Machine)
      (ends : (writeVariable rules id name value machine).machine? = some after) :=
    sameBelow_writeVariable rules id name value size ends
  simp only [Bind.bind, Traced.mark, lift]
  generalize writeVariable rules id name value machine = outcome at written ⊢
  -- The assignment has been noted, so that nothing is claimed of the values.
  cases outcome <;> refine ⟨.cons inBound, fun after ends => ?_⟩
  all_goals
    obtain ⟨frame, same⟩ := written after ends
    exact ⟨frame, same.size, same.names, fun calm =>
      absurd ((List.countP_cons_of_pos rfl).symm.trans calm) (Nat.succ_ne_self _)⟩

theorem emit (line : String) : Spares limit bound idle (lift (Eval.emit line)) := by
  intro notes machine size _ _
  obtain ⟨sink, ends⟩ := machine?_emit line machine
  refine ⟨.of_eq rfl, fun after ends' => ?_⟩
  obtain rfl := Option.some.inj (ends.symm.trans ends')
  exact ⟨rfl, .refl size⟩

end Spares

def sparing {rules : Rules} (limit : Nat) {bound : Nat} (roomy : rules.maxDepth ≤ bound) :
    Discipline rules rules.maxDepth where
  Holds idle traced _ := Spares limit bound idle traced
  Open ref := limit ≤ ref
  Stands depth := depth ≤ bound
  Near _ many few := many = few
  allows := rules.allows_own
  deeper _ less := Nat.le_trans less roomy
  near := @near_of_eq
  mono spares implies notes machine size inBound stands :=
    spares notes machine size inBound (stands.imp_left implies)
  brief brief _ := .of_brief brief
  exhaust same ends lacks _ _ _ _ _ _ := by
    rw [lacks (ends.elim id same.trans)]
    exact ⟨.of_eq rfl, by rintro after ⟨⟩⟩
  bind := .bind
  note only rest notes machine size inBound stands := by
    obtain ⟨notes', value, result, moments⟩ := only notes machine
    simp only [Bind.bind, result]
    exact Spares.goes_on (.of_eq moments) rfl (.refl size)
      (rest value notes' machine size inBound stands)
  mark _ rest notes machine size inBound stands :=
    Spares.goes_on (.cons inBound) rfl (.refl size) (rest _ machine size inBound stands)
  frame rest notes machine size inBound := rest machine.frame inBound notes machine size inBound
  within := .within
  refused less := absurd less (Nat.lt_irrefl _)
  addScope := .addScope
  emit := .emit
  define := .define
  assign _ := .assign rules _

/-- What an evaluation does to the scopes that are there, however it ends: each holds the names it
held, with the values they had if no variable has been assigned. -/
structure SparesScopes {α : Type} (traced : Traced α) (body : Eval α) : Prop where
  traces : traced.Erases body
  names : ∀ machine after, (body machine).machine? = some after →
    ∀ (ref : Nat) name, ref < machine.store.scopes.size →
      (after.store.getHere? ref name).isSome = (machine.store.getHere? ref name).isSome
  values : ∀ notes machine after, (body machine).machine? = some after → notes.moments = [] →
    (∀ moment ∈ (traced notes machine).1.moments, moment.assigns = false) →
    ∀ (ref : Nat) name, ref < machine.store.scopes.size →
      after.store.getHere? ref name = machine.store.getHere? ref name

private theorem SparesScopes.of_idle {α : Type} {traced : Traced α} {body : Eval α} {idle : Prop}
    {enough : Nat} (isIdle : idle) (erases : traced.Erases body)
    (spares : ∀ limit bound, enough ≤ bound → Spares limit bound idle traced) :
    SparesScopes traced body := by
  have spared (notes : Notes) (machine : Machine) := spares machine.store.scopes.size _
    (Nat.le_max_left enough machine.frame.depth) notes machine (Nat.le_refl _)
    (Nat.le_max_right _ _)
    (.inl isIdle)
  refine ⟨erases, fun machine after ends => ?_, fun notes machine after ends fresh calm => ?_⟩
  · rw [← erases .start] at ends
    exact ((spared .start machine).same after ends).2.names
  · rw [← erases notes] at ends
    refine ((spared notes machine).same after ends).2.values ?_
    rw [Notes.assignments, Notes.assignments, fresh]
    exact List.countP_eq_zero.mpr fun moment member => by simp [calm moment member]

end Run

/-- Whatever stands at a site of the list has all its parts at sites of the list. -/
def Closed (sites : List Site) : Prop :=
  ∀ site ∈ sites, site.node.sitesAt site.nesting ⊆ sites

namespace Closed

variable {first second rest : List Site}

private theorem nil : Closed [] := by
  intro site member
  cases member

private theorem append (closed : Closed first) (closed' : Closed second) :
    Closed (first ++ second) := by
  intro site member
  rcases List.mem_append.mp member with here | there
  · exact List.subset_append_of_subset_left _ (closed site here)
  · exact List.subset_append_of_subset_right _ (closed' site there)

private theorem node {nesting : Nesting} (node : Node)
    (whole : node.sitesAt nesting = ⟨nesting, node⟩ :: rest) (closed : Closed rest) :
    Closed (node.sitesAt nesting) := by
  intro site member
  rw [whole] at member ⊢
  rcases List.mem_cons.mp member with rfl | inner
  · exact whole ▸ List.Subset.refl _
  · exact List.subset_cons_of_subset _ (closed site inner)

private theorem expr {nesting : Nesting} {expr : Expr}
    (whole : exprSites nesting expr = ⟨nesting, .expr expr⟩ :: rest) (closed : Closed rest) :
    Closed (exprSites nesting expr) :=
  closed.node (.expr expr) whole

private theorem stmt {nesting : Nesting} {stmt : Stmt}
    (whole : stmtSites nesting stmt = ⟨nesting, .stmt stmt⟩ :: rest) (closed : Closed rest) :
    Closed (stmtSites nesting stmt) :=
  closed.node (.stmt stmt) whole

end Closed

mutual

private theorem closed_expr (nesting : Nesting) : ∀ expr, Closed (exprSites nesting expr)
  | .literal _ _ | .reference _ _ | .this _ _ | .super _ _ _ => .expr (by rw [exprSites]) .nil
  | .unary _ operand _ | .group operand | .assign _ _ operand | .property operand _ =>
    .expr (by rw [exprSites]) (closed_expr nesting operand)
  | .binary first _ second _ | .logical first _ second | .setProperty first _ second
  | .index first second _ =>
    .expr (by rw [exprSites]) (.append (closed_expr nesting first) (closed_expr nesting second))
  | .call callee _ arguments =>
    .expr (by rw [exprSites])
      (.append (closed_expr nesting callee) (closed_exprs nesting arguments))
  | .setIndex object key value _ =>
    .expr (by rw [exprSites]) (.append
      (.append (closed_expr nesting object) (closed_expr nesting key)) (closed_expr nesting value))
  | .array elements _ => .expr (by rw [exprSites]) (closed_exprs nesting elements)
  | .map entries _ => .expr (by rw [exprSites]) (closed_entries nesting entries)
  | .lambda decl => .expr (by rw [exprSites]) (closed_function nesting decl)

private theorem closed_exprs (nesting : Nesting) : ∀ exprs, Closed (exprsSites nesting exprs)
  | [] => by rw [exprsSites]; exact .nil
  | expr :: rest => .append (closed_expr nesting expr) (closed_exprs nesting rest)

private theorem closed_entries (nesting : Nesting) :
    ∀ entries, Closed (entriesSites nesting entries)
  | [] => by rw [entriesSites]; exact .nil
  | (key, value) :: rest =>
    .append (.append (closed_expr nesting key) (closed_expr nesting value))
      (closed_entries nesting rest)

private theorem closed_optional (nesting : Nesting) : ∀ expr, Closed (optionalSites nesting expr)
  | none => by rw [optionalSites]; exact .nil
  | some expr => by rw [optionalSites]; exact closed_expr nesting expr

private theorem closed_function (nesting : Nesting) : ∀ decl, Closed (functionSites nesting decl)
  | ⟨_, _, _, body⟩ => by rw [functionSites]; exact closed_stmts _ body

private theorem closed_stmt (nesting : Nesting) : ∀ stmt, Closed (stmtSites nesting stmt)
  | .expression value => .stmt (by rw [stmtSites]) (closed_expr nesting value)
  | .print _ values => .stmt (by rw [stmtSites]) (closed_exprs nesting values)
  | .var _ _ initial => .stmt (by rw [stmtSites]) (closed_optional _ initial)
  | .block body => .stmt (by rw [stmtSites]) (closed_stmts _ body)
  | .branch condition whenTrue whenFalse =>
    .stmt (by rw [stmtSites]) (.append
      (.append (closed_expr nesting condition) (closed_stmt nesting whenTrue))
      (closed_optionalStmt nesting whenFalse))
  | .loop condition body =>
    .stmt (by rw [stmtSites]) (.append (closed_expr nesting condition) (closed_stmt nesting body))
  | .countedLoop initial condition increment body =>
    .stmt (by rw [stmtSites]) (.append
      (.append (.append (closed_optionalStmt _ initial) (closed_optional _ condition))
        (closed_optional _ increment)) (closed_stmt _ body))
  | .function ⟨name, parameters, returns, body⟩ =>
    .stmt (by rw [stmtSites]) (closed_function _ ⟨name, parameters, returns, body⟩)
  | .returnValue _ value => .stmt (by rw [stmtSites]) (closed_optional nesting value)
  | .breakLoop _ | .continueLoop _ => .stmt (by rw [stmtSites]) .nil
  | .classDecl ⟨_, _, fields, methods⟩ =>
    .stmt (by rw [stmtSites]) (.append (closed_fields _ fields) (closed_methods _ methods))

private theorem closed_stmts (nesting : Nesting) : ∀ stmts, Closed (stmtsSites nesting stmts)
  | [] => by rw [stmtsSites]; exact .nil
  | stmt :: rest => .append (closed_stmt nesting stmt) (closed_stmts _ rest)

private theorem closed_optionalStmt (nesting : Nesting) :
    ∀ stmt, Closed (optionalStmtSites nesting stmt)
  | none => by rw [optionalStmtSites]; exact .nil
  | some stmt => by rw [optionalStmtSites]; exact closed_stmt nesting stmt

private theorem closed_fields (nesting : Nesting) : ∀ fields, Closed (fieldsSites nesting fields)
  | [] => by rw [fieldsSites]; exact .nil
  | ⟨_, _, _, initial⟩ :: rest =>
    .append (closed_optional nesting initial) (closed_fields nesting rest)

private theorem closed_methods (nesting : Nesting) :
    ∀ methods, Closed (methodsSites nesting methods)
  | [] => by rw [methodsSites]; exact .nil
  | ⟨_, _, function⟩ :: rest =>
    .append (closed_function nesting function) (closed_methods nesting rest)

end

private theorem idle_of_proper (nesting : Nesting) : ∀ stmt : Stmt,
    Covered Site.Proper (stmtSites nesting stmt) → stmt.DeclaresNothing → stmt.Idle
  | .branch condition whenTrue none, proper, _ => by
    obtain ⟨here, inner⟩ := proper.cons
    exact idle_of_proper nesting whenTrue inner.append.1.append.2 here.2.1
  | .branch condition whenTrue (some whenFalse), proper, _ => by
    obtain ⟨here, inner⟩ := proper.cons
    exact ⟨idle_of_proper nesting whenTrue inner.append.1.append.2 here.2.1,
      idle_of_proper nesting whenFalse inner.append.2 (here.2.2 _ rfl)⟩
  | .loop condition body, proper, _ => by
    obtain ⟨here, inner⟩ := proper.cons
    exact idle_of_proper nesting body inner.append.2 here.2
  | .var _ _ _, _, idle | .function _, _, idle | .classDecl _, _, idle => by
    simp [Stmt.DeclaresNothing, Binding.declaredName?] at idle
  | .expression _, _, _ | .print _ _, _, _ | .block _, _, _ | .countedLoop _ _ _ _, _, _
  | .returnValue _ _, _, _ | .breakLoop _, _, _ | .continueLoop _, _, _ => by
    simp only [Stmt.Idle]

/-- Code inside a scope neither declares in the scopes around it nor, without an assignment to a
variable, changes what they hold. -/
theorem inner_code_spares_outer_scopes (rules : Run.Rules) (steps pending : Nat) (spot : Run.Spot) :
    (∀ expr, Run.SparesScopes (Run.Traced.evaluate rules steps pending spot expr)
      (Run.evaluate rules steps expr)) ∧
    ∀ {session after : Session} {input : Input} {code : Code} {nesting : Nesting} {stmt : Stmt},
      session.read input = .ok (code, after) → ⟨nesting, .stmt stmt⟩ ∈ code.sites →
      stmt.DeclaresNothing →
      Run.SparesScopes (Run.Traced.execute rules steps pending spot stmt)
        (Run.execute rules steps stmt) := by
  refine ⟨fun expr => ?_, fun {session after input code nesting stmt} isRead member idle => ?_⟩
  · exact .of_idle trivial ((Run.Traced.erases rules steps).evaluate True rfl spot expr)
      fun limit _ roomy =>
        ((Run.sparing limit roomy).covers steps steps).evaluate True rfl spot expr
  · obtain ⟨_, -, -, tidy⟩ := Session.tidy_of_read isRead
    have closed : Closed code.sites := by
      cases code with
      | program statements => exact closed_stmts .top statements
      | expression expr => exact closed_expr .top expr
    have proper : Covered Site.Proper (stmtSites nesting stmt) :=
      fun site inner => tidy.proper site (closed _ member inner)
    exact .of_idle (idle_of_proper nesting stmt proper idle)
      ((Run.Traced.erases rules steps).execute rfl spot stmt)
      fun limit _ roomy => ((Run.sparing limit roomy).covers steps steps).execute rfl spot stmt

def Site.isBlock (site : Site) : Bool :=
  match site.node with
  | .stmt (.block _) => true
  | _ => false

def shadowing : Input :=
  .program "var x = 1; { var x = 2; print x; }"

/-- Nothing that the block declares comes to stand outside. -/
theorem shadowing_block_spares_outer_scopes :
    ∃ code after nesting body,
      (Session.start {} (fun _ => 0) .capturing).read shadowing = .ok (code, after) ∧
      ⟨nesting, .stmt (.block body)⟩ ∈ code.sites ∧
      Run.SparesScopes (Run.Traced.execute after.rules 9 0 .top (.block body))
        (Run.execute after.rules 9 (.block body)) := by
  have present : ((Session.start {} (fun _ => 0) .capturing).read shadowing).toOption.any
      (fun read => read.1.sites.any Site.isBlock) = true := by
    decide +kernel
  obtain ⟨⟨code, after⟩, found, blocks⟩ := (Option.any_eq_true _ _).mp present
  obtain ⟨⟨nesting, node⟩, member, isBlock⟩ := List.any_eq_true.mp blocks
  have isRead : (Session.start {} (fun _ => 0) .capturing).read shadowing = .ok (code, after) := by
    revert found
    cases (Session.start {} (fun _ => 0) .capturing).read shadowing <;> simp [Except.toOption]
  obtain ⟨body, rfl⟩ : ∃ body, node = .stmt (.block body) := by
    unfold Site.isBlock at isBlock
    split at isBlock
    · next body same => exact ⟨body, same⟩
    · cases isBlock
  exact ⟨code, after, nesting, body, isRead, member,
    (inner_code_spares_outer_scopes after.rules 9 0 .top).2 isRead member rfl⟩

namespace Run

variable {α : Type}

/-- How an evaluation treats the registers, with the moments of its trace in between. -/
structure KeepsRegisters (limit : Nat) (traced : Traced α) (body : Eval α) : Prop where
  /-- However the evaluation ends, the registers are those it was entered with. -/
  restored : ∀ machine after, (body machine).machine? = some after → after.frame = machine.frame
  /-- The trace is one of this evaluation. -/
  traces : traced.Erases body
  shallow : ∀ notes machine, notes.moments = [] → machine.frame.depth ≤ limit →
    ∀ moment ∈ (traced notes machine).1.moments, moment.machine.frame.depth ≤ limit

theorem Spares.keepsRegisters {limit : Nat} {idle : Prop} {traced : Traced α} {body : Eval α}
    (spares : ∀ bound, limit ≤ bound → Spares 0 bound idle traced) (erases : traced.Erases body) :
    KeepsRegisters limit traced body where
  restored machine after ends := by
    rw [← erases .start machine] at ends
    have spared := spares _ (Nat.le_max_left limit machine.frame.depth) .start machine
      (Nat.zero_le _) (Nat.le_max_right _ _) (.inr (Nat.zero_le _))
    exact (spared.same after ends).1
  traces := erases
  shallow notes machine fresh inLimit moment member :=
    (spares limit (Nat.le_refl limit) notes machine (Nat.zero_le _) inLimit
      (.inr (Nat.zero_le _))).adds.fits_of_fresh fresh member

private theorem callClosure_refused {rules : Rules} (steps : Nat) {closure : Closure}
    {arguments : List Value} (position : Position) {machine : Machine}
    (arity : closure.decl.arity = arguments.length) (full : rules.maxDepth ≤ machine.frame.depth) :
    callClosure rules (steps + 1) closure arguments position machine =
      .stopped (.fault ⟨.callDepth rules.maxDepth closure.decl.name.name, position⟩) machine := by
  have accepted : checkArity closure.decl.arity arguments.length position = pure () := by
    simp [checkArity, arity]
  rw [callClosure, accepted]
  show (if rules.maxDepth ≤ machine.frame.depth then _ else _ : Eval Value) machine = _
  rw [if_pos full]
  rfl

/-- Every evaluation, execution and call ends with the registers it was entered with, and goes no
deeper into calls than the limit allows; a call at the limit is refused, whatever its body is. -/
theorem registers_are_restored (rules : Rules) (steps : Nat) :
    (∀ pending spot expr, KeepsRegisters rules.maxDepth
      (Traced.evaluate rules steps pending spot expr) (evaluate rules steps expr)) ∧
    (∀ pending spot stmt, KeepsRegisters rules.maxDepth
      (Traced.execute rules steps pending spot stmt) (execute rules steps stmt)) ∧
    (∀ pending callee arguments position, KeepsRegisters rules.maxDepth
      (Traced.call rules steps pending callee arguments position)
      (call rules steps callee arguments position)) ∧
    (∀ pending home closure arguments position, KeepsRegisters rules.maxDepth
      (Traced.callClosure rules steps pending home closure arguments position)
      (callClosure rules steps closure arguments position)) ∧
    (∀ closure arguments position machine, closure.decl.arity = arguments.length →
      rules.maxDepth ≤ machine.frame.depth →
      callClosure rules (steps + 1) closure arguments position machine =
        .stopped (.fault ⟨.callDepth rules.maxDepth closure.decl.name.name, position⟩)
          machine) := by
  have spares {bound : Nat} (roomy : rules.maxDepth ≤ bound) :=
    (sparing 0 roomy).covers steps steps
  have erases := Traced.erases rules steps
  refine ⟨fun pending spot expr => ?_, fun pending spot stmt => ?_,
    fun pending callee arguments position => ?_,
    fun pending home closure arguments position => ?_,
    fun closure arguments position machine arity full =>
      callClosure_refused steps position arity full⟩
  · exact Spares.keepsRegisters (fun _ roomy => (spares roomy).evaluate True rfl spot expr)
      (erases.evaluate True rfl spot expr)
  · exact Spares.keepsRegisters (fun _ roomy => (spares roomy).execute rfl spot stmt)
      (erases.execute rfl spot stmt)
  · exact Spares.keepsRegisters
      (fun _ roomy => (spares roomy).call True rfl callee arguments position)
      (erases.call True rfl callee arguments position)
  · exact Spares.keepsRegisters
      (fun _ roomy => (spares roomy).callClosure True rfl home closure arguments position)
      (erases.callClosure True rfl home closure arguments position)

/-- A method whose body reads a variable that nothing declares, from inside a block. -/
def lostMethod : Closure where
  decl := {
    name := ⟨"lost", .start⟩, parameters := [], returns := none,
    body := [.block [.expression (.reference 0 ⟨"x", .start⟩)]] }
  scope := Store.globalScope
  isInitializer := false
  owner := some 0

/-- Two scopes and a class further in, the call of this method fails, and the registers are back. -/
theorem failed_call_restores_registers :
    let rules : Rules := { depths := .empty, maxDepth := 1, clock := fun _ => 0 }
    let machine : Machine := { frame := .top, store := .initial, sink := .capturing, ticks := 0 }
    ∃ after, callClosure rules 9 lostMethod [] .start machine =
      .stopped (.fault ⟨.undefinedVariable "x", .start⟩) after ∧ after.frame = .top := by
  intro rules machine
  obtain ⟨-, -, -, called, -⟩ := registers_are_restored rules 9
  have keeps := called 0 .top lostMethod [] .start
  have fails : ∃ after, callClosure rules 9 lostMethod [] .start machine =
      .stopped (.fault ⟨.undefinedVariable "x", .start⟩) after := ⟨_, rfl⟩
  obtain ⟨after, fails⟩ := fails
  exact ⟨after, fails, keeps.restored machine after (by rw [fails]; rfl)⟩

/-- Stand somewhere else during an evaluation, and put back some of the registers it ends with. -/
def Eval.puttingBack (back : Frame → Frame) (frame : Frame) (body : Eval α) : Eval α :=
  fun machine =>
    match body { machine with frame } with
    | .done value after => .done value { after with frame := back after.frame }
    | .stopped reason after => .stopped reason { after with frame := back after.frame }
    | .exhausted => .exhausted

private theorem KeepsRegisters.within_eq {limit : Nat} {traced : Traced α} {body : Eval α}
    (keeps : KeepsRegisters limit traced body) {frame : Frame} {back : Frame → Frame}
    {machine : Machine} (home : back frame = machine.frame) :
    Eval.within frame body machine = Eval.puttingBack back frame body machine := by
  have restored := keeps.restored { machine with frame }
  unfold Eval.within Eval.puttingBack
  generalize body { machine with frame } = outcome at restored ⊢
  cases outcome with
  | done value after =>
    have same : after.frame = frame := restored after rfl
    simp only [same, home]
  | stopped reason after =>
    have same : after.frame = frame := restored after rfl
    simp only [same, home]
  | exhausted => rfl

/-- It comes to the same to put back only the registers that were changed: the scope after a block
or a counted loop, also the class after the fields of a class are set up, and after a call these two
and one from the number of calls under way. -/
theorem changed_registers_are_enough (rules : Rules) (steps : Nat) (machine : Machine)
    (scope : ScopeRef) (classRef : Option ClassRef) :
    let home := machine.frame
    (∀ body, Eval.withinScope scope (executeAll rules steps body) machine =
      Eval.puttingBack ({ · with scope := home.scope }) { home with scope }
        (executeAll rules steps body) machine) ∧
    (∀ initial condition increment body,
      Eval.withinScope scope (runLoop rules steps initial condition increment body) machine =
        Eval.puttingBack ({ · with scope := home.scope }) { home with scope }
          (runLoop rules steps initial condition increment body) machine) ∧
    (∀ fields receiver,
      Eval.within { home with scope, classRef } (setUpFields rules steps fields receiver) machine =
        Eval.puttingBack ({ · with scope := home.scope, classRef := home.classRef })
          { home with scope, classRef } (setUpFields rules steps fields receiver) machine) ∧
    ∀ body, Eval.within { scope, classRef, depth := home.depth + 1 }
      (executeAll rules steps body) machine =
        Eval.puttingBack (fun frame => ⟨home.scope, home.classRef, frame.depth - 1⟩)
          { scope, classRef, depth := home.depth + 1 } (executeAll rules steps body) machine := by
  have spares {bound : Nat} (roomy : rules.maxDepth ≤ bound) :=
    (sparing 0 roomy).covers steps steps
  have erases := Traced.erases rules steps
  have body (stmts : List Stmt) : KeepsRegisters rules.maxDepth
      (Traced.executeAll rules steps 0 .top stmts) (executeAll rules steps stmts) :=
    Spares.keepsRegisters (fun _ roomy => (spares roomy).executeAll rfl .top stmts)
      (erases.executeAll rfl .top stmts)
  refine ⟨fun stmts => (body stmts).within_eq rfl, fun initial condition increment stmt => ?_,
    fun fields receiver => ?_, fun stmts => (body stmts).within_eq rfl⟩
  · have loop : KeepsRegisters rules.maxDepth
        (Traced.runLoop rules steps 0 .top initial condition increment stmt)
        (runLoop rules steps initial condition increment stmt) :=
      Spares.keepsRegisters (fun _ roomy => (spares roomy).runLoop rfl .top _ _ _ stmt)
        (erases.runLoop rfl .top _ _ _ stmt)
    exact loop.within_eq rfl
  · have setUp : KeepsRegisters rules.maxDepth
        (Traced.setUpFields rules steps 0 .top fields receiver)
        (setUpFields rules steps fields receiver) :=
      Spares.keepsRegisters
        (fun _ roomy => (spares roomy).setUpFields True rfl .top fields receiver)
        (erases.setUpFields True rfl .top fields receiver)
    exact setUp.within_eq rfl

end Run

end ClassScript
