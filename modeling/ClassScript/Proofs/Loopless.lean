import ClassScript.Proofs.Settling

/-!
Code without loops settles, by induction on the syntax tree and, around it, on what is left of the
limit on calls and of the bound on set-ups of fields.
-/

set_option autoImplicit false

namespace ClassScript

def Site.isLoop (site : Site) : Bool :=
  match site.node with
  | .stmt (.loop _ _) | .stmt (.countedLoop _ _ _ _) => true
  | _ => false

namespace Run

open Steady

variable {text : Site → Prop} {rules : Rules} {bound budget : Nat}

def Settling (text : Site → Prop) (rules : Rules) (bound budget pending : Nat) {α : Type}
    (sites : Nesting → List Site) (body : Nat → Nat → Spot → Traced α) : Prop :=
  ∀ spot notes machine, Covered text (sites spot.nesting) → Poised text .blind notes machine spot →
    Room rules bound budget pending spot machine →
    Settles bound (fun steps => body steps pending spot) notes machine

theorem Settles.begins {α : Type} {pending : Nat} {spot : Spot} {node : Node} {notes : Notes}
    {machine : Machine} {body rest : Nat → Traced α} (ready : Poised text .blind notes machine spot)
    (zero : body 0 = Traced.lift Eval.exhaust)
    (opens : ∀ steps, body (steps + 1) =
      Traced.mark pending spot node .begins >>= fun _ => rest steps)
    (settles : ∀ notes', Poised text .blind notes' machine spot →
      Settles bound rest notes' machine) :
    Settles bound body notes machine := by
  exact .succ zero opens (.mark ready fun notes' ready _ => settles notes' ready)

private theorem Settling.bind (sound : rules.Suits text) {α : Type}
    {expr : Expr} {pending : Nat} {spot : Spot} {notes : Notes} {machine : Machine}
    {next : Nat → Value → Traced α}
    (settles : Settling text rules bound budget pending (exprSites · expr)
      (Traced.evaluate rules · · · expr))
    (covered : Covered text (exprSites spot.nesting expr))
    (ready : Poised text .blind notes machine spot)
    (room : Room rules bound budget pending spot machine)
    (rest : ∀ value notes' machine', Poised text .blind notes' machine' spot →
      Room rules bound budget pending spot machine' →
      Settles bound (fun steps => next steps value) notes' machine') :
    Settles bound (fun steps => Traced.evaluate rules steps pending spot expr >>= next steps) notes
      machine :=
  (settles spot notes machine covered ready room).bind
    (fun steps => Steady.evaluate sound steps pending blind_fair ready covered)
    fun value notes machine passed _ =>
      rest value notes machine (passed.poised ready) (room.passed passed)

mutual

theorem settles_expr (sound : rules.Suits text) (below : SettledBelow text rules bound budget)
    (expr : Expr) (pending : Nat) :
    Settling text rules bound budget pending (exprSites · expr)
      (Traced.evaluate rules · · · expr) := by
  intro spot notes machine covered ready room
  refine .begins ready (Traced.evaluate.eq_def ..) (fun _ => Traced.evaluate.eq_def ..)
    fun notes ready => ?_
  match expr with
  | .literal literal position =>
    exact .pure _ _ _
  | .unary operator operand position =>
    exact (settles_expr sound below operand _ _ _ _ covered.cons.2 ready room).brief_after
      fun _ => .attempt _ _
  | .binary left operator right position =>
    obtain ⟨coveredLeft, coveredRight⟩ := covered.cons.2.append
    refine (settles_expr sound below left pending).bind sound coveredLeft ready room
      fun _ notes machine ready room => ?_
    exact (settles_expr sound below right _ _ _ _ coveredRight ready room).brief_after
      fun _ => .attempt _ _
  | .logical left operator right =>
    obtain ⟨coveredLeft, coveredRight⟩ := covered.cons.2.append
    refine (settles_expr sound below left pending).bind sound coveredLeft ready room
      fun value notes machine ready room => ?_
    refine (Settles.of_brief (.attempt _ _) _ _).bind
      (fun _ => fares_attempt ready.toUpheld left.position (fair_truth value))
      fun holds notes machine passed _ => ?_
    cases decides operator holds
    · simp only [Bool.false_eq_true, if_false]
      exact settles_expr sound below right _ _ _ _ coveredRight (passed.poised ready)
        (room.passed passed)
    · simp only [if_true]
      exact .pure _ _ _
  | .group inner =>
    exact settles_expr sound below inner _ _ _ _ covered.cons.2 ready room
  | .reference id name =>
    exact .mark ready fun notes ready _ => .of_brief (brief_readVariable _ _ _) _ _
  | .assign id name value =>
    refine (settles_expr sound below value pending).bind sound covered.cons.2 ready room
      fun value notes machine ready room => ?_
    refine .mark ready fun notes ready _ => ?_
    exact .of_brief (.bind (brief_writeVariable _ _ _ _) fun _ => .pure _) _ _
  | .call callee position arguments =>
    obtain ⟨coveredCallee, coveredArguments⟩ := covered.cons.2.append
    refine (settles_expr sound below callee pending).bind sound coveredCallee ready room
      fun callee notes machine ready room => ?_
    refine ((settles_exprs sound below arguments _).1 _ _ _ coveredArguments ready room).bind
      (fun steps => Steady.evaluateAll sound steps pending blind_fair ready coveredArguments)
      fun values notes machine passed fine => ?_
    refine .mark (passed.poised ready) fun notes ready deep => ?_
    have room := room.passed passed
    -- Beyond the bound a call can only stand in the initial value of a field.
    by_cases shallow : pending ≤ bound
    · exact settles_call sound below shallow callee ready.toUpheld fine room
    · have initial := room.place.resolve_left shallow
      refine .of_deep (deep (Nat.not_le.mp shallow) initial) fun steps => ?_
      obtain ⟨added, moments, -⟩ := Steady.call sound steps pending blind_fair ready.toUpheld fine
      exact moments ▸ List.subset_append_right _ _
  | .property object name =>
    refine (settles_expr sound below object pending).bind sound covered.cons.2 ready room
      fun value notes machine ready room => ?_
    cases value with
    | object ref => exact .mark ready fun notes ready _ => .of_brief (brief_readProperty _ _) _ _
    | _ => exact .of_brief (.fail _ _) _ _
  | .setProperty object name value =>
    obtain ⟨coveredObject, coveredValue⟩ := covered.cons.2.append
    refine (settles_expr sound below object pending).bind sound coveredObject ready room
      fun object notes machine ready room => ?_
    cases object with
    | object ref =>
      refine (settles_expr sound below value pending).bind sound coveredValue ready room
        fun value notes machine ready room => ?_
      refine .mark ready fun notes ready _ => ?_
      exact .of_brief (.bind (brief_writeProperty _ _ _) fun _ => .pure _) _ _
    | _ => exact .of_brief (.fail _ _) _ _
  | .index object key position =>
    obtain ⟨coveredObject, coveredKey⟩ := covered.cons.2.append
    refine (settles_expr sound below object pending).bind sound coveredObject ready room
      fun _ notes machine ready room => ?_
    exact (settles_expr sound below key _ _ _ _ coveredKey ready room).brief_after fun _ =>
      .bind (.inspect _) fun _ => .attempt _ _
  | .setIndex object key value position =>
    obtain ⟨coveredBoth, coveredValue⟩ := covered.cons.2.append
    obtain ⟨coveredObject, coveredKey⟩ := coveredBoth.append
    refine (settles_expr sound below object pending).bind sound coveredObject ready room
      fun _ notes machine ready room => ?_
    refine (settles_expr sound below key pending).bind sound coveredKey ready room
      fun _ notes machine ready room => ?_
    exact (settles_expr sound below value _ _ _ _ coveredValue ready room).brief_after fun _ =>
      .bind (brief_assignIndex _ _ _ _) fun _ => .pure _
  | .array elements position =>
    exact ((settles_exprs sound below elements _).1 _ _ _ covered.cons.2 ready room).brief_after
      fun _ => .bind (.add False.elim) fun _ => .pure _
  | .map entries position =>
    exact (settles_entries sound below entries ∅ _ _ _ _ covered.cons.2 ready room).brief_after
      fun _ => .bind (.add False.elim) fun _ => .pure _
  | .this id position =>
    exact .mark ready fun notes ready _ => .of_brief (brief_readThis _ _ _) _ _
  | .super id position method =>
    exact .mark ready fun notes ready _ => .of_brief (brief_readSuper _ _ _ _) _ _
  | .lambda decl =>
    exact .of_brief (brief_makeFunction _ _) _ _

private theorem settles_exprs (sound : rules.Suits text)
    (below : SettledBelow text rules bound budget) (exprs : List Expr) (pending : Nat) :
    Settling text rules bound budget pending (exprsSites · exprs)
        (Traced.evaluateAll rules · · · exprs) ∧
      Settling text rules bound budget pending (exprsSites · exprs)
        (Traced.evaluateShown rules · · · exprs) := by
  constructor <;> intro spot notes machine covered ready room
  · refine .succ (Traced.evaluateAll.eq_def ..) (fun _ => Traced.evaluateAll.eq_def ..) ?_
    match exprs with
    | [] => exact .pure _ _ _
    | expr :: rest =>
      refine (settles_expr sound below expr pending).bind sound covered.append.1 ready room
        fun _ notes machine ready room => ?_
      exact ((settles_exprs sound below rest _).1 _ _ _ covered.append.2 ready room).brief_after
        fun _ => .pure _
  · refine .succ (Traced.evaluateShown.eq_def ..) (fun _ => Traced.evaluateShown.eq_def ..) ?_
    match exprs with
    | [] => exact .pure _ _ _
    | expr :: rest =>
      refine (settles_expr sound below expr pending).bind sound covered.append.1 ready room
        fun _ notes machine ready room => ?_
      refine .step rfl rfl ?_
      exact ((settles_exprs sound below rest _).2 _ _ _ covered.append.2 ready room).brief_after
        fun _ => .pure _

private theorem settles_entries (sound : rules.Suits text)
    (below : SettledBelow text rules bound budget) (entries : List (Expr × Expr))
    (done : Dict Value) (pending : Nat) :
    Settling text rules bound budget pending (entriesSites · entries)
      (Traced.evaluateEntries rules · · · entries done) := by
  intro spot notes machine covered ready room
  refine .succ (Traced.evaluateEntries.eq_def ..) (fun _ => Traced.evaluateEntries.eq_def ..) ?_
  match entries with
  | [] => exact .pure _ _ _
  | (key, value) :: rest =>
    obtain ⟨coveredBoth, coveredRest⟩ := covered.append
    obtain ⟨coveredKey, coveredValue⟩ := coveredBoth.append
    refine (settles_expr sound below key pending).bind sound coveredKey ready room
      fun name notes machine ready room => ?_
    refine (Settles.of_brief (.attempt _ _) _ _).bind
      (fun _ => fares_attempt ready.toUpheld key.position (fair_mapKey name))
      fun _ notes machine passed _ => ?_
    refine (settles_expr sound below value pending).bind sound coveredValue (passed.poised ready)
      (room.passed passed) fun _ notes machine ready room => ?_
    exact settles_entries sound below rest _ _ _ _ _ coveredRest ready room

end

private theorem settles_optional (sound : rules.Suits text)
    (below : SettledBelow text rules bound budget) (expr : Option Expr) (pending : Nat) :
    Settling text rules bound budget pending (optionalSites · expr)
      (Traced.evaluateOptional rules · · · expr) := by
  intro spot notes machine covered ready room
  refine .succ (Traced.evaluateOptional.eq_def ..) (fun _ => Traced.evaluateOptional.eq_def ..) ?_
  cases expr with
  | none => exact .pure _ _ _
  | some expr => exact settles_expr sound below expr _ _ _ _ covered ready room

mutual

theorem settles_stmt (sound : rules.Suits text) (below : SettledBelow text rules bound budget)
    (loopless : ∀ site, text site → site.isLoop = false) (stmt : Stmt)
    (pending : Nat) (shallow : pending ≤ bound) :
    Settling text rules bound budget pending (stmtSites · stmt)
      (Traced.execute rules · · · stmt) := by
  intro spot notes machine covered ready room
  refine .begins ready (Traced.execute.eq_def ..) (fun _ => Traced.execute.eq_def ..)
    fun notes ready => ?_
  match stmt with
  | .expression value =>
    exact (settles_expr sound below value _ _ _ _ covered.cons.2 ready room).brief_after
      fun _ => .pure _
  | .print keyword values =>
    exact ((settles_exprs sound below values _).2 _ _ _ covered.cons.2 ready room).bind
      (fun steps => Steady.evaluateShown sound steps pending blind_fair ready covered.cons.2)
      fun _ notes machine _ _ => .prints _ _ _ _
  | .var name typeHint initial =>
    have inside : Poised text .blind notes machine (spot.declare name.name) :=
      ⟨ready.toUpheld, ready.standing.declare name.name⟩
    exact (settles_optional sound below initial _ _ _ _
      covered.cons.2 inside (room.moved shallow _)).brief_after fun _ =>
      .bind (brief_completeVariable _ _) fun _ => .pure _
  | .block body =>
    refine (Settles.of_brief (brief_innerScope _) _ _).bind
      (fun _ => fares_innerScope ready (.block body)) fun scope notes machine passed entered => ?_
    have room := room.passed passed
    have ready := entered.2.poised passed.coherent passed.tended
    exact .withinScope (settles_stmts sound below loopless body _ shallow _ _ _ covered.cons.2 ready
      ⟨room.depth, room.left, .inl shallow⟩)
  | .branch condition whenTrue whenFalse =>
    obtain ⟨coveredBoth, coveredFalse⟩ := covered.cons.2.append
    obtain ⟨coveredCondition, coveredTrue⟩ := coveredBoth.append
    refine (settles_expr sound below condition pending).bind sound coveredCondition ready room
      fun value notes machine ready room => ?_
    refine (Settles.of_brief (.attempt _ _) _ _).bind
      (fun _ => fares_attempt ready.toUpheld condition.position (fair_truth value))
      fun holds notes machine passed _ => ?_
    have ready := passed.poised ready
    have room := room.passed passed
    cases holds
    · simp only [Bool.false_eq_true, if_false]
      exact settles_optionalStmt sound below loopless whenFalse _ shallow _ _ _ coveredFalse ready
        room
    · simp only [if_true]
      exact settles_stmt sound below loopless whenTrue _ shallow _ _ _ coveredTrue ready room
  | .loop condition body | .countedLoop initial condition increment body =>
    exact absurd (loopless _ (covered _ (mem_stmtSites_self _ _))) (by simp [Site.isLoop])
  | .function decl =>
    exact .of_brief (.bind (brief_makeFunction _ _) fun _ => .bind (brief_define _ _) fun _ =>
      .pure _) _ _
  | .returnValue keyword value =>
    exact (settles_optional sound below value _ _ _ _ covered.cons.2 ready room).brief_after
      fun _ => .pure _
  | .breakLoop keyword | .continueLoop keyword =>
    exact .pure _ _ _
  | .classDecl decl =>
    refine .mark ready fun notes ready _ => ?_
    exact .of_brief (.bind (brief_declareClass _ _ _) fun _ => .pure _) _ _

private theorem settles_stmts (sound : rules.Suits text)
    (below : SettledBelow text rules bound budget)
    (loopless : ∀ site, text site → site.isLoop = false) (stmts : List Stmt)
    (pending : Nat) (shallow : pending ≤ bound) :
    Settling text rules bound budget pending (stmtsSites · stmts)
      (Traced.executeAll rules · · · stmts) := by
  intro spot notes machine covered ready room
  refine .succ (Traced.executeAll.eq_def ..) (fun _ => Traced.executeAll.eq_def ..) ?_
  match stmts with
  | [] => exact .pure _ _ _
  | stmt :: rest =>
    refine (settles_stmt sound below loopless stmt _ shallow _ _ _ covered.append.1 ready room).bind
      (fun steps => Steady.execute sound steps pending blind_fair ready covered.append.1
        fun _ _ => trivial)
      fun flow notes machine passed ends => ?_
    cases flow with
    | normal =>
      exact settles_stmts sound below loopless rest _ shallow (spot.past stmt) _ _
        covered.append.2 ⟨passed.upheld, ends.2.1⟩ ((room.passed passed).moved shallow _)
    | _ => exact .pure _ _ _

private theorem settles_optionalStmt (sound : rules.Suits text)
    (below : SettledBelow text rules bound budget)
    (loopless : ∀ site, text site → site.isLoop = false) (stmt : Option Stmt) (pending : Nat)
    (shallow : pending ≤ bound) :
    Settling text rules bound budget pending (optionalStmtSites · stmt)
      (Traced.executeOptional rules · · · stmt) := by
  intro spot notes machine covered ready room
  refine .succ (Traced.executeOptional.eq_def ..) (fun _ => Traced.executeOptional.eq_def ..) ?_
  match stmt with
  | none => exact .pure _ _ _
  | some stmt => exact settles_stmt sound below loopless stmt _ shallow _ _ _ covered ready room

end

private theorem settles_fields (sound : rules.Suits text)
    (below : SettledBelow text rules bound budget) (receiver : InstanceRef)
    (fields : List (FieldDecl Expr)) (pending : Nat) :
    Settling text rules bound budget pending (fieldsSites · fields)
      (Traced.setUpFields rules · · · fields receiver) := by
  induction fields with
  | nil =>
    intro spot notes machine _ _ _
    exact .succ (Traced.setUpFields.eq_def ..) (fun _ => Traced.setUpFields.eq_def ..) (.pure _ _ _)
  | cons field rest ih =>
    intro spot notes machine covered ready room
    obtain ⟨name, visibility, typeHint, initial⟩ := field
    refine .succ (Traced.setUpFields.eq_def ..) (fun _ => Traced.setUpFields.eq_def ..) ?_
    refine (settles_optional sound below initial _ _ _ _ covered.append.1 ready room).bind
      (fun steps => Steady.evaluateOptional sound steps pending blind_fair ready
        covered.append.1) fun value notes machine passed fine => ?_
    have ready := passed.poised ready
    have room := room.passed passed
    have changed : Passed text .blind _ _ notes _ :=
      ⟨kept_setField ready.coherent fine.known receiver name.name,
        fared_setField ready.tended id name.name fine.whole⟩
    exact .step rfl rfl (ih _ _ _ covered.append.2 (changed.poised ready) (room.passed changed))

/-- Code without loops settles, however much is left of the limit and the bound. -/
theorem settled (sound : rules.Suits text)
    (loopless : ∀ site, text site → site.isLoop = false) (budget : Nat) :
    Settled text rules bound budget := by
  induction budget using Nat.strongRecOn with
  | ind budget below =>
    exact ⟨fun pending spot stmts notes machine shallow =>
        settles_stmts sound below loopless stmts pending shallow spot notes machine,
      fun pending spot fields receiver => settles_fields sound below receiver fields pending spot⟩

end Run

end ClassScript
