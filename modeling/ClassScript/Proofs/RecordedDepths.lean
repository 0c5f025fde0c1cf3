import ClassScript.Proofs.Confined
import ClassScript.Proofs.GlobalGrants
import ClassScript.Proofs.Reading

/-!
What the walk through a text notes: the depth noted for a reference is how many scopes out of its
site the name is declared, and the ledger has one entry for each site that uses a name.
-/

set_option autoImplicit false

namespace ClassScript

namespace Nesting

def TakesStatements : Nesting → Prop
  | top | inside _ _ _ => True
  | fields _ _ | methods _ _ => False

private theorem past_eq_self {stmt : Stmt} (idle : stmt.DeclaresNothing) (nesting : Nesting) :
    nesting.past stmt = nesting := by
  cases stmt <;> simp_all [Stmt.DeclaresNothing, Binding.declaredName?, past]

@[simp] private theorem classKind_declare (nesting : Nesting) (name : String) :
    (nesting.declare name).classKind = nesting.classKind := by
  cases nesting <;> rfl

@[simp] private theorem classKind_define (nesting : Nesting) (name : String) :
    (nesting.define name).classKind = nesting.classKind := by
  cases nesting <;> rfl

@[simp] private theorem classKind_past (nesting : Nesting) (stmt : Stmt) :
    (nesting.past stmt).classKind = nesting.classKind := by
  cases stmt <;> simp [past]

private theorem pastOptional_eq_self {stmt : Option Stmt}
    (idle : ∀ found, stmt = some found → found.DeclaresNothing) (nesting : Nesting) :
    nesting.pastOptional stmt = nesting := by
  cases stmt with
  | none => rfl
  | some stmt => exact past_eq_self (idle stmt rfl) nesting

variable {nesting : Nesting}

private theorem TakesStatements.declare (takes : nesting.TakesStatements) (name : String) :
    (nesting.declare name).TakesStatements := by
  cases nesting <;> trivial

private theorem TakesStatements.past (takes : nesting.TakesStatements) (stmt : Stmt) :
    (nesting.past stmt).TakesStatements := by
  cases nesting <;> cases stmt <;> trivial

private theorem TakesStatements.pastOptional (takes : nesting.TakesStatements)
    (stmt : Option Stmt) : (nesting.pastOptional stmt).TakesStatements := by
  cases stmt with
  | none => exact takes
  | some stmt => exact takes.past stmt

@[simp] private theorem scopes_inside (body : Body) (names : Dict Bool) (outer : Nesting) :
    (inside body names outer).scopes = names :: outer.scopes := rfl

theorem scopes_methods (decl : ClassDecl Expr Stmt) (outer : Nesting) :
    (methods decl outer).scopes = wordNames "this" ::
      if decl.superclass.isSome then wordNames "super" :: outer.scopes else outer.scopes := by
  cases superclass : decl.superclass <;> simp [scopes, layers, superclass]

private theorem scopes_tail_past (nesting : Nesting) (stmt : Stmt) :
    (nesting.past stmt).scopes.tail = nesting.scopes.tail := by
  cases nesting <;> cases stmt <;> rfl

private theorem scopes_tail_pastOptional (nesting : Nesting) (stmt : Option Stmt) :
    (nesting.pastOptional stmt).scopes.tail = nesting.scopes.tail := by
  cases stmt with
  | none => rfl
  | some stmt => exact nesting.scopes_tail_past stmt

private theorem scopes_tail_pastAll (nesting : Nesting) (stmts : List Stmt) :
    (nesting.pastAll stmts).scopes.tail = nesting.scopes.tail := by
  induction stmts generalizing nesting with
  | nil => rfl
  | cons stmt rest ih => rw [pastAll, ih, scopes_tail_past]

end Nesting

/-- `this` stands in methods and `super` in methods of a class with a superclass. -/
def Site.Placed (site : Site) : Prop :=
  match site.node with
  | .expr (.this _ _) => site.nesting.classKind ≠ .none
  | .expr (.super _ _ _) => site.nesting.classKind = .derived
  | _ => True

namespace Site

variable (site : Site) (idle : site.use? = none)

include idle

private theorem placed_of_idle : site.Placed := by
  obtain ⟨nesting, ⟨expr⟩ | ⟨stmt⟩⟩ := site
  · cases expr <;> trivial
  · trivial

private theorem mention?_of_idle : site.node.mention? = none := by
  obtain ⟨nesting, ⟨expr⟩ | ⟨stmt⟩⟩ := site
  · cases expr <;> first | rfl | simp [use?] at idle
  · cases stmt <;> first | rfl | simpa [use?, Node.mention?] using idle

end Site

structure Around (nesting : Nesting) (place : Binding.Place) : Prop extends nesting.Hosts where
  kind : place.classKind = nesting.classKind
  outside : nesting.Outside → place.function = .none

namespace Around

variable {nesting : Nesting} {place : Binding.Place}

private theorem loopBody (around : Around nesting place) : Around nesting place.loopBody :=
  ⟨around.toHosts, around.kind, around.outside⟩

private theorem declare (around : Around nesting place) (name : String) :
    Around (nesting.declare name) place where
  toHosts := around.toHosts.declare name
  kind := by simpa using around.kind
  outside isOutside := around.outside (Nesting.outside_declare.mp isOutside)

private theorem past (around : Around nesting place) (stmt : Stmt) :
    Around (nesting.past stmt) place where
  toHosts := around.toHosts.past stmt
  kind := by simpa using around.kind
  outside isOutside := around.outside (Nesting.outside_past.mp isOutside)

private theorem pastOptional (around : Around nesting place) (stmt : Option Stmt) :
    Around (nesting.pastOptional stmt) place := by
  cases stmt with
  | none => exact around
  | some stmt => exact around.past stmt

private theorem inside (around : Around nesting place) {body : Body} {names : Dict Bool}
    (functions : (Nesting.inside body names nesting).functions = nesting.functions)
    (outside : (Nesting.inside body names nesting).Outside → nesting.Outside) :
    Around (.inside body names nesting) place :=
  ⟨⟨functions ▸ around.mannered, fun _ => rfl⟩, around.kind, fun inner =>
    around.outside (outside inner)⟩

end Around

namespace Binding

namespace Depths

private theorem find?_records (entries : List (RefId × Nat)) (depths : Depths) (id : RefId)
    (distinct : entries.Pairwise fun first second => first.1 ≠ second.1) :
    (entries.foldl (fun depths entry => depths.record entry.1 entry.2) depths).find? id =
      ((entries.find? fun entry => entry.1 = id).map Prod.snd).or (depths.find? id) := by
  induction entries generalizing depths with
  | nil => rfl
  | cons entry rest ih =>
    obtain ⟨apart, distinctRest⟩ := List.pairwise_cons.mp distinct
    rw [List.foldl_cons, ih _ distinctRest, List.find?_cons, find?_record]
    by_cases same : entry.1 = id
    · have absent : rest.find? (fun other => other.1 = id) = none := by
        rw [List.find?_eq_none]
        intro other member
        simpa [← same] using (apart other member).symm
      simp [absent, same]
    · simp [same, Ne.symm same]

theorem find?_merge (depths more : Depths) (id : RefId) :
    (depths.merge more).find? id = (more.find? id).or (depths.find? id) := by
  have distinct : more.toList.Pairwise fun first second => first.1 ≠ second.1 := by
    refine (Std.TreeMap.distinct_keys_toList (t := more.table)).imp ?_
    intro first second apart same
    exact apart (by simp [same])
  rw [merge, find?_records _ _ _ distinct]
  congr 1
  have noted (depth : Nat) : (id, depth) ∈ more.toList ↔ more.find? id = some depth :=
    Std.TreeMap.mem_toList_iff_getElem?_eq_some
  cases found : more.toList.find? fun entry => entry.1 = id with
  | some entry =>
    obtain ⟨id', depth⟩ := entry
    obtain rfl : id' = id := by simpa using List.find?_some found
    exact ((noted depth).mp (List.mem_of_find?_eq_some found)).symm
  | none =>
    cases missing : more.find? id with
    | none => rfl
    | some depth =>
      have absent := List.find?_eq_none.mp found _ ((noted depth).mpr missing)
      simp at absent

end Depths

/-- The entries after a walk through some sites, compared with the entries before it. -/
structure Entered (sites : List Site) (before after : List Entry) : Prop where
  placed : ∀ site ∈ sites, site.Placed
  entries : after.Perm (sites.filterMap Site.use? ++ before)

namespace Entered

variable {sites more : List Site} {site : Site} {before middle after : List Entry}

theorem nil : Entered [] before before :=
  ⟨by simp, .refl _⟩

theorem append (entered : Entered sites before middle) (entered' : Entered more middle after) :
    Entered (sites ++ more) before after := by
  refine ⟨List.forall_mem_append.mpr ⟨entered.placed, entered'.placed⟩, ?_⟩
  have both := entered'.entries.trans (entered.entries.append_left _)
  rw [List.filterMap_append]
  refine both.trans ?_
  rw [← List.append_assoc]
  exact List.perm_append_comm.append_right _

theorem idle (entered : Entered sites before after) (placed : site.Placed)
    (idle : site.use? = none) : Entered (site :: sites) before after := by
  refine ⟨List.forall_mem_cons.mpr ⟨placed, entered.placed⟩, ?_⟩
  rw [List.filterMap_cons_none idle]
  exact entered.entries

theorem single {new : Option Entry} (placed : site.Placed) (use : site.use? = new) :
    Entered [site] before (new.toList ++ before) := by
  refine ⟨by simpa using placed, ?_⟩
  cases new <;> simp [use]

theorem mem_iff (entered : Entered sites [] after) {entry : Entry} :
    entry ∈ after ↔ ∃ site ∈ sites, site.use? = some entry := by
  rw [entered.entries.mem_iff, List.append_nil, List.mem_filterMap]

theorem of_perm (entered : Entered sites before after) (same : more.Perm sites) :
    Entered more before after :=
  ⟨fun site member => entered.placed site (same.mem_iff.mp member),
    entered.entries.trans ((same.filterMap Site.use?).symm.append_right _)⟩

end Entered

/-- What a walk has seen of some sites and of the declarations of some names. -/
structure Seen (declared : List String) (sites : List Site) (before after : Ledger) : Prop where
  entered : Entered sites before.entries after.entries
  passes : Passes declared before.state after.state
  granted : Covered after.state.Grants sites
  mannered : Covered Site.Mannered sites

namespace Seen

variable {declared others : List String} {sites more : List Site} {site : Site}
  {before middle after : Ledger}

theorem append (seen : Seen declared sites before middle) (seen' : Seen others more middle after) :
    Seen (declared ++ others) (sites ++ more) before after where
  entered := seen.entered.append seen'.entered
  passes := seen.passes.trans seen'.passes
  granted := .both (fun site member => seen'.passes.grants (seen.granted site member)) seen'.granted
  mannered := .both seen.mannered seen'.mannered

theorem move (passes : Passes declared before.state after.state)
    (same : after.entries = before.entries) : Seen declared [] before after :=
  ⟨same ▸ .nil, passes, .nil, .nil⟩

theorem of_perm (seen : Seen declared sites before after) (same : more.Perm sites) :
    Seen declared more before after where
  entered := seen.entered.of_perm same
  passes := seen.passes
  granted site member := seen.granted site (same.mem_iff.mp member)
  mannered site member := seen.mannered site (same.mem_iff.mp member)

theorem cons (seen : Seen declared sites before after) (idle : site.use? = none)
    (mannered : site.Mannered) : Seen declared (site :: sites) before after where
  entered := seen.entered.idle (site.placed_of_idle idle) idle
  passes := seen.passes
  granted := by
    refine .insert (fun _ id name refers => ?_) seen.granted
    rw [site.mention?_of_idle idle] at refers
    cases refers
  mannered := .insert mannered seen.mannered

theorem leave {names : List String}
    (seen : Seen declared sites { before with state := before.state.enter names } after) :
    Seen [] sites before { after with state := after.state.leave } where
  entered := seen.entered
  passes := seen.passes.leave
  granted := seen.granted
  mannered := seen.mannered

end Seen

/-- The scopes of a walk declare what stands around a place. -/
def Agrees (nesting : Nesting) (state : State) : Prop :=
  state.scopes.map Scope.names = nesting.scopes

def Walked (before : Ledger) (nesting : Nesting) (declared : List String) (sites : List Site) :
    Except (Located Fault) Ledger → Prop
  | .error _ => True
  | .ok after => Agrees nesting after.state ∧ Seen declared sites before after

variable {ledger : Ledger} {nesting : Nesting} {hoisted : Dict Unit} {state after : State}

private theorem walked_ok (agrees : Agrees nesting ledger.state) :
    Walked ledger nesting [] [] (.ok ledger) :=
  ⟨agrees, .move (.refl _) rfl⟩

private theorem walked_refuse {before : Ledger} {declared : List String} {sites : List Site}
    (position : Position) (fault : Fault) :
    Walked before nesting declared sites ((bookkeeper hoisted).refuse position fault before) :=
  trivial

theorem strict_bookkeeper (hoisted : Dict Unit) : (bookkeeper hoisted).Strict :=
  fun _ _ _ _ accepts => by cases accepts

namespace Walked

variable {before : Ledger} {middle nesting : Nesting} {declared others : List String}
  {sites more : List Site} {site : Site} {walk : Except (Located Fault) Ledger}
  {next : Ledger → Except (Located Fault) Ledger}

theorem of_ok (walked : ∀ after, walk = .ok after → Walked before nesting declared sites walk) :
    Walked before nesting declared sites walk := by
  cases walk with
  | error fault => trivial
  | ok after => exact walked after rfl

theorem bind (walked : Walked before middle declared sites walk)
    (continues : ∀ ledger, Agrees middle ledger.state →
      Walked ledger nesting others more (next ledger)) :
    Walked before nesting (declared ++ others) (sites ++ more) (walk >>= next) := by
  cases walk with
  | error fault => trivial
  | ok ledger =>
    obtain ⟨agrees, seen⟩ := walked
    have rest := continues ledger agrees
    change Walked before nesting (declared ++ others) (sites ++ more) (next ledger)
    cases result : next ledger with
    | error fault => trivial
    | ok after =>
      rw [result] at rest
      exact ⟨rest.1, seen.append rest.2⟩

theorem bind_ok {move : Ledger → Ledger} (walked : Walked before middle declared sites walk)
    (moves : ∀ ledger, Agrees middle ledger.state →
      Agrees nesting (move ledger).state ∧ Seen [] [] ledger (move ledger)) :
    Walked before nesting declared sites (walk >>= fun ledger => .ok (move ledger)) := by
  cases walk with
  | error fault => trivial
  | ok ledger =>
    obtain ⟨agrees, seen⟩ := moves ledger walked.1
    have both := walked.2.append seen
    rw [List.append_nil, List.append_nil] at both
    exact ⟨agrees, both⟩

theorem leave {names : List String}
    (walked : Walked { before with state := before.state.enter names } middle declared sites walk)
    (agrees : ∀ ledger : Ledger, Agrees middle ledger.state → Agrees nesting ledger.state.leave) :
    Walked before nesting [] sites
      (walk >>= fun ledger => .ok { ledger with state := ledger.state.leave }) := by
  cases walk with
  | error fault => trivial
  | ok ledger => exact ⟨agrees ledger walked.1, walked.2.leave⟩

theorem of_move {move : Ledger} (walked : Walked move nesting declared sites walk)
    (seen : Seen [] [] before move) : Walked before nesting declared sites walk := by
  cases walk with
  | error fault => trivial
  | ok ledger => exact ⟨walked.1, seen.append walked.2⟩

theorem idle {node : Node} {host : Nesting} {place : Place}
    (walked : Walked before nesting declared sites walk) (around : Around host place)
    (idle : Site.use? ⟨host, node⟩ = none) (none : node.functions = []) :
    Walked before nesting declared (⟨host, node⟩ :: sites) walk := by
  cases walk with
  | error fault => trivial
  | ok ledger => exact ⟨walked.1, walked.2.cons idle (around.idle none)⟩

theorem declares (walked : Walked before nesting declared sites walk) (idle : site.use? = none)
    (mannered : ∀ after, walk = .ok after → site.Mannered) :
    Walked before nesting declared (site :: sites) walk := by
  cases walk with
  | error fault => trivial
  | ok ledger => exact ⟨walked.1, walked.2.cons idle (mannered ledger rfl)⟩

theorem of_perm (walked : Walked before nesting declared sites walk) (same : more.Perm sites) :
    Walked before nesting declared more walk := by
  cases walk with
  | error fault => trivial
  | ok ledger => exact ⟨walked.1, walked.2.of_perm same⟩

theorem single {moved : Except (Located Fault) State} {new : Option Entry} (placed : site.Placed)
    (use : site.use? = new) (mannered : site.Mannered)
    (moves : ∀ after, moved = .ok after → Agrees nesting after ∧
      Passes declared before.state after ∧ after.Grants site) :
    Walked before nesting declared [site] (before.carry new moved) := by
  cases moved with
  | error fault => trivial
  | ok after =>
    obtain ⟨agrees, passes, grants⟩ := moves after rfl
    exact ⟨agrees, .single placed use, passes, .insert grants .nil, .insert mannered .nil⟩

end Walked

private theorem depthIn_eq_depthOf (name : String) (scopes : List Scope) :
    State.depthIn name scopes = depthOf name (scopes.map Scope.names) := by
  induction scopes with
  | nil => rfl
  | cons scope outer ih => simp only [State.depthIn, List.map_cons, depthOf, ih]

theorem Agrees.depthIn (agrees : Agrees nesting state) (name : String) :
    State.depthIn name state.scopes = nesting.depth? name := by
  rw [depthIn_eq_depthOf, agrees]
  rfl

theorem Agrees.entry (agrees : Agrees nesting state) (id : RefId) (name : String) :
    state.entry id name = (id, nesting.depth? name) := by
  rw [State.entry, agrees.depthIn]

theorem Agrees.of_frame (agrees : Agrees nesting state)
    (frame : after.globals = state.globals ∧ after.scopes = state.scopes) :
    Agrees nesting after := by
  rw [Agrees, frame.2]
  exact agrees

section References

variable {hoisted : Dict Unit} {nesting : Nesting} {place : Place} {ledger : Ledger} {id : RefId}
  {name : Identifier}

private theorem walked_variable (hoisted : Dict Unit) (node : Node)
    {moved : Except (Located Fault) State} (around : Around nesting place)
    (agrees : Agrees nesting ledger.state)
    (use : Site.use? ⟨nesting, node⟩ = some (id, nesting.depth? name.name))
    (refers : node.mention? = some (id, name.name)) (none : node.functions = [])
    (placed : Site.Placed ⟨nesting, node⟩)
    (binds : ∀ after, moved = .ok after →
      bindName (place.within hoisted) id name ledger.state = .ok after) :
    Walked ledger nesting [] [⟨nesting, node⟩]
      (ledger.carry (ledger.state.entry id name.name) moved) := by
  rw [← agrees.entry] at use
  refine .single placed use (around.idle none) fun after bound => ?_
  have binds := binds after bound
  have outside : nesting.Outside → (place.within hoisted).function = .none := around.outside
  exact ⟨agrees.of_frame (bindName_frame binds), grants_bindName outside refers binds⟩

private theorem walked_word (node : Node) {word : String} (around : Around nesting place)
    (agrees : Agrees nesting ledger.state)
    (use : Site.use? ⟨nesting, node⟩ = some (id, nesting.depth? word))
    (refers : node.mention? = none) (none : node.functions = [])
    (placed : Site.Placed ⟨nesting, node⟩) :
    Walked ledger nesting [] [⟨nesting, node⟩] ((bookkeeper hoisted).word id word ledger) := by
  rw [← agrees.entry] at use
  change Walked _ _ _ _ (ledger.carry (ledger.state.entry id word) (bindWord id word ledger.state))
  refine .single placed use (around.idle none) fun after bound => ?_
  refine ⟨agrees.of_frame (bindWord_frame bound), passes_bindWord bound, ?_⟩
  intro _ other found mentions
  simp [refers] at mentions

end References

private theorem agrees_enter (agrees : Agrees nesting ledger.state) (body : Body) :
    Agrees (.inside body ∅ nesting)
      ({ ledger with state := ledger.state.enter [] } : Ledger).state := by
  have scopes : (ledger.state.enter []).scopes.map Scope.names =
      ∅ :: ledger.state.scopes.map Scope.names := rfl
  rw [Agrees, scopes, agrees, Nesting.scopes_inside]

private theorem agrees_leave {outer : Nesting} (agrees : Agrees nesting state)
    (inner : nesting.scopes.tail = outer.scopes) : Agrees outer state.leave := by
  rw [Agrees, State.leave, List.map_tail, agrees, inner]

private theorem agrees_declare {name : Identifier} (takes : nesting.TakesStatements)
    (agrees : Agrees nesting state) (declares : state.declare name = .ok after) :
    Agrees (nesting.declare name.name) after := by
  unfold State.declare at declares
  cases nesting with
  | top =>
    have none : state.scopes = [] := List.map_eq_nil_iff.mp agrees
    simp only [none, Except.ok.injEq] at declares
    subst declares
    rfl
  | inside body names outer =>
    obtain ⟨scope, rest, scopes, rfl, others⟩ := List.map_eq_cons_iff.mp agrees
    simp only [scopes] at declares
    split at declares
    · cases declares
    · obtain rfl := Except.ok.inj declares
      rw [Agrees, List.map_cons, others]
      rfl
  | fields decl outer => exact takes.elim
  | methods decl outer => exact takes.elim

private theorem walked_declare (hoisted : Dict Unit) (takes : nesting.TakesStatements)
    (agrees : Agrees nesting ledger.state) (name : Identifier) :
    Walked ledger (nesting.declare name.name) [name.name] []
      ((bookkeeper hoisted).declare name ledger) := by
  change Walked _ _ _ _ (ledger.carry none (ledger.state.declare name))
  cases declares : ledger.state.declare name with
  | error fault => trivial
  | ok after => exact ⟨agrees_declare takes agrees declares, .move (passes_declare declares) rfl⟩

private theorem agrees_define (takes : nesting.TakesStatements) (agrees : Agrees nesting state)
    (name : String) : Agrees (nesting.define name) (state.define name) := by
  unfold State.define
  cases nesting with
  | top =>
    have none : state.scopes = [] := List.map_eq_nil_iff.mp agrees
    simp only [none]
    exact agrees
  | inside body names outer =>
    obtain ⟨scope, rest, scopes, rfl, others⟩ := List.map_eq_cons_iff.mp agrees
    simp only [scopes]
    rw [Agrees, List.map_cons, others]
    rfl
  | fields decl outer => exact takes.elim
  | methods decl outer => exact takes.elim

private theorem seen_define (ledger : Ledger) (name : String) :
    Seen [] [] ledger { ledger with state := ledger.state.define name } :=
  .move (passes_define _ name) rfl

private theorem agrees_methods (hoisted : Dict Unit) (decl : ClassDecl Expr Stmt)
    (agrees : Agrees nesting ledger.state) :
    Agrees (.methods decl nesting) ((bookkeeper hoisted).enter ["this"]
      (if decl.superclass.isSome then (bookkeeper hoisted).enter ["super"] ledger
        else ledger)).state := by
  rw [Agrees, Nesting.scopes_methods, ← agrees]
  split <;> rfl

private theorem walked_parameters (hoisted : Dict Unit) (body : Body) (outer : Nesting)
    (parameters : List Parameter) (names : Dict Bool) (ledger : Ledger)
    (agrees : Agrees (.inside body names outer) ledger.state) :
    Walked ledger (.inside body
      (parameters.foldl (fun names parameter => declareNow names parameter.name.name) names) outer)
      (parameters.map fun parameter => parameter.name.name) []
      (walkParameters (bookkeeper hoisted) parameters ledger) := by
  induction parameters generalizing names ledger with
  | nil => exact walked_ok agrees
  | cons parameter rest ih =>
    have takes (names : Dict Bool) : (Nesting.inside body names outer).TakesStatements := trivial
    refine Walked.bind (walked_declare hoisted (takes names) agrees parameter.name)
      fun after agrees' => ?_
    have defined := agrees_define (takes _) agrees' parameter.name.name
    exact (ih _ { after with state := after.state.define parameter.name.name } defined).of_move
      (seen_define after _)

private theorem agrees_recordClass (agrees : Agrees nesting state) (name : String)
    (outline : Outline) : Agrees nesting (state.recordClass name outline) := by
  unfold State.recordClass
  cases scopes : state.scopes with
  | nil => simpa [Agrees, scopes] using agrees
  | cons scope outer => simpa [Agrees, scopes] using agrees

private theorem walked_declareClass {place : Place} (decl : ClassDecl Expr Stmt)
    (around : Around nesting place) (takes : nesting.TakesStatements)
    (agrees : Agrees nesting ledger.state)
    (mannered : Site.Mannered ⟨nesting, .stmt (.classDecl decl)⟩) :
    Walked ledger (nesting.past (.classDecl decl)) [decl.name.name]
      [⟨nesting, .stmt (.classDecl decl)⟩]
      ((bookkeeper hoisted).declareClass place decl ledger) := by
  have use : Site.use? ⟨nesting, .stmt (.classDecl decl)⟩ = ledger.state.parentEntry? decl := by
    unfold State.parentEntry?
    simp only [Site.use?, agrees.entry]
  refine Walked.single trivial use mannered fun after accepts => ⟨?_, ?_⟩
  · obtain ⟨-, bound, declared, binds, declares, rfl⟩ := introduced_of_declareClass accepts
    have bindsAlone : Agrees nesting bound := by
      cases clause : decl.superclass with
      | none =>
        rw [clause] at binds
        obtain rfl : ledger.state = bound := Except.ok.inj binds
        exact agrees
      | some parent =>
        rw [clause] at binds
        exact agrees.of_frame (bindName_frame binds)
    have named := agrees_declare takes bindsAlone declares
    have defined := agrees_define (takes.declare decl.name.name) named decl.name.name
    exact agrees_recordClass defined decl.name.name (outlineOf decl)
  · exact @grants_declareClass (place.within hoisted) _ _ _ _ around.outside rfl accepts

private theorem toList_declaredName? {stmt : Stmt} (idle : stmt.DeclaresNothing) :
    (declaredName? stmt).toList = [] := by
  rw [idle]
  rfl

private theorem toList_bind_declaredName? {stmt : Option Stmt}
    (idle : ∀ found, stmt = some found → found.DeclaresNothing) :
    (stmt.bind declaredName?).toList = [] := by
  cases stmt with
  | none => rfl
  | some stmt => exact toList_declaredName? (idle stmt rfl)

theorem filterMap_declaredName?_cons (stmt : Stmt) (rest : List Stmt) :
    (stmt :: rest).filterMap declaredName? =
      (declaredName? stmt).toList ++ rest.filterMap declaredName? := by
  rw [List.filterMap_cons]
  cases declaredName? stmt <;> rfl

section Walks

variable (hoisted : Dict Unit)

mutual

private theorem walked_expr {nesting : Nesting} {place : Place} {ledger : Ledger}
    (around : Around nesting place) (agrees : Agrees nesting ledger.state) :
    ∀ expr : Expr, Covered Site.Proper (exprSites nesting expr) →
      Walked ledger nesting [] (exprSites nesting expr)
        (walkExpr (bookkeeper hoisted) place expr ledger)
  | .literal value position, _ => (walked_ok agrees).idle around rfl rfl
  | .unary operator operand position, proper | .group operand, proper
  | .property operand name, proper =>
    (walked_expr around agrees operand proper.cons.2).idle around rfl rfl
  | .binary left operator right position, proper | .logical left operator right, proper
  | .setProperty left name right, proper | .index left right position, proper => by
    obtain ⟨properLeft, properRight⟩ := proper.cons.2.append
    exact Walked.idle (.bind (walked_expr around agrees left properLeft)
      fun after agrees' => walked_expr around agrees' right properRight) around rfl rfl
  | .reference id name, _ => by
    refine walked_variable hoisted _ around agrees rfl rfl rfl trivial fun after bound => ?_
    simp only [resolver] at bound
    split at bound
    · cases bound
    · exact bound
  | .assign id name value, proper =>
    Walked.of_perm (.bind (walked_expr around agrees value proper.cons.2) fun after agrees' =>
      walked_variable hoisted (.expr (.assign id name value)) around agrees' rfl rfl rfl trivial
        fun _ bound => bound) (List.perm_append_singleton _ _).symm
  | .call callee position arguments, proper => by
    obtain ⟨properCallee, properArguments⟩ := proper.cons.2.append
    exact Walked.idle (.bind (walked_expr around agrees callee properCallee)
      fun after agrees' => walked_exprs around agrees' arguments properArguments)
      around rfl rfl
  | .setIndex object key value position, proper => by
    rw [exprSites] at proper ⊢
    obtain ⟨properBoth, properValue⟩ := proper.cons.2.append
    obtain ⟨properObject, properKey⟩ := properBoth.append
    rw [List.append_assoc]
    exact Walked.idle (.bind (walked_expr around agrees object properObject)
      fun after agrees' => .bind (walked_expr around agrees' key properKey)
        fun last agrees'' => walked_expr around agrees'' value properValue)
      around rfl rfl
  | .array elements position, proper =>
    (walked_exprs around agrees elements proper.cons.2).idle around rfl rfl
  | .map entries position, proper =>
    (walked_entries around agrees entries proper.cons.2).idle around rfl rfl
  | .this id position, _ => by
    rw [exprSites, walkExpr]
    split
    · exact walked_refuse _ _
    · rename_i inMethod
      exact walked_word _ around agrees rfl rfl rfl
        (by simpa [Site.Placed, ← around.kind] using inMethod)
  | .super id position method, _ => by
    rw [exprSites, walkExpr]
    split
    · exact walked_refuse _ _
    · exact walked_refuse _ _
    · rename_i derived
      exact walked_word _ around agrees rfl rfl rfl
        (by simpa [Site.Placed, ← around.kind] using derived)
  | .lambda decl, proper => by
    have walked := walked_function ledger around.kind around.mannered agrees .function
      decl (around.plain _).symm proper.cons.2
    refine walked.declares rfl fun after accepts => .cons ?_ around.mannered
    exact confined_function (strict_bookkeeper hoisted) nesting place .function decl proper.cons.2
      accepts

private theorem walked_exprs {nesting : Nesting} {place : Place} {ledger : Ledger}
    (around : Around nesting place) (agrees : Agrees nesting ledger.state) :
    ∀ exprs : List Expr, Covered Site.Proper (exprsSites nesting exprs) →
      Walked ledger nesting [] (exprsSites nesting exprs)
        (walkExprs (bookkeeper hoisted) place exprs ledger)
  | [], _ => walked_ok agrees
  | expr :: rest, proper =>
    .bind (walked_expr around agrees expr proper.append.1)
      fun _ agrees' => walked_exprs around agrees' rest proper.append.2

private theorem walked_entries {nesting : Nesting} {place : Place} {ledger : Ledger}
    (around : Around nesting place) (agrees : Agrees nesting ledger.state) :
    ∀ entries : List (Expr × Expr), Covered Site.Proper (entriesSites nesting entries) →
      Walked ledger nesting [] (entriesSites nesting entries)
        (walkEntries (bookkeeper hoisted) place entries ledger)
  | [], _ => walked_ok agrees
  | (key, value) :: rest, proper => by
    rw [entriesSites] at proper ⊢
    obtain ⟨properBoth, properRest⟩ := proper.append
    obtain ⟨properKey, properValue⟩ := properBoth.append
    rw [List.append_assoc]
    exact .bind (walked_expr around agrees key properKey)
      fun after agrees' => .bind (walked_expr around agrees' value properValue)
        fun last agrees'' => walked_entries around agrees'' rest properRest

theorem walked_optional {nesting : Nesting} {place : Place} {ledger : Ledger}
    (around : Around nesting place) (agrees : Agrees nesting ledger.state) :
    ∀ expr : Option Expr, Covered Site.Proper (optionalSites nesting expr) →
      Walked ledger nesting [] (optionalSites nesting expr)
        (walkOptional (bookkeeper hoisted) place expr ledger)
  | none, _ => walked_ok agrees
  | some expr, proper => walked_expr around agrees expr proper

private theorem walked_function {nesting : Nesting} {place : Place} (ledger : Ledger)
    (kind : place.classKind = nesting.classKind) (mannered : Mannered nesting.functions)
    (agrees : Agrees nesting ledger.state) (functionKind : FunctionKind) :
    ∀ decl : FunctionDecl Stmt, functionKind = nesting.bodyKind decl.name.name →
      Covered Site.Proper (functionSites nesting decl) →
      Walked ledger nesting [] (functionSites nesting decl)
        (walkFunction (bookkeeper hoisted) place functionKind decl ledger)
  | ⟨name, parameters, returns, body⟩, fits, proper => by
    refine .of_ok fun last accepts => ?_
    have confined : StmtsConfined functionKind false body := confined_function
      (strict_bookkeeper hoisted) nesting place functionKind ⟨name, parameters, returns, body⟩
      proper accepts
    have entered := agrees_enter agrees (.function ⟨name, parameters, returns, body⟩)
    have inner : Around (.inside (.function ⟨name, parameters, returns, body⟩)
        (parameterNames parameters) nesting) (place.functionBody functionKind) :=
      ⟨⟨.cons (fits ▸ confined) mannered, fun _ => rfl⟩, kind, False.elim⟩
    have walked := (walked_parameters hoisted _ nesting parameters ∅
      { ledger with state := ledger.state.enter [] } entered).bind fun after agrees' =>
        walked_stmts inner trivial agrees' body proper
    have whole := walked.leave fun last agrees' =>
      agrees_leave agrees' (Nesting.scopes_tail_pastAll _ body)
    rwa [bind_assoc] at whole

theorem walked_stmt {nesting : Nesting} {place : Place} {ledger : Ledger}
    (around : Around nesting place) (takes : nesting.TakesStatements)
    (agrees : Agrees nesting ledger.state) :
    ∀ stmt : Stmt, Covered Site.Proper (stmtSites nesting stmt) →
      Walked ledger (nesting.past stmt) (declaredName? stmt).toList (stmtSites nesting stmt)
        (walkStmt (bookkeeper hoisted) place stmt ledger)
  | .expression value, proper => by
    exact (walked_expr around agrees value proper.cons.2).idle around rfl rfl
  | .print keyword values, proper => by
    exact (walked_exprs around agrees values proper.cons.2).idle around rfl rfl
  | .var name typeHint initial, proper => by
    rw [walkStmt]
    refine Walked.idle ?_ around rfl rfl
    cases nesting with
    | top =>
      have flat : (bookkeeper hoisted).nested ledger = false := by
        have none : ledger.state.scopes = [] := List.map_eq_nil_iff.mp agrees
        simp [bookkeeper, resolver, none]
      simp only [flat]
      have walked := Walked.bind (walked_optional around agrees initial
        proper.cons.2) fun after agrees' => walked_declare hoisted takes agrees' name
      rwa [List.append_nil] at walked
    | inside body names outer =>
      have deep : (bookkeeper hoisted).nested ledger = true := by
        obtain ⟨scope, rest, scopes, -, -⟩ := List.map_eq_cons_iff.mp agrees
        simp [bookkeeper, resolver, scopes]
      simp only [deep]
      refine Walked.bind (walked_declare hoisted takes agrees name) fun after agrees' => ?_
      exact Walked.bind_ok
        (walked_optional (around.declare name.name) agrees' initial proper.cons.2)
        fun last agrees'' =>
          ⟨agrees_define (takes.declare name.name) agrees'' name.name, seen_define last _⟩
    | fields decl outer => exact takes.elim
    | methods decl outer => exact takes.elim
  | .block body, proper => by
    refine Walked.idle ?_ around rfl rfl
    have entered := agrees_enter agrees (.block body)
    exact (walked_stmts (around.inside rfl id) trivial
      entered body proper.cons.2).leave fun after agrees' =>
        agrees_leave agrees' (Nesting.scopes_tail_pastAll _ body)
  | .branch condition whenTrue whenFalse, proper => by
    obtain ⟨properBoth, properFalse⟩ := proper.cons.2.append
    obtain ⟨properCondition, properTrue⟩ := properBoth.append
    obtain ⟨idleTrue, idleFalse⟩ := proper.cons.1.2
    refine Walked.idle ?_ around rfl rfl
    rw [List.append_assoc]
    refine Walked.bind (walked_expr around agrees condition properCondition)
      fun after agrees' => ?_
    have first := walked_stmt around takes agrees' whenTrue properTrue
    rw [Nesting.past_eq_self idleTrue, toList_declaredName? idleTrue] at first
    refine Walked.bind first fun last agrees'' => ?_
    have second := walked_optionalStmt around takes agrees'' whenFalse properFalse
    rwa [Nesting.pastOptional_eq_self idleFalse, toList_bind_declaredName? idleFalse] at second
  | .loop condition body, proper => by
    obtain ⟨properCondition, properBody⟩ := proper.cons.2.append
    refine Walked.idle ?_ around rfl rfl
    refine Walked.bind (walked_expr around agrees condition properCondition)
      fun after agrees' => ?_
    have walked := walked_stmt around.loopBody takes agrees' body
      properBody
    rwa [Nesting.past_eq_self proper.cons.1.2, toList_declaredName? proper.cons.1.2] at walked
  | .countedLoop initial condition increment body, proper => by
    obtain ⟨properThree, properBody⟩ := proper.cons.2.append
    obtain ⟨properTwo, properIncrement⟩ := properThree.append
    obtain ⟨properInitial, properCondition⟩ := properTwo.append
    refine Walked.idle ?_ around rfl rfl
    simp only [List.append_assoc]
    have entered := agrees_enter agrees (.countedLoop initial condition increment body)
    set inner := Nesting.inside (.countedLoop initial condition increment body) ∅ nesting with made
    have takes' : inner.TakesStatements := trivial
    have around' : Around inner place := around.inside rfl id
    have begun := around'.pastOptional initial
    have walked := (walked_optionalStmt around' takes' entered initial
      properInitial).bind fun second agrees₂ =>
        (walked_optional begun agrees₂ condition properCondition).bind
          fun third agrees₃ => (walked_optional begun agrees₃ increment
            properIncrement).bind fun fourth agrees₄ => walked_stmt
              begun.loopBody (takes'.pastOptional initial) agrees₄ body properBody
    have whole := walked.leave fun last agrees₅ => agrees_leave agrees₅ <| by
      rw [Nesting.scopes_tail_past, Nesting.scopes_tail_pastOptional]
      rfl
    simp only [bind_assoc] at whole
    exact whole
  | .function ⟨name, parameters, returns, body⟩, proper => by
    have after := around.past (.function ⟨name, parameters, returns, body⟩)
    refine .of_ok fun last accepts => ?_
    obtain ⟨middle, -, inside⟩ := ok_of_bind accepts
    have confined := confined_function (strict_bookkeeper hoisted) _ place .function
      ⟨name, parameters, returns, body⟩ proper.cons.2 inside
    refine Walked.declares ?_ rfl fun _ _ => .cons confined around.mannered
    refine Walked.bind (walked_declare hoisted takes agrees name) fun ledger' agrees' => ?_
    have defined := agrees_define (takes.declare name.name) agrees' name.name
    exact (walked_function { ledger' with state := ledger'.state.define name.name } after.kind
      after.mannered defined .function ⟨name, parameters, returns, body⟩ (after.plain _).symm
      proper.cons.2).of_move (seen_define ledger' _)
  | .returnValue keyword value, proper => by
    have walked := walked_optional around agrees value proper.cons.2
    simp only [walkStmt]
    split
    · exact walked_refuse _ _
    · exact walked_refuse _ _
    · exact walked.idle around rfl rfl
  | .breakLoop keyword, _ | .continueLoop keyword, _ => by
    rw [stmtSites, walkStmt]
    split
    · exact (walked_ok agrees).idle around rfl rfl
    · exact walked_refuse _ _
  | .classDecl ⟨name, superclass, fields, methods⟩, proper => by
    set decl : ClassDecl Expr Stmt := ⟨name, superclass, fields, methods⟩ with made
    obtain ⟨properFields, properMethods⟩ := proper.cons.2.append
    have after := around.past (.classDecl decl)
    refine .of_ok fun last accepts => ?_
    obtain ⟨second, -, rest⟩ := ok_of_bind accepts
    obtain ⟨third, -, rest⟩ := ok_of_bind rest
    obtain ⟨fourth, inside, -⟩ := ok_of_bind rest
    have confined := confined_methods (strict_bookkeeper hoisted) _ _ methods properMethods inside
    have mannered : Site.Mannered ⟨nesting, .stmt (.classDecl decl)⟩ := by
      refine .append (fun kind method member => ?_) around.mannered
      obtain ⟨found, isMethod, same⟩ := List.mem_map.mp member
      obtain ⟨rfl, rfl⟩ := Prod.mk.inj same
      exact confined found isMethod
    refine Walked.bind (walked_declareClass decl around takes agrees mannered)
      fun ledger' agrees' => ?_
    have inFields : Around (.fields decl (nesting.past (.classDecl decl))) place :=
      ⟨⟨after.mannered, fun _ => rfl⟩, after.kind, after.outside⟩
    refine Walked.bind (walked_fields inFields agrees' fields properFields)
      fun between agrees'' => ?_
    have outside : Agrees (nesting.past (.classDecl decl)) between.state := agrees''
    have walked := walked_methods (.methods decl (nesting.past (.classDecl decl)))
      (place.methods superclass.isSome) _ rfl after.mannered (fun _ => rfl)
      (agrees_methods hoisted decl outside) methods properMethods
    -- The methods stand in one or two scopes of their own.
    cases superclass with
    | none => exact walked.leave fun last agrees₃ => agrees_leave agrees₃ rfl
    | some parent =>
      have inner : Walked _ (.inside (.block []) (wordNames "super")
          (nesting.past (.classDecl decl))) [] _ _ :=
        walked.leave fun last agrees₃ => agrees_leave agrees₃ rfl
      have whole := inner.leave fun last agrees₄ => agrees_leave agrees₄ rfl
      rwa [bind_assoc] at whole

theorem walked_stmts {nesting : Nesting} {place : Place} {ledger : Ledger}
    (around : Around nesting place) (takes : nesting.TakesStatements)
    (agrees : Agrees nesting ledger.state) :
    ∀ stmts : List Stmt, Covered Site.Proper (stmtsSites nesting stmts) →
      Walked ledger (nesting.pastAll stmts) (stmts.filterMap declaredName?)
        (stmtsSites nesting stmts)
        (walkStmts (bookkeeper hoisted) place stmts ledger)
  | [], _ => walked_ok agrees
  | stmt :: rest, proper => by
    rw [walkStmts, filterMap_declaredName?_cons]
    exact .bind (walked_stmt around takes agrees stmt proper.append.1)
      fun after agrees' => walked_stmts (around.past stmt)
        (takes.past stmt) agrees' rest proper.append.2

private theorem walked_optionalStmt {nesting : Nesting} {place : Place} {ledger : Ledger}
    (around : Around nesting place) (takes : nesting.TakesStatements)
    (agrees : Agrees nesting ledger.state) :
    ∀ stmt : Option Stmt, Covered Site.Proper (optionalStmtSites nesting stmt) →
      Walked ledger (nesting.pastOptional stmt) (stmt.bind declaredName?).toList
        (optionalStmtSites nesting stmt)
        (walkOptionalStmt (bookkeeper hoisted) place stmt ledger)
  | none, _ => walked_ok agrees
  | some stmt, proper => walked_stmt around takes agrees stmt proper

private theorem walked_fields {nesting : Nesting} {place : Place} {ledger : Ledger}
    (around : Around nesting place) (agrees : Agrees nesting ledger.state) :
    ∀ fields : List (FieldDecl Expr), Covered Site.Proper (fieldsSites nesting fields) →
      Walked ledger nesting [] (fieldsSites nesting fields)
        (walkFields (bookkeeper hoisted) place fields ledger)
  | [], _ => walked_ok agrees
  | ⟨_, _, _, initial⟩ :: rest, proper =>
    .bind (walked_optional around agrees initial proper.append.1)
      fun _ agrees' => walked_fields around agrees' rest proper.append.2

private theorem walked_methods (nesting : Nesting) (place : Place) (ledger : Ledger)
    (kind : place.classKind = nesting.classKind) (mannered : Mannered nesting.functions)
    (kinds : ∀ name, nesting.bodyKind name = methodKind name)
    (agrees : Agrees nesting ledger.state) :
    ∀ methods : List (MethodDecl Stmt), Covered Site.Proper (methodsSites nesting methods) →
      Walked ledger nesting [] (methodsSites nesting methods)
        (walkMethods (bookkeeper hoisted) place methods ledger)
  | [], _ => walked_ok agrees
  | ⟨_, _, ⟨name, parameters, returns, body⟩⟩ :: rest, proper =>
    .bind (walked_function ledger kind mannered agrees _ ⟨name, parameters, returns, body⟩
        (kinds _).symm proper.append.1) fun after agrees' =>
      walked_methods nesting place after kind mannered kinds agrees' rest proper.append.2

end

end Walks

end Binding

/-- What reading and binding guarantee of a site, given the depths that were noted. -/
structure Site.Sound (depths : Binding.Depths) (site : Site) : Prop where
  proper : site.Proper
  placed : site.Placed
  recorded : ∀ id depth, site.use? = some (id, depth) → depths.find? id = depth

namespace Binding

theorem Entered.sound {sites : List Site} {ledger : Ledger} {first limit : Nat}
    (entered : Entered sites [] ledger.entries) (kept : ledger.Kept)
    (tidy : Tidy first limit sites) :
    (∀ site ∈ sites, site.Sound ledger.state.depths) ∧
      ∀ (id : Nat) depth, ledger.state.depths.find? id = some depth → first ≤ id ∧ id < limit := by
  have origin (id : RefId) (depth : Nat) (noted : ledger.state.depths.find? id = some depth) :
      ∃ site ∈ sites, site.use? = some (id, some depth) :=
    entered.mem_iff.mp (kept.origin id depth noted)
  refine ⟨?_, ?_⟩
  · intro site member
    refine ⟨tidy.proper site member, entered.placed site member, ?_⟩
    intro id depth use
    cases noted : ledger.state.depths.find? id with
    | some found =>
      obtain ⟨other, member', use'⟩ := origin id found noted
      exact tidy.alike other member' site member id _ _ use' use
    | none =>
      cases depth with
      | none => rfl
      | some depth =>
        have covered := kept.covers id depth (entered.mem_iff.mpr ⟨site, member, use⟩)
        simp [noted] at covered
  · intro id depth noted
    obtain ⟨site, member, use⟩ := origin id depth noted
    exact tidy.range site member id _ use

section Texts

variable {globals : Globals} {program : List Stmt} {expr : Expr} {resolution : Resolution}

theorem around_top (hoisted : Dict Unit) : Around .top (.top hoisted) :=
  ⟨hosts_top, rfl, fun _ => rfl⟩

theorem ledger_of_resolveProgram (proper : Covered Site.Proper (stmtsSites .top program))
    (accepted : resolveProgram globals program = .ok resolution) :
    ∃ ledger, ledgerOfProgram globals program = .ok ledger ∧ ledger.Kept ∧
      resolution = { depths := ledger.state.depths, globals := ledger.state.globals } ∧
      Agrees (Nesting.top.pastAll program) ledger.state ∧
      Seen (program.filterMap declaredName?) (stmtsSites .top program) (.start globals) ledger := by
  obtain ⟨state, resolved, rfl⟩ := resolveProgram_ok accepted
  obtain ⟨ledger, walk, rfl, kept⟩ :=
    ledger_of_resolveStmts (hoistedNames program) (.top (hoistedNames program)) resolved
  have agrees : Agrees .top (Ledger.start globals).state := rfl
  have walked := walked_stmts (hoistedNames program) (around_top (hoistedNames program)) trivial
    agrees program proper
  rw [walk] at walked
  exact ⟨ledger, walk, kept, rfl, walked⟩

theorem ledger_of_resolveLone (proper : Covered Site.Proper (exprSites .top expr))
    (accepted : resolveLone globals expr = .ok resolution) :
    ∃ ledger, ledgerOfLone globals expr = .ok ledger ∧ ledger.Kept ∧
      resolution = { depths := ledger.state.depths, globals := ledger.state.globals } ∧
      Seen [] (exprSites .top expr) (.start globals) ledger := by
  obtain ⟨state, resolved, rfl⟩ := resolveLone_ok accepted
  obtain ⟨ledger, walk, rfl, kept⟩ := ledger_of_resolveExpr ∅ (.top ∅) resolved
  have agrees : Agrees .top (Ledger.start globals).state := rfl
  have walked := walked_expr ∅ (around_top ∅) agrees expr proper
  rw [walk] at walked
  exact ⟨ledger, walk, kept, rfl, walked.2⟩

theorem sound_of_resolveProgram {first limit : Nat}
    (tidy : Tidy first limit (stmtsSites .top program))
    (accepted : resolveProgram globals program = .ok resolution) :
    (∀ site ∈ stmtsSites .top program, site.Sound resolution.depths) ∧
      ∀ (id : Nat) depth, resolution.depths.find? id = some depth → first ≤ id ∧ id < limit := by
  obtain ⟨ledger, -, kept, rfl, -, seen⟩ := ledger_of_resolveProgram tidy.proper accepted
  exact seen.entered.sound kept tidy

end Texts

end Binding

end ClassScript
