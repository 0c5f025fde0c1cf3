import ClassScript.Proofs.Nesting
import ClassScript.Session
import Mathlib.Order.Basic
import Mathlib.Tactic.Tauto

/-!
Numbers of references in a tree: which range they are from, and that occurrences with one number
find their name equally many scopes out wherever the tree stands.
-/

set_option autoImplicit false

namespace ClassScript

/-- The name can be declared without getting in the way of `this` and `super`. -/
def PlainName (name : String) : Prop :=
  name ≠ "this" ∧ name ≠ "super"

/-- No body around the place declares `this` or `super`. -/
def Nesting.Plain : Nesting → Prop
  | .top => True
  | .inside _ names outer =>
    names.contains "this" = false ∧ names.contains "super" = false ∧ outer.Plain
  | .fields _ outer | .methods _ outer => outer.Plain

def Stmt.DeclaresNothing (stmt : Stmt) : Prop :=
  Binding.declaredName? stmt = none

def Stmt.BeginsLoop : Stmt → Prop
  | .var _ _ _ | .expression _ => True
  | _ => False

/-- What reading guarantees of an expression or a statement by itself. -/
def Node.Proper : Node → Prop
  | .expr (.reference _ name) => PlainName name.name
  | .expr (.assign _ name _) => PlainName name.name
  | .stmt (.var name _ _) => PlainName name.name
  | .stmt (.function decl) => PlainName decl.name.name
  | .stmt (.classDecl decl) => PlainName decl.name.name
  | .stmt (.branch _ whenTrue whenFalse) =>
    whenTrue.DeclaresNothing ∧ ∀ stmt, whenFalse = some stmt → stmt.DeclaresNothing
  | .stmt (.loop _ body) => body.DeclaresNothing
  | .stmt (.countedLoop initial _ _ body) =>
    body.DeclaresNothing ∧ ∀ stmt, initial = some stmt → stmt.BeginsLoop
  | _ => True

namespace Site

def Proper (site : Site) : Prop :=
  site.nesting.Plain ∧ site.node.Proper

def use? (site : Site) : Option (RefId × Option Nat) :=
  match site.node with
  | .expr (.reference id name) => some (id, site.nesting.depth? name.name)
  | .expr (.assign id name _) => some (id, site.nesting.depth? name.name)
  | .expr (.this id _) => some (id, site.nesting.depth? "this")
  | .expr (.super id _ _) => some (id, site.nesting.depth? "super")
  | .stmt (.classDecl decl) =>
    decl.superclass.map fun parent => (parent.id, site.nesting.depth? parent.name.name)
  | _ => none

end Site

structure Tidy (first limit : Nat) (sites : List Site) : Prop where
  proper : ∀ site ∈ sites, site.Proper
  range : ∀ site ∈ sites, ∀ (id : Nat) depth, site.use? = some (id, depth) → first ≤ id ∧ id < limit
  alike : ∀ site ∈ sites, ∀ other ∈ sites, ∀ id depth depth',
    site.use? = some (id, depth) → other.use? = some (id, depth') → depth = depth'

namespace Tidy

variable {first middle limit : Nat} {sites more : List Site} {site : Site}

theorem nil : Tidy first limit [] :=
  ⟨by simp, by simp, by simp⟩

theorem of_mem (tidy : Tidy first limit sites)
    (known : ∀ site ∈ more, site ∈ sites ∨ (site.Proper ∧ site.use? = none)) :
    Tidy first limit more := by
  have used : ∀ site ∈ more, ∀ id depth, site.use? = some (id, depth) → site ∈ sites := by
    intro site member id depth use
    rcases known site member with old | ⟨_, idle⟩
    · exact old
    · simp [idle] at use
  refine ⟨?_, ?_, ?_⟩
  · intro site member
    rcases known site member with old | ⟨proper, _⟩
    · exact tidy.proper site old
    · exact proper
  · intro site member id depth use
    exact tidy.range site (used site member id depth use) id depth use
  · intro site member other member' id depth depth' use use'
    exact tidy.alike site (used site member id depth use) other
      (used other member' id depth' use') id depth depth' use use'

theorem append (tidy : Tidy first middle sites) (tidy' : Tidy middle limit more)
    (before : first ≤ middle) (after : middle ≤ limit) : Tidy first limit (sites ++ more) := by
  refine ⟨?_, ?_, ?_⟩
  · intro site member
    rcases List.mem_append.mp member with left | right
    · exact tidy.proper site left
    · exact tidy'.proper site right
  · intro site member id depth use
    rcases List.mem_append.mp member with left | right
    · have := tidy.range site left id depth use
      omega
    · have := tidy'.range site right id depth use
      omega
  · -- numbers on the two sides are apart, so equal ones stand on one side
    intro site member other member' id depth depth' use use'
    rcases List.mem_append.mp member with left | right
    · have low := tidy.range site left id depth use
      rcases List.mem_append.mp member' with left' | right'
      · exact tidy.alike site left other left' id depth depth' use use'
      · have := tidy'.range other right' id depth' use'
        omega
    · have high := tidy'.range site right id depth use
      rcases List.mem_append.mp member' with left' | right'
      · have := tidy.range other left' id depth' use'
        omega
      · exact tidy'.alike site right other right' id depth depth' use use'

theorem single {depth : Option Nat} (proper : site.Proper)
    (use : site.use? = some (first, depth)) : Tidy first (first + 1) [site] := by
  refine ⟨?_, ?_, ?_⟩
  · intro other member
    exact List.mem_singleton.mp member ▸ proper
  · intro other member id depth' use'
    rw [List.mem_singleton.mp member, use] at use'
    simp only [Option.some.injEq, Prod.mk.injEq] at use'
    omega
  · intro other member last member' id depth' depth'' use' use''
    rw [List.mem_singleton.mp member] at use'
    rw [List.mem_singleton.mp member', use'] at use''
    simpa using use''

theorem cons (tidy : Tidy first limit sites) (proper : site.Proper) (idle : site.use? = none) :
    Tidy first limit (site :: sites) := by
  apply tidy.of_mem
  intro other member
  rcases List.mem_cons.mp member with rfl | old
  · exact .inr ⟨proper, idle⟩
  · exact .inl old

end Tidy

def Numbered (first limit : Nat) (sites : Nesting → List Site) : Prop :=
  ∀ nesting, nesting.Plain → Tidy first limit (sites nesting)

namespace Numbered

variable {first middle limit : Nat} {sites more : Nesting → List Site}

theorem append (numbered : Numbered first middle sites) (numbered' : Numbered middle limit more)
    (before : first ≤ middle) (after : middle ≤ limit) :
    Numbered first limit fun nesting => sites nesting ++ more nesting :=
  fun nesting plain => (numbered nesting plain).append (numbered' nesting plain) before after

theorem of_mem (numbered : Numbered first limit sites)
    (known : ∀ nesting, nesting.Plain → ∀ site ∈ more nesting,
      site ∈ sites nesting ∨ (site.Proper ∧ site.use? = none)) : Numbered first limit more :=
  fun nesting plain => (numbered nesting plain).of_mem (known nesting plain)

theorem nil : Numbered first limit fun _ => [] :=
  fun _ _ => .nil

theorem node {node : Node} (numbered : Numbered first limit sites) (proper : node.Proper)
    (idle : ∀ nesting, Site.use? ⟨nesting, node⟩ = none) :
    Numbered first limit fun nesting => ⟨nesting, node⟩ :: sites nesting :=
  fun nesting plain => (numbered nesting plain).cons ⟨plain, proper⟩ (idle nesting)

theorem single {node : Node} {depth : Nesting → Option Nat} (proper : node.Proper)
    (use : ∀ nesting, Site.use? ⟨nesting, node⟩ = some (first, depth nesting)) :
    Numbered first (first + 1) fun nesting => [⟨nesting, node⟩] :=
  fun nesting plain => .single ⟨plain, proper⟩ (use nesting)

theorem moved {move : Nesting → Nesting} (numbered : Numbered first limit sites)
    (plain : ∀ nesting, nesting.Plain → (move nesting).Plain) :
    Numbered first limit fun nesting => sites (move nesting) :=
  fun nesting outer => numbered (move nesting) (plain nesting outer)

end Numbered

private theorem contains_insert_eq_false {names : Dict Bool} {name word : String} {complete : Bool}
    (absent : names.contains word = false) (different : word ≠ name) :
    (names.insert name complete).contains word = false := by
  simpa [Dict.contains, Dict.find?_insert_of_ne different] using absent

theorem Nesting.Plain.insert {body : Body} {names : Dict Bool} {outer : Nesting} {name : String}
    (plain : (inside body names outer).Plain) (allowed : PlainName name) (complete : Bool) :
    (inside body (names.insert name complete) outer).Plain :=
  ⟨contains_insert_eq_false plain.1 allowed.1.symm,
    contains_insert_eq_false plain.2.1 allowed.2.symm, plain.2.2⟩

theorem Nesting.Plain.declare {nesting : Nesting} (plain : nesting.Plain) {name : String}
    (allowed : PlainName name) : (nesting.declare name).Plain := by
  cases nesting with
  | inside body names outer => exact plain.insert allowed false
  | _ => exact plain

theorem Nesting.Plain.define {nesting : Nesting} (plain : nesting.Plain) {name : String}
    (allowed : PlainName name) : (nesting.define name).Plain := by
  cases nesting with
  | inside body names outer => exact plain.insert allowed true
  | _ => exact plain

private theorem parameterNames_absent {word : String} {parameters : List Parameter}
    (allowed : ∀ parameter ∈ parameters, word ≠ parameter.name.name) :
    (parameterNames parameters).contains word = false := by
  suffices general : ∀ names : Dict Bool, names.contains word = false →
      (parameters.foldl (fun names parameter => declareNow names parameter.name.name)
        names).contains word = false from general ∅ rfl
  induction parameters with
  | nil => exact fun _ absent => absent
  | cons parameter rest ih =>
    intro names absent
    have different := allowed parameter List.mem_cons_self
    exact ih (fun other member => allowed other (List.mem_cons_of_mem _ member)) _
      (contains_insert_eq_false (contains_insert_eq_false absent different) different)

theorem Nesting.Plain.parameters {nesting : Nesting} (plain : nesting.Plain) (body : Body)
    {parameters : List Parameter}
    (allowed : ∀ parameter ∈ parameters, PlainName parameter.name.name) :
    (Nesting.inside body (parameterNames parameters) nesting).Plain :=
  ⟨parameterNames_absent fun parameter member => (allowed parameter member).1.symm,
    parameterNames_absent fun parameter member => (allowed parameter member).2.symm, plain⟩

theorem Nesting.Plain.past {nesting : Nesting} (plain : nesting.Plain) {stmt : Stmt}
    (proper : (Node.stmt stmt).Proper) : (nesting.past stmt).Plain := by
  cases stmt with
  | var name typeHint initial | function decl | classDecl decl =>
    exact (plain.declare proper).define proper
  | _ => exact plain

end ClassScript
