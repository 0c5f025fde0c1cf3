import ClassScript.Proofs.Chronicle

/-!
The tables of a class and the chain of its ancestors, which agree whatever classes a session has
declared.
-/

set_option autoImplicit false

namespace ClassScript

open Run

namespace Run

/-- The classes from a class to the root, each followed by the one it inherits from. -/
inductive Ascent (store : Store) : ClassRef → List ClassRef → Prop
  | root {ref : ClassRef} {found : ClassObject} (stored : store.classes[ref]? = some found)
    (alone : found.superclass = none) : Ascent store ref [ref]
  | above {ref parent : ClassRef} {found : ClassObject} {chain : List ClassRef}
    (stored : store.classes[ref]? = some found) (inherits : found.superclass = some parent)
    (rest : Ascent store parent chain) : Ascent store ref (ref :: chain)

/-- The first class of a chain that has something of its own, and what it has. -/
def firstWith {α : Type} (store : Store) (own : ClassObject → Option α) (chain : List ClassRef) :
    Option (ClassRef × α) :=
  chain.findSome? fun ref => (store.classes[ref]?.bind own).map fun what => (ref, what)

private theorem Ascent.nearest {α : Type} {store : Store} {ref : ClassRef} {chain : List ClassRef}
    (ascent : Ascent store ref chain) (own : ClassObject → Option α) :
    Nearest store own ref (firstWith store own chain) := by
  induction ascent with
  | @root ref found stored alone =>
    cases has : own found with
    | some what =>
      have first : firstWith store own [ref] = some (ref, what) := by
        simp [firstWith, stored, has]
      exact first ▸ .here stored has
    | none =>
      have first : firstWith store own [ref] = none := by
        simp [firstWith, stored, has]
      exact first ▸ .root stored has alone
  | @above ref parent found chain stored inherits rest ih =>
    cases has : own found with
    | some what =>
      have first : firstWith store own (ref :: chain) = some (ref, what) := by
        simp [firstWith, stored, has]
      exact first ▸ .here stored has
    | none =>
      have first : firstWith store own (ref :: chain) = firstWith store own chain := by
        simp [firstWith, stored, has]
      exact first ▸ .above stored has inherits ih

section Chains

variable {scene : Scene} {ref : ClassRef}

theorem Formed.ascent (formed : Formed scene) (inside : ref < scene.store.classes.size) :
    ∀ bound, ref < bound → Ascent scene.store ref (scene.store.chainFrom bound ref) := by
  induction ref using Nat.strongRecOn with
  | ind ref ih =>
    intro bound enough
    obtain ⟨bound, rfl⟩ := Nat.exists_eq_succ_of_ne_zero (Nat.ne_zero_of_lt enough)
    have stored := Array.getElem?_eq_getElem inside
    rw [Store.chainFrom, stored]
    generalize scene.store.classes[ref] = found at stored
    obtain ⟨decl, superclass, scope, fields, methods⟩ := found
    cases superclass with
    | none => exact .root stored rfl
    | some parent =>
      have older : parent < ref := formed.older ref _ parent stored rfl
      exact .above stored rfl (ih parent older (Nat.lt_trans older inside) bound
        (Nat.lt_of_lt_of_le older (Nat.lt_succ_iff.mp enough)))

theorem Formed.pairwise_ascent (formed : Formed scene) {chain : List ClassRef}
    (ascent : Ascent scene.store ref chain) :
    (∀ ancestor ∈ chain, ancestor ≤ ref) ∧
      chain.Pairwise fun younger older : Nat => older < younger := by
  induction ascent with
  | root => simp
  | @above ref parent found chain stored inherits rest ih =>
    obtain ⟨most, sorted⟩ := ih
    have older : parent < ref := formed.older ref found parent stored inherits
    have below : ∀ ancestor ∈ chain, ancestor < ref := fun ancestor member =>
      Nat.lt_of_le_of_lt (most ancestor member) older
    refine ⟨List.forall_mem_cons.mpr ⟨Nat.le_refl _, ?_⟩, List.pairwise_cons.mpr ⟨below, sorted⟩⟩
    exact fun ancestor member => Nat.le_of_lt (below ancestor member)

theorem Formed.nodup_ascent (formed : Formed scene) {chain : List ClassRef}
    (ascent : Ascent scene.store ref chain) : chain.Nodup :=
  (formed.pairwise_ascent ascent).2.imp fun older => Nat.ne_of_gt older

end Chains

end Run

/-- The store of the session, or the store at some moment of what the session is asked next. -/
def Chronicle.Shows (chronicle : Chronicle) (store : Store) : Prop :=
  store = chronicle.session.machine.store ∨
    ∃ steps input, ∃ moment ∈ (chronicle.ask steps input).1.moments, store = moment.machine.store

theorem Chronicle.Reached.formed {chronicle : Chronicle} (reached : chronicle.Reached)
    {store : Store} (shows : chronicle.Shows store) : ∃ origins, Formed { origins, store } := by
  rcases shows with rfl | ⟨steps, input, moment, member, rfl⟩
  · exact ⟨chronicle.notes.origins, reached.sound.tended.formed trivial⟩
  · have live := (reached.asked steps input).logged.live moment member
    exact ⟨moment.origins, live.tended.formed trivial⟩

/-- In whatever a session is asked, at rest and at every moment, the tables of every class hold what
the first class on the chain to the root declares: a method with that class as its owner and in the
scope of the methods of that class, a field with its visibility there. The lineage is this chain,
the root first and no class twice, and a class is a subclass of those in its lineage. -/
theorem class_tables_follow_ascent {chronicle : Chronicle} (reached : chronicle.Reached)
    {store : Store} (shows : chronicle.Shows store) :
    ∃ methodScope : ClassRef → ScopeRef, ∀ (ref : Nat) found, store.classes[ref]? = some found →
      MethodScope store found (methodScope ref) ∧
      ∃ chain, Ascent store ref chain ∧ chain.Nodup ∧ store.lineage ref = chain.reverse ∧
        (∀ other, store.isSubclass ref other = true ↔ other ∈ store.lineage ref) ∧
        ∀ name,
          found.methods.find? name = (firstWith store (ownMethod name) chain).map (fun first =>
            Store.methodEntry first.1 (methodScope first.1) first.2) ∧
          found.fields.find? name = (firstWith store (ownField name) chain).map (fun first =>
            { visibility := first.2.visibility, owner := first.1 }) := by
  obtain ⟨origins, formed⟩ := reached.formed shows
  obtain ⟨methodScope, both⟩ := formed.exists_methodScopes
  refine ⟨methodScope, fun ref found stored => ⟨(both ref found stored).2, ?_⟩⟩
  have inside : ref < store.classes.size := (Array.getElem?_eq_some_iff.mp stored).1
  have ascent := formed.ascent inside _ inside
  refine ⟨_, ascent, formed.nodup_ascent ascent, rfl, ?_, fun name => ⟨?_, ?_⟩⟩
  · intro other
    simp [Store.isSubclass, Store.lineage]
  · exact (ascent.nearest (ownMethod name)).find?_methods
      (fun ref found stored => (both ref found stored).1) stored
  · exact formed.find?_fields stored (ascent.nearest (ownField name))

def threeLevels : Input :=
  .program "class A { protected var x = 1; virtual fn g() -> 1; }
    class B extends A { private var y = 2; } class C extends B { override fn g() -> 3; }"

def ClassObject.methodOwner? (found : ClassObject) (name : String) : Option ClassRef :=
  (found.methods.find? name).map fun method => method.member.owner

/-- On its chain, the class in the middle finds the method at the root, the last class its own. -/
theorem three_levels_follow_ascent :
    ∃ chronicle : Chronicle, chronicle.Reached ∧ ∀ pair ∈ [(1, 0), (2, 2)], ∃ chain method,
      Ascent chronicle.session.machine.store pair.1 chain ∧
        firstWith chronicle.session.machine.store (ownMethod "g") chain =
          some (pair.2, method) := by
  have owners : ((Session.start {} (fun _ => 0) .capturing).respond 60 threeLevels).session?.any
      (fun after => [(1, 0), (2, 2)].all fun pair : ClassRef × ClassRef =>
        after.machine.store.classes[pair.1]?.any fun found =>
          found.methodOwner? "g" == some pair.2) = true := by
    decide +kernel
  obtain ⟨after, answer, all⟩ := Option.any_eq_true _ _ |>.mp owners
  have reached := (Chronicle.Reached.start {} (fun _ => 0) .capturing).answered answer
  obtain ⟨methodScope, follows⟩ := class_tables_follow_ascent reached (.inl rfl)
  refine ⟨_, reached, fun pair member => ?_⟩
  obtain ⟨found, stored, owner⟩ :=
    Option.any_eq_true _ _ |>.mp (List.all_eq_true.mp all pair member)
  obtain ⟨-, chain, ascent, -, -, -, looked⟩ := follows pair.1 found stored
  have first := (looked "g").1
  rw [beq_iff_eq, ClassObject.methodOwner?, first] at owner
  obtain ⟨method, isFirst⟩ := by simpa [Store.methodEntry] using owner
  exact ⟨chain, method, ascent, isFirst⟩

end ClassScript
