import ClassScript.Proofs.Wholeness

/-!
How a run that takes notes may end: its moments are live and follow upon one another, the store is
coherent and keeps to the terms of the run, and the value is as expected.
-/

set_option autoImplicit false

namespace ClassScript

def Node.sitesAt (nesting : Nesting) : Node → List Site
  | .expr found => exprSites nesting found
  | .stmt found => stmtSites nesting found

theorem Node.mem_sitesAt_self (nesting : Nesting) (node : Node) :
    ⟨nesting, node⟩ ∈ node.sitesAt nesting := by
  cases node with
  | expr found => exact mem_exprSites_self _ _
  | stmt found => exact mem_stmtSites_self _ _

namespace Run

/-- The rules have the depths of all references in the text. -/
def Rules.Suits (rules : Rules) (text : Site → Prop) : Prop :=
  ∀ site, text site → site.Sound rules.depths

/-- At a moment of an accepted text, the machine stands at the spot of a site of that text. -/
structure Moment.Sound (text : Site → Prop) (moment : Moment) : Prop where
  site : text moment.site
  standing : Standing moment.origins moment.machine moment.spot
  tables : TablesFit moment.machine.store
  completed : ∀ ref name, (ref, name) ∈ moment.completed →
    (moment.machine.store.getHere? ref name).isSome

def Phase.operands : Phase → List Value
  | .begins => []
  | .acts operands => operands

/-- The class or function that a value means exists, and an instance has all of its fields. -/
structure Fine (watch : Watch) (store : Store) (value : Value) : Prop where
  known : Known store value
  whole : Whole watch store value

/-- At a moment, the machine stands at the spot of code of the text, and whatever the store holds
and the moment acts on is whole. -/
structure Moment.Live (text : Site → Prop) (watch : Watch) (moment : Moment) : Prop where
  ready : ∃ notes, notes.origins = moment.origins ∧ notes.completed = moment.completed ∧
    Ready text notes moment.machine moment.spot
  covered : Covered text (moment.node.sitesAt moment.spot.nesting)
  tended : Tended watch moment.scene
  operands : ∀ value ∈ moment.phase.operands, Fine watch moment.machine.store value

variable {moment : Moment} {text : Site → Prop} {watch less more : Watch}
  {moments first second : List Moment} {scene scene' : Scene}

theorem Moment.Live.sound (live : moment.Live text watch) : moment.Sound text := by
  obtain ⟨notes, origins, completed, ready⟩ := live.ready
  refine ⟨live.covered _ (Node.mem_sitesAt_self _ _), origins ▸ ready.standing,
    ready.coherent.tables, ?_⟩
  rw [← completed]
  exact ready.coherent.completed

theorem Moment.Live.mono (live : moment.Live text more) (covers : less.Covers more) :
    moment.Live text less :=
  ⟨live.ready, live.covered, live.tended.mono covers,
    fun value member => ⟨(live.operands value member).known,
      (live.operands value member).whole.mono covers⟩⟩

/-- The moments of a run from a scene on, the last one first. -/
structure Logged (text : Site → Prop) (watch : Watch) (scene : Scene) (moments : List Moment) :
    Prop where
  live : ∀ moment ∈ moments, moment.Live text watch
  since : ∀ moment ∈ moments, Changed scene moment.scene
  ordered : moments.Pairwise fun later earlier => Changed earlier.scene later.scene

def After (moments : List Moment) (scene : Scene) : Prop :=
  ∀ moment ∈ moments, Changed moment.scene scene

theorem Logged.nil (text : Site → Prop) (watch : Watch) (scene : Scene) :
    Logged text watch scene [] :=
  ⟨by simp, by simp, .nil⟩

theorem After.nil (scene : Scene) : After [] scene := by
  simp [After]

theorem After.trans (after : After moments scene) (changed : Changed scene scene') :
    After moments scene' :=
  fun moment member => (after moment member).trans changed

theorem After.append (after : After first scene) (after' : After second scene) :
    After (first ++ second) scene := by
  intro moment member
  rcases List.mem_append.mp member with here | there
  · exact after moment here
  · exact after' moment there

theorem Logged.append (logged : Logged text watch scene first) (after : After first scene')
    (changed : Changed scene scene') (logged' : Logged text watch scene' second) :
    Logged text watch scene (second ++ first) := by
  refine ⟨?_, ?_, List.pairwise_append.mpr ⟨logged'.ordered, logged.ordered, ?_⟩⟩
  · intro moment member
    rcases List.mem_append.mp member with there | here
    · exact logged'.live moment there
    · exact logged.live moment here
  · intro moment member
    rcases List.mem_append.mp member with there | here
    · exact changed.trans (logged'.since moment there)
    · exact logged.since moment here
  · exact fun later there earlier here => (after earlier here).trans (logged'.since later there)

theorem Logged.mono (logged : Logged text more scene moments) (covers : less.Covers more) :
    Logged text less scene moments :=
  ⟨fun moment member => (logged.live moment member).mono covers, logged.since, logged.ordered⟩

/-- The store is coherent, and what it holds is whole. -/
structure Upheld (text : Site → Prop) (terms : Terms) (notes : Notes) (machine : Machine) :
    Prop where
  coherent : Coherent text notes machine.store
  tended : Tended terms.watch (notes.scene machine)

structure Poised (text : Site → Prop) (terms : Terms) (notes : Notes) (machine : Machine)
    (spot : Spot) : Prop extends Upheld text terms notes machine where
  standing : Standing notes.origins machine spot

/-- The machine has gone on, and what is kept up still holds. -/
structure Passed (text : Site → Prop) (terms : Terms) (notes : Notes) (machine : Machine)
    (notes' : Notes) (machine' : Machine) : Prop extends Kept text notes machine notes' machine',
    Fared terms (notes.scene machine) (notes'.scene machine')

section Parts

variable {text : Site → Prop} {terms : Terms} {notes notes' notes'' : Notes}
  {machine machine' machine'' : Machine} {spot : Spot} {value : Value}

theorem Poised.ready (poised : Poised text terms notes machine spot) :
    Ready text notes machine spot :=
  ⟨poised.coherent, poised.standing⟩

theorem Standing.poised (standing : Standing notes.origins machine spot)
    (coherent : Coherent text notes machine.store)
    (tended : Tended terms.watch (notes.scene machine)) : Poised text terms notes machine spot :=
  ⟨⟨coherent, tended⟩, standing⟩

theorem Upheld.fine (upheld : Upheld text terms notes machine) (holds : Holds machine.store value) :
    Fine terms.watch machine.store value :=
  ⟨upheld.coherent.known value holds, upheld.tended.held value holds⟩

namespace Passed

theorem refl (upheld : Upheld text terms notes machine) :
    Passed text terms notes machine notes machine :=
  ⟨.refl upheld.coherent, .refl upheld.tended⟩

section

variable (passed : Passed text terms notes machine notes' machine')

include passed

theorem trans (passed' : Passed text terms notes' machine' notes'' machine'') :
    Passed text terms notes machine notes'' machine'' :=
  ⟨passed.toKept.trans passed'.toKept, passed.toFared.trans passed'.toFared⟩

theorem upheld : Upheld text terms notes' machine' :=
  ⟨passed.coherent, passed.tended⟩

theorem poised
    (poised : Poised text terms notes machine spot) : Poised text terms notes' machine' spot :=
  ⟨passed.upheld, poised.standing.grow passed.grows passed.frame⟩

theorem fine (upheld : Upheld text terms notes machine)
    (fine : Fine terms.watch machine.store value) : Fine terms.watch machine'.store value :=
  ⟨fine.known.grow passed.grows, fine.whole.changed upheld.tended passed.changed⟩

theorem reframe (frame : Frame) :
    Passed text terms notes { machine with frame } notes' { machine' with frame } :=
  ⟨passed.toKept.reframe frame, passed.toFared⟩

end

end Passed

end Parts

/-- The fault does not say that `this` or `super` is missing. -/
def Innocent (fault : RuntimeFault) : Prop :=
  fault ≠ .thisUnbound ∧ fault ≠ .superUnbound

def Stop.Innocent : Stop → Prop
  | .fault found => Run.Innocent found.value
  | .sinkFull => True

/-- What holds when evaluation ends somehow: new moments are live, what is kept up still holds, and
a value is as `post` says. -/
def Ends {α : Type} (text : Site → Prop) (terms : Terms) (notes : Notes) (machine : Machine)
    (post : α → Notes → Machine → Prop) (result : Notes × Outcome α) : Prop :=
  ∃ added, result.1.moments = added ++ notes.moments ∧
    Logged text terms.watch (notes.scene machine) added ∧
    match result.2 with
    | .done value after => After added (result.1.scene after) ∧
      Passed text terms notes machine result.1 after ∧ post value result.1 after
    | .stopped reason after => After added (result.1.scene after) ∧
      Passed text terms notes machine result.1 after ∧ reason.Innocent
    | .exhausted => True

/-- A run from the given notes and machine keeps to its terms and ends as `post` says. -/
def Fares {α : Type} (text : Site → Prop) (terms : Terms) (notes : Notes) (machine : Machine)
    (body : Traced α) (post : α → Notes → Machine → Prop) : Prop :=
  Ends text terms notes machine post (body notes machine)

def Anything {α : Type} (_ : α) (_ : Notes) (_ : Machine) : Prop :=
  True

namespace Fares

variable {α β : Type} {text : Site → Prop} {terms : Terms} {notes notes' : Notes}
  {machine machine' : Machine} {body : Traced α} {next : α → Traced β}
  {middle : α → Notes → Machine → Prop} {post : β → Notes → Machine → Prop}

theorem of_passed {result : Notes × Outcome β} {first : List Moment}
    (moments : notes'.moments = first ++ notes.moments)
    (logged : Logged text terms.watch (notes.scene machine) first)
    (after : After first (notes'.scene machine'))
    (passed : Passed text terms notes machine notes' machine')
    (rest : Ends text terms notes' machine' post result) :
    Ends text terms notes machine post result := by
  obtain ⟨notes'', outcome⟩ := result
  obtain ⟨second, moments', logged', ends⟩ := rest
  refine ⟨second ++ first, ?_, logged.append after passed.changed logged', ?_⟩
  · rw [moments', moments, List.append_assoc]
  · cases outcome with
    | done value last =>
      obtain ⟨after', passed', holds⟩ := ends
      exact ⟨after'.append (after.trans passed'.changed), passed.trans passed', holds⟩
    | stopped reason last =>
      obtain ⟨after', passed', innocent⟩ := ends
      exact ⟨after'.append (after.trans passed'.changed), passed.trans passed', innocent⟩
    | exhausted => trivial

theorem one {value : α} (result : body notes machine = (notes', .done value machine'))
    (moments : notes'.moments = notes.moments)
    (passed : Passed text terms notes machine notes' machine')
    (holds : middle value notes' machine') : Fares text terms notes machine body middle := by
  unfold Fares
  rw [result]
  exact ⟨[], moments, .nil _ _ _, .nil _, passed, holds⟩

theorem pure {value : β} (upheld : Upheld text terms notes machine)
    (holds : post value notes machine) : Fares text terms notes machine (Pure.pure value) post :=
  one rfl rfl (.refl upheld) holds

theorem exhaust : Fares text terms notes machine (Traced.lift Eval.exhaust) post :=
  ⟨[], rfl, .nil _ _ _, trivial⟩

theorem fail (upheld : Upheld text terms notes machine) (position : Position)
    {fault : RuntimeFault} (innocent : Innocent fault) :
    Fares text terms notes machine (Traced.lift (Eval.fail position fault)) post :=
  ⟨[], rfl, .nil _ _ _, .nil _, .refl upheld, innocent⟩

theorem ended (fares : Fares text terms notes machine body middle) {value : α}
    (ends : body notes machine = (notes', .done value machine')) :
    Passed text terms notes machine notes' machine' ∧ middle value notes' machine' := by
  rw [Fares, ends] at fares
  obtain ⟨_, -, -, -, passed, holds⟩ := fares
  exact ⟨passed, holds⟩

theorem bind (first : Fares text terms notes machine body middle)
    (rest : ∀ value notes' machine', Passed text terms notes machine notes' machine' →
      middle value notes' machine' → Fares text terms notes' machine' (next value) post) :
    Fares text terms notes machine (body >>= next) post := by
  simp only [Fares, Bind.bind] at first ⊢
  generalize body notes machine = result at first ⊢
  obtain ⟨notes', outcome⟩ := result
  obtain ⟨added, moments, logged, ends⟩ := first
  cases outcome with
  | done value after =>
    obtain ⟨isAfter, passed, holds⟩ := ends
    exact of_passed moments logged isAfter passed (rest value notes' after passed holds)
  | stopped reason after => exact ⟨added, moments, logged, ends⟩
  | exhausted => exact ⟨added, moments, logged, trivial⟩

theorem step {value : α} (result : body notes machine = (notes', .done value machine'))
    (moments : notes'.moments = notes.moments)
    (passed : Passed text terms notes machine notes' machine')
    (rest : Fares text terms notes' machine' (next value) post) :
    Fares text terms notes machine (body >>= next) post := by
  simp only [Fares, Bind.bind, result]
  exact of_passed moments (.nil _ _ _) (.nil _) passed rest

theorem inspect {look : Store → α} (upheld : Upheld text terms notes machine)
    (rest : Fares text terms notes machine (next (look machine.store)) post) :
    Fares text terms notes machine (Traced.lift (Eval.inspect look) >>= next) post :=
  step rfl rfl (.refl upheld) rest

theorem frame {next : Frame → Traced β} (upheld : Upheld text terms notes machine)
    (rest : Fares text terms notes machine (next machine.frame) post) :
    Fares text terms notes machine (Traced.lift Eval.frame >>= next) post :=
  step rfl rfl (.refl upheld) rest

theorem consult {look : Notes → α} (upheld : Upheld text terms notes machine)
    (rest : Fares text terms notes machine (next (look notes)) post) :
    Fares text terms notes machine (Traced.consult look >>= next) post :=
  step rfl rfl (.refl upheld) rest

theorem addScope {origin : Option Construct} {scope : Scope} {next : ScopeRef → Traced β}
    (passed : Passed text terms notes machine (notes.addOrigin origin)
      { machine with store := (machine.store.addScope scope).2 })
    (rest : Fares text terms (notes.addOrigin origin)
      { machine with store := (machine.store.addScope scope).2 }
      (next machine.store.scopes.size) post) :
    Fares text terms notes machine (do
      Traced.noting (Notes.addOrigin origin)
      let ref ← Traced.lift (Eval.add fun store => store.addScope scope)
      next ref) post :=
  of_passed rfl (.nil _ _ _) (.nil _) passed rest

theorem mark {pending : Nat} {spot : Spot} {node : Node} {phase : Phase} {next : Unit → Traced β}
    (poised : Poised text terms notes machine spot)
    (covered : Covered text (node.sitesAt spot.nesting))
    (operands : ∀ value ∈ phase.operands, Fine terms.watch machine.store value)
    (rest : ∀ notes', Poised text terms notes' machine spot →
      Fares text terms notes' machine (next ()) post) :
    Fares text terms notes machine (Traced.mark pending spot node phase >>= next) post := by
  let moment : Moment :=
    { spot, node, phase, pending, origins := notes.origins, completed := notes.completed, machine }
  have kept := kept_moments poised.coherent (moment :: notes.moments)
  have live : moment.Live text terms.watch :=
    ⟨⟨notes, rfl, rfl, poised.ready⟩, covered, poised.tended, operands⟩
  have logged : Logged text terms.watch (notes.scene machine) [moment] := by
    refine ⟨?_, ?_, List.pairwise_singleton _ _⟩
    · intro other member
      rwa [List.mem_singleton.mp member]
    · intro other member
      rw [List.mem_singleton.mp member]
      exact .refl _
  have after : After [moment] (notes.scene machine) := by
    intro other member
    rw [List.mem_singleton.mp member]
    exact .refl _
  let notes' : Notes := { notes with moments := moment :: notes.moments }
  have moments : notes'.moments = [moment] ++ notes.moments := rfl
  have passed : Passed text terms notes machine notes' machine := ⟨kept, .refl poised.tended⟩
  exact of_passed moments logged after passed (rest notes' (passed.poised poised))

theorem mono {weaker : α → Notes → Machine → Prop}
    (fares : Fares text terms notes machine body middle)
    (implies : ∀ value notes' machine', Passed text terms notes machine notes' machine' →
      middle value notes' machine' → weaker value notes' machine') :
    Fares text terms notes machine body weaker := by
  unfold Fares at fares ⊢
  generalize body notes machine = result at fares ⊢
  obtain ⟨notes', outcome⟩ := result
  obtain ⟨added, moments, logged, ends⟩ := fares
  refine ⟨added, moments, logged, ?_⟩
  cases outcome with
  | done value after =>
    obtain ⟨isAfter, passed, holds⟩ := ends
    exact ⟨isAfter, passed, implies _ _ _ passed holds⟩
  | stopped reason after => exact ends
  | exhausted => trivial

theorem loosen {looser : Terms} (fares : Fares text terms notes machine body middle)
    (covers : looser.watch.Covers terms.watch)
    (kept : ∀ ref, looser.kept ref → terms.kept ref)
    (opened : ∀ (ref : Nat) name, ref < machine.store.scopes.size → terms.opened ref name →
      looser.opened ref name) : Fares text looser notes machine body middle := by
  unfold Fares at fares ⊢
  generalize body notes machine = result at fares ⊢
  obtain ⟨notes', outcome⟩ := result
  obtain ⟨added, moments, logged, ends⟩ := fares
  have loosened {after : Machine} (passed : Passed text terms notes machine notes' after) :
      Passed text looser notes machine notes' after :=
    ⟨passed.toKept, passed.toFared.loosen covers kept opened⟩
  refine ⟨added, moments, logged.mono covers, ?_⟩
  cases outcome with
  | done value after => exact ⟨ends.1, loosened ends.2.1, ends.2.2⟩
  | stopped reason after => exact ⟨ends.1, loosened ends.2.1, ends.2.2⟩
  | exhausted => trivial

theorem within (machine : Machine) {frame : Frame} {held : α → Store → Prop}
    (inside : Fares text terms notes { machine with frame } body
      fun value _ after => held value after.store) :
    Fares text terms notes machine (Traced.within frame body)
      fun value _ after => held value after.store := by
  unfold Fares Traced.within
  unfold Fares at inside
  generalize body notes { machine with frame } = result at inside ⊢
  obtain ⟨notes', outcome⟩ := result
  obtain ⟨added, moments, logged, ends⟩ := inside
  refine ⟨added, ?_⟩
  cases outcome with
  | done value after | stopped reason after =>
    exact ⟨moments, logged, ends.1, ends.2.1.reframe machine.frame, ends.2.2⟩
  | exhausted => exact ⟨moments, logged, trivial⟩

end Fares

end Run

end ClassScript
