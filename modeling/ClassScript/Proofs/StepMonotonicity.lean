import ClassScript.Proofs.Discipline

/-!
What more steps and a greater limit on calls change about a run: nothing, once it has ended without
being refused a call.
-/

set_option autoImplicit false

namespace ClassScript.Run

def Stop.IsOverflow : Stop → Prop
  | .fault found => found.value.family = .stackOverflow
  | .sinkFull => False

def Outcome.CutShort {α : Type} (limit greater : Nat) : Outcome α → Prop
  | .done _ _ => False
  | .stopped reason _ => limit < greater ∧ reason.IsOverflow
  | .exhausted => True

structure Prolongs {α : Type} (lacking : Prop) (limit top : Nat) (notes : Notes) (frame : Frame)
    (outcome : Outcome α) (result : Notes × Outcome α) : Prop where
  adds : Notes.Adds (fun moment => moment.machine.frame.depth ≤ limit ∧ moment.pending ≤ top) notes
    result.1
  same : result.2 = outcome ∨ lacking ∧ result.2 = .exhausted
  home : ∀ after, result.2.machine? = some after → after.frame = frame

/-- The first evaluation has other steps and a greater limit than the second one, and comes to the
same unless that one is cut short. -/
def Outlasts {α : Type} (lacking : Prop) (limit greater top : Nat) (first : Traced α)
    (second : Eval α) : Prop :=
  ∀ notes machine, machine.frame.depth ≤ limit → ¬ (second machine).CutShort limit greater →
    Prolongs lacking limit top notes machine.frame (second machine) (first notes machine)

namespace Outlasts

variable {α β : Type} {lacking : Prop} {limit greater top : Nat} {first : Traced α}
  {second : Eval α}

theorem of_brief (brief : Traced.Brief False first) (erases : first.Erases second) :
    Outlasts lacking limit greater top first second := by
  intro notes machine _ _
  obtain ⟨moments, last, ends, frame, -⟩ := brief notes machine
  exact ⟨.of_eq moments, .inl (erases notes machine), fun after ends' =>
    Option.some.inj (ends.symm.trans ends') ▸ frame⟩

theorem bind {next : α → Traced β} {next' : α → Eval β}
    (outlasts : Outlasts lacking limit greater top first second)
    (continues : ∀ value, Outlasts lacking limit greater top (next value) (next' value)) :
    Outlasts lacking limit greater top (first >>= next) (second >>= next') := by
  intro notes machine within whole
  have begins := outlasts notes machine within
  simp only [Bind.bind] at whole ⊢
  generalize first notes machine = result at begins ⊢
  generalize second machine = outcome at begins whole ⊢
  obtain ⟨notes', outcome'⟩ := result
  have uncut : ¬ outcome.CutShort limit greater := by
    cases outcome with
    | done value after => exact id
    | stopped reason after => exact whole
    | exhausted => exact whole
  obtain ⟨adds, rfl | ⟨lacks, rfl⟩, home⟩ := begins uncut
  · cases outcome' with
    | done value after =>
      have frame := home after rfl
      obtain ⟨adds', same, home'⟩ := continues value notes' after (frame ▸ within) whole
      exact ⟨adds.trans adds', same, fun last ends => (home' last ends).trans frame⟩
    | stopped reason after => exact ⟨adds, .inl rfl, home⟩
    | exhausted => exact absurd trivial whole
  · exact ⟨adds, .inr ⟨lacks, rfl⟩, by rintro last ⟨⟩⟩

theorem mark {pending : Nat} {spot : Spot} {node : Node} {phase : Phase} {next : Unit → Traced α}
    (few : pending ≤ top) (rest : Outlasts lacking limit greater top (next ()) second) :
    Outlasts lacking limit greater top (Traced.mark pending spot node phase >>= next) second := by
  intro notes machine within whole
  obtain ⟨adds, same, home⟩ := rest _ machine within whole
  exact ⟨.trans (.cons ⟨within, few⟩) adds, same, home⟩

theorem within {frame : Frame} (inLimit : frame.depth ≤ limit)
    (outlasts : Outlasts lacking limit greater top first second) :
    Outlasts lacking limit greater top (Traced.within frame first) (Eval.within frame second) := by
  intro notes machine _ whole
  have inside := outlasts notes { machine with frame } inLimit
  simp only [Traced.within, Eval.within] at whole ⊢
  generalize first notes { machine with frame } = result at inside ⊢
  generalize second { machine with frame } = outcome at inside whole ⊢
  obtain ⟨notes', outcome'⟩ := result
  have uncut : ¬ outcome.CutShort limit greater := by
    cases outcome <;> exact whole
  obtain ⟨adds, rfl | ⟨lacks, rfl⟩, -⟩ := inside uncut
  · cases outcome' <;> exact ⟨adds, .inl rfl, by rintro after ⟨⟩ <;> rfl⟩
  · exact ⟨adds, .inr ⟨lacks, rfl⟩, by rintro after ⟨⟩⟩

end Outlasts

def outlasting (rules : Rules) {limit : Nat} (allows : limit ≤ rules.maxDepth) (lacking : Prop)
    (top : Nat) : Discipline rules limit where
  Holds _ := Outlasts lacking limit rules.maxDepth top
  Open _ := True
  Stands depth := depth ≤ limit
  Near pending many few := pending + few ≤ top ∧ (lacking ∨ few ≤ many)
  allows
  deeper _ less := less
  near near := by
    have steps := near.2.imp_right Nat.le_of_succ_le_succ
    exact ⟨⟨by omega, steps⟩, by omega, steps⟩
  mono outlasts _ := outlasts
  brief brief erases := .of_brief brief.rough erases
  exhaust near ends lacks lacks' notes machine _ whole := by
    rcases Nat.eq_zero_or_pos _ with none | some
    · rw [lacks' none] at whole
      exact absurd trivial whole
    · rw [lacks (by omega)]
      exact ⟨.of_eq rfl, .inr ⟨near.2.resolve_right (by omega), rfl⟩, by rintro after ⟨⟩⟩
  bind := .bind
  note only rest notes machine within whole := by
    obtain ⟨notes', value, result, moments⟩ := only notes machine
    obtain ⟨adds, same, home⟩ := rest value notes' machine within whole
    simp only [Bind.bind, result]
    exact ⟨.trans (.of_eq moments) adds, same, home⟩
  mark near rest := .mark (Nat.le_of_add_right_le near.1) rest
  frame rest notes machine within := rest machine.frame within notes machine within
  within inLimit outlasts _ := .within inLimit outlasts
  refused less _ _ _ _ _ _ _ _ _ _ whole := absurd ⟨less, rfl⟩ whole
  addScope rest := .bind (.of_brief (.addScope _) (.lift _)) fun ref => rest ref trivial
  emit line notes machine _ _ := by
    obtain ⟨sink, ends⟩ := machine?_emit line machine
    exact ⟨.of_eq rfl, .inl rfl, fun after ends' =>
      Option.some.inj (ends.symm.trans ends') ▸ rfl⟩
  define _ _ := .of_brief (brief_define _ _) (.lift _)
  assign near _ _ _ _ _ := .mark (Nat.le_of_add_right_le near.1)
    (.bind (.of_brief (brief_writeVariable _ _ _ _) (.lift _))
      fun _ => .of_brief (.pure _) (.pure _))

end ClassScript.Run
