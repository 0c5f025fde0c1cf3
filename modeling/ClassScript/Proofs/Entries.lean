import ClassScript.Proofs.Chronicle

/-!
The depths that a session holds are those of the entries that were made for its references.
-/

set_option autoImplicit false

namespace ClassScript

namespace Chronicle

/-- The chronicles that a chronicle leads to, whatever the session is asked meanwhile. -/
inductive Leads (first : Chronicle) : Chronicle → Prop
  | refl : Leads first first
  | answered {chronicle : Chronicle} {steps : Nat} {input : Input} {after : Session}
    (leads : Leads first chronicle)
    (answer : (chronicle.session.respond steps input).session? = some after) :
    Leads first (chronicle.follow steps input after)
  | takeLines {chronicle : Chronicle} (leads : Leads first chronicle) :
    Leads first { chronicle with session := chronicle.session.takeLines.2 }

theorem subset_sitesWith (chronicle : Chronicle) (input : Input) :
    chronicle.sites ⊆ chronicle.sitesWith input := by
  unfold sitesWith
  split
  · exact List.subset_append_left _ _
  · exact List.Subset.refl _

namespace Leads

variable {first later : Chronicle}

private theorem reached (leads : first.Leads later) (reached : first.Reached) : later.Reached := by
  induction leads with
  | refl => exact reached
  | answered leads answer ih => exact .answered ih answer
  | takeLines leads ih => exact .takeLines ih

private theorem sites_subset (leads : first.Leads later) : first.sites ⊆ later.sites := by
  induction leads with
  | refl => exact List.Subset.refl _
  | @answered chronicle steps input after leads answer ih =>
    exact List.Subset.trans ih (chronicle.subset_sitesWith input)
  | takeLines leads ih => exact ih

end Leads

end Chronicle

/-- The table gives every reference of the ledger the depth of its entry, or none if the entry has
none. -/
def Binding.Ledger.HoldsIn (ledger : Binding.Ledger) (depths : Binding.Depths) : Prop :=
  ∀ entry ∈ ledger.entries, depths.find? entry.1 = entry.2

theorem Binding.Entered.holdsIn {sites : List Site} {ledger : Binding.Ledger}
    {depths : Binding.Depths} (entered : Binding.Entered sites [] ledger.entries)
    (sound : ∀ site ∈ sites, site.Sound depths) : ledger.HoldsIn depths := by
  intro entry member
  obtain ⟨site, there, use⟩ := entered.mem_iff.mp member
  exact (sound site there).recorded entry.1 entry.2 use

/-- Every text that a session accepts has a ledger with one entry for each reference in the text,
made where the binding of references came to it. Entries of one number are alike. The table of the
text holds them, so does that of the session, and so do all its tables from then on, whatever else
it is asked. -/
theorem recorded_bindings_stay {chronicle : Chronicle} (reached : chronicle.Reached) {input : Input}
    {code : Code} {ready : Session} (checked : chronicle.session.check input = (.ok code, ready)) :
    ∃ ledger, code.ledger chronicle.session.globals = .ok ledger ∧
      code.resolve chronicle.session.globals =
        .ok { depths := ledger.state.depths, globals := ledger.state.globals } ∧
      ledger.entries.Perm (code.sites.filterMap Site.use?) ∧
      (∀ id depth depth', (id, depth) ∈ ledger.entries → (id, depth') ∈ ledger.entries →
        depth = depth') ∧
      ledger.HoldsIn ledger.state.depths ∧
      ledger.HoldsIn ready.depths ∧
      ∀ steps after later, (chronicle.session.respond steps input).session? = some after →
        (chronicle.follow steps input after).Leads later →
        ledger.HoldsIn later.session.depths ∧
          ∀ next, ledger.HoldsIn (later.session.check next).2.depths := by
  have sound := reached.sound
  obtain ⟨resolution, limit, resolved, -, tidy, -⟩ := Session.resolves_of_check checked
  obtain ⟨ledger, walked, kept, rfl, entered⟩ := code.ledger_of_resolve tidy.proper resolved
  have own : ledger.HoldsIn ledger.state.depths := entered.holdsIn (entered.sound kept tidy).1
  refine ⟨ledger, walked, resolved, ?_, ?_, own, ?_, ?_⟩
  · have entries := entered.entries
    rwa [List.append_nil] at entries
  · intro id depth depth' member member'
    exact (own _ member).symm.trans (own _ member')
  · exact entered.holdsIn fun site member =>
      sound.sites_checked checked site (List.mem_append_right _ member)
  · intro steps after later answer leads
    have accepted : code.sites ⊆ (chronicle.follow steps input after).sites := by
      simp only [Chronicle.follow, Chronicle.sitesWith, checked]
      exact List.subset_append_right _ _
    have present := List.Subset.trans accepted leads.sites_subset
    have sound' := (leads.reached (.answered reached answer)).sound
    refine ⟨entered.holdsIn fun site member => sound'.sites site (present member), ?_⟩
    intro next
    exact entered.holdsIn fun site member => sound'.suits next site
      (later.subset_sitesWith next (present member))

def sharedFunction : Input :=
  .program "fn f(k) { var a = [0]; a[(fn () -> k)()] += 1; }"

set_option maxRecDepth 100000 in
/-- The function stands in the text twice, so the parameter it reads has two entries, which the
table of the session holds. -/
theorem shared_function_is_bound_alike :
    ∃ code ready ledger, (Session.start {} (fun _ => 0) .capturing).check sharedFunction =
        (.ok code, ready) ∧
      code.ledger .initial = .ok ledger ∧ ledger.entries.count (1, some 1) = 2 ∧
      ready.depths.find? 1 = some 1 := by
  have reached := Chronicle.Reached.start {} (fun _ => 0) .capturing
  have twice : (((Session.start {} (fun _ => 0) .capturing).check sharedFunction).1.toOption.bind
      fun code => ((code.ledger .initial).map fun ledger =>
        ledger.entries.count (1, some 1)).toOption) = some 2 := by
    decide +kernel
  cases checked : (Session.start {} (fun _ => 0) .capturing).check sharedFunction with
  | mk result ready =>
    rw [checked] at twice
    cases result with
    | error failure => cases twice
    | ok code =>
      obtain ⟨ledger, walked, -, -, -, -, holds, -⟩ := recorded_bindings_stay reached checked
      have initial : code.ledger .initial = .ok ledger := walked
      simp only [initial, Except.map, Except.toOption, Option.bind_some, Option.some.injEq] at twice
      have member : (1, some 1) ∈ ledger.entries :=
        List.count_pos_iff.mp (by omega)
      exact ⟨code, ready, ledger, rfl, initial, twice, holds _ member⟩

end ClassScript
