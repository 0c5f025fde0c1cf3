import ClassScript.Proofs.FloatFields
import ClassScript.Store.Shown
import Mathlib.Data.List.Forall2
import Mathlib.Logic.Relation

/-!
How values are written out. Main statement: what is shown of a value is the one text that is written
for it, with a hint in place of a container that is being written.
-/

set_option autoImplicit false

namespace ClassScript

namespace Text

/-- The characters that are escaped by name, each with the letter of its escape. -/
def namedEscapes : List (Char × Char) :=
  [('\x00', '0'), ('\t', 't'), ('\n', 'n'), ('\r', 'r'), ('"', '"'), ('\\', '\\')]

/-- A character that is seen on its own: among the first 128, one from the blank to the tilde, and
among the others what the tables of characters say. -/
def Visible (c : Char) : Prop :=
  if c.toNat < 128 then 32 ≤ c.toNat ∧ c.toNat ≤ 126 else isPrintable c ∧ ¬isCombining c

/-- How a character stands between quotes: escaped by name, as itself, or by its number in
hexadecimal. -/
inductive Escaped (c : Char) : List Char → Prop where
  | named {letter : Char} (listed : (c, letter) ∈ namedEscapes) : Escaped c ['\\', letter]
  | plain (unnamed : ∀ letter, (c, letter) ∉ namedEscapes) (visible : Visible c) : Escaped c [c]
  | numbered (unnamed : ∀ letter, (c, letter) ∉ namedEscapes) (hidden : ¬Visible c) :
    Escaped c (['\\', 'u', '\x7b'] ++ Nat.toDigits 16 c.toNat ++ ['\x7d'])

/-- A text between quotes, every character of it escaped where it has to be. -/
def Quotes (s text : String) : Prop :=
  ∃ pieces, List.Forall₂ Escaped s.toList pieces ∧
    text.toList = '"' :: (pieces.flatten ++ ['"'])

private theorem visible_of_ascii : ∀ n, n < 128 →
    ((isCombining (Char.ofNat n) || !isPrintable (Char.ofNat n)) = false ↔
      32 ≤ n ∧ n ≤ 126) := by
  decide +kernel

private theorem visible_iff (c : Char) : Visible c ↔ (isCombining c || !isPrintable c) = false := by
  unfold Visible
  split_ifs with ascii
  · rw [← visible_of_ascii c.toNat ascii, Char.ofNat_toNat]
  · simp [and_comm]

private theorem quotedChar_of_named {c letter : Char} (listed : (c, letter) ∈ namedEscapes) :
    (quotedChar c).toList = ['\\', letter] := by
  simp only [namedEscapes, List.mem_cons, Prod.mk.injEq, List.not_mem_nil, or_false] at listed
  rcases listed with ⟨rfl, rfl⟩ | ⟨rfl, rfl⟩ | ⟨rfl, rfl⟩ | ⟨rfl, rfl⟩ | ⟨rfl, rfl⟩ | ⟨rfl, rfl⟩ <;>
    rfl

private theorem quotedChar_of_unnamed {c : Char} (unnamed : ∀ letter, (c, letter) ∉ namedEscapes) :
    quotedChar c = if isCombining c || !isPrintable c then numberedEscape c else c.toString := by
  unfold quotedChar
  split
  case h_7 => rfl
  all_goals simp [namedEscapes] at unnamed

private theorem escaped_iff {c : Char} {piece : List Char} :
    Escaped c piece ↔ (quotedChar c).toList = piece := by
  constructor
  · intro escaped
    cases escaped with
    | named listed => exact quotedChar_of_named listed
    | plain unnamed visible =>
      rw [quotedChar_of_unnamed unnamed, (visible_iff c).mp visible]
      simp
    | numbered unnamed hidden =>
      rw [visible_iff, Bool.not_eq_false] at hidden
      simp [quotedChar_of_unnamed unnamed, hidden, numberedEscape]
  · rintro rfl
    by_cases named : ∃ letter, (c, letter) ∈ namedEscapes
    · obtain ⟨letter, listed⟩ := named
      exact quotedChar_of_named listed ▸ .named listed
    · rw [not_exists] at named
      rw [quotedChar_of_unnamed named]
      by_cases visible : Visible c
      · rw [(visible_iff c).mp visible]
        simpa using Escaped.plain named visible
      · have hidden := visible
        rw [visible_iff, Bool.not_eq_false] at hidden
        simpa [hidden, numberedEscape] using Escaped.numbered named visible

private theorem quotes_iff {s text : String} : Quotes s text ↔ text = quoted s := by
  have pieces (chars : List Char) (pieces : List (List Char)) :
      List.Forall₂ Escaped chars pieces ↔ chars.map (fun c => (quotedChar c).toList) = pieces := by
    rw [← List.forall₂_eq_eq_eq, List.forall₂_map_left_iff]
    exact iff_of_eq (congrArg (List.Forall₂ · chars pieces) (by
      funext c piece
      exact propext escaped_iff))
  simp only [Quotes, pieces, exists_eq_left', ← String.toList_inj]
  simp [quoted, String.toList_join, List.flatMap_def, Function.comp_def]

end Text

def Value.container? : Value → Option Store.Container
  | .array ref => some (.array ref)
  | .map ref => some (.map ref)
  | _ => none

namespace Store

/-- What stands for a container inside itself. -/
def Container.hint : Container → String
  | .array _ => "[...]"
  | .map _ => "\x7b...\x7d"

def parts (store : Store) : Container → List Value
  | .array ref => (store.items ref).toList
  | .map ref => (store.entries ref).entries.map Prod.snd

/-- The text of a value that is no container. A string stands between quotes inside of one. -/
inductive ScalarText (store : Store) : Bool → Value → String → Prop where
  | nil {inside : Bool} : ScalarText store inside .nil "nil"
  | true {inside : Bool} : ScalarText store inside (.boolean true) "true"
  | false {inside : Bool} : ScalarText store inside (.boolean false) "false"
  | number {inside : Bool} {x : Float} {text : String} (shows : Number.Shows x text) :
    ScalarText store inside (.number x) text
  | bare {s : String} : ScalarText store false (.text s) s
  | quoted {s text : String} (quotes : Text.Quotes s text) : ScalarText store true (.text s) text
  | builtin {inside : Bool} {which : Builtin} :
    ScalarText store inside (.builtin which) ("<native fn " ++ which.name ++ ">")
  | function {inside : Bool} {ref : FunctionRef} {closure : Closure}
    (found : store.functions[ref]? = some closure) :
    ScalarText store inside (.function ref) ("<fn " ++ closure.decl.name.name ++ ">")
  | lostFunction {inside : Bool} {ref : FunctionRef} (lost : store.functions[ref]? = none) :
    ScalarText store inside (.function ref) "<fn>"
  | classObject {inside : Bool} {ref : ClassRef} {found : ClassObject}
    (isClass : store.classes[ref]? = some found) :
    ScalarText store inside (.classObject ref) ("<class " ++ found.name ++ ">")
  | lostClass {inside : Bool} {ref : ClassRef} (lost : store.classes[ref]? = none) :
    ScalarText store inside (.classObject ref) "<class>"
  | object {inside : Bool} {ref : InstanceRef} {found : ClassObject}
    (isInstance : store.classOf? ref = some found) :
    ScalarText store inside (.object ref) ("<" ++ found.name ++ " instance>")
  | lostObject {inside : Bool} {ref : InstanceRef} (lost : store.classOf? ref = none) :
    ScalarText store inside (.object ref) "<instance>"

/-- A container in full, with a text for each of its keys and values: items in order, entries in
increasing order of their keys. -/
def layout (store : Store) (quote : String → String) (write : Value → String) :
    Container → String
  | .array ref => "[" ++ ", ".intercalate ((store.items ref).toList.map write) ++ "]"
  | .map ref =>
    "\x7b" ++ ", ".intercalate ((store.entries ref).entries.map fun entry =>
      quote entry.1 ++ ": " ++ write entry.2) ++ "\x7d"

/-- The text of a value that stands inside containers which are being written out. Whoever is wary
hints at a container that is met inside itself. -/
inductive Written (store : Store) (wary : Bool) :
    List Container → Bool → Value → String → Prop where
  | scalar {path : List Container} {inside : Bool} {value : Value} {text : String}
    (scalar : store.ScalarText inside value text) : Written store wary path inside value text
  | hinted {path : List Container} {inside : Bool} {value : Value} {container : Container}
    (isContainer : value.container? = some container) (met : wary ∧ container ∈ path) :
    Written store wary path inside value container.hint
  | full {path : List Container} {inside : Bool} {value : Value} {container : Container}
    {quote : String → String} {write : Value → String}
    (isContainer : value.container? = some container) (new : ¬(wary ∧ container ∈ path))
    (quotes : ∀ key, Text.Quotes key (quote key))
    (written : ∀ part ∈ store.parts container,
      Written store wary (container :: path) true part (write part)) :
    Written store wary path inside value (store.layout quote write container)

def Encloses (store : Store) (outer inner : Container) : Prop :=
  ∃ part ∈ store.parts outer, part.container? = some inner

def Within (store : Store) (value : Value) (container : Container) : Prop :=
  ∃ outer, value.container? = some outer ∧ Relation.ReflTransGen store.Encloses outer container

section Writing

variable {store : Store} {path : List Container} {inside : Bool} {value : Value}
  {container : Container}

private theorem layout_congr {quote quote' : String → String} {write write' : Value → String}
    (quotes : ∀ key, quote key = quote' key)
    (same : ∀ part ∈ store.parts container, write part = write' part) :
    store.layout quote write container = store.layout quote' write' container := by
  cases container with
  | array ref =>
    simp only [parts] at same
    rw [layout, layout, List.map_congr_left same]
  | map ref =>
    have texts : ∀ entry ∈ (store.entries ref).entries,
        quote entry.1 ++ ": " ++ write entry.2 =
          quote' entry.1 ++ ": " ++ write' entry.2 := fun entry member => by
      rw [quotes, same entry.2 (List.mem_map_of_mem member)]
    rw [layout, layout, List.map_congr_left texts]

private theorem scalarText_shownScalar (plain : value.container? = none) :
    store.ScalarText inside value (store.shownScalar inside value) := by
  cases value with
  | nil => exact .nil
  | boolean value => cases value <;> constructor
  | number x => exact .number (Number.shows_iff.mpr rfl)
  | text s =>
    cases inside with
    | false => exact .bare
    | true => exact .quoted (Text.quotes_iff.mpr rfl)
  | builtin which => exact .builtin
  | function ref =>
    simp only [shownScalar]
    cases found : store.functions[ref]? with
    | none => exact .lostFunction found
    | some closure => exact .function found
  | classObject ref =>
    simp only [shownScalar]
    cases found : store.classes[ref]? with
    | none => exact .lostClass found
    | some closure => exact .classObject found
  | object ref =>
    simp only [shownScalar]
    cases found : store.classOf? ref with
    | none => exact .lostObject found
    | some closure => exact .object found
  | array | map => cases plain

private theorem ScalarText.container?_eq {text : String}
    (scalar : store.ScalarText inside value text) : value.container? = none := by
  cases scalar <;> rfl

private theorem ScalarText.eq_shownScalar {text : String}
    (scalar : store.ScalarText inside value text) : text = store.shownScalar inside value := by
  cases scalar with
  | nil | true | false | bare | builtin => rfl
  | number shows => exact Number.shows_iff.mp shows
  | quoted quotes => exact Text.quotes_iff.mp quotes
  | function found | lostFunction found | classObject found | lostClass found | object found
  | lostObject found => simp only [shownScalar, found]

private theorem shownWithin_scalar (plain : value.container? = none) (bound : Nat) :
    store.shownWithin bound path inside value = store.shownScalar inside value := by
  cases bound <;> cases value <;> first | rfl | cases plain

private theorem shownWithin_container (isContainer : value.container? = some container)
    (bound : Nat) : store.shownWithin (bound + 1) path inside value =
      if container ∈ path then container.hint
      else store.layout Text.quoted (store.shownWithin bound (container :: path) true)
        container := by
  cases value <;> cases isContainer <;> rw [shownWithin] <;> rfl

def containers (store : Store) : List Container :=
  (List.range store.arrays.size).map .array ++ (List.range store.maps.size).map .map

private theorem mem_containers_of_parts {part : Value} (member : part ∈ store.parts container) :
    container ∈ store.containers := by
  rw [containers, List.mem_append]
  cases container with
  | array ref =>
    refine .inl (List.mem_map.mpr ⟨ref, List.mem_range.mpr ?_, rfl⟩)
    by_contra outside
    simp [parts, items, Array.getElem?_eq_none (Nat.le_of_not_lt outside)] at member
  | map ref =>
    refine .inr (List.mem_map.mpr ⟨ref, List.mem_range.mpr ?_, rfl⟩)
    by_contra outside
    rw [parts, entries, Array.getElem?_eq_none (Nat.le_of_not_lt outside)] at member
    exact List.not_mem_nil member

/-- How many containers of the store are not being written out. -/
def unopened (store : Store) (path : List Container) : Nat :=
  (store.containers.filter (· ∉ path)).length

private theorem unopened_nil (store : Store) : store.unopened [] = store.containerCount := by
  simp [unopened, containers, containerCount]

private theorem unopened_cons_lt (known : container ∈ store.containers) (new : container ∉ path) :
    store.unopened (container :: path) < store.unopened path := by
  have fewer : store.containers.filter (· ∉ container :: path) =
      (store.containers.filter (· ∉ path)).filter (· ≠ container) := by
    simp [List.filter_filter]
  rw [unopened, fewer]
  refine List.length_filter_lt_length_iff_exists.mpr ⟨container, ?_, by simp⟩
  exact List.mem_filter.mpr ⟨known, by simpa using new⟩

/-- With a greater bound than there are containers to be begun, the bound does not matter. -/
private theorem written_shownWithin (bound : Nat) (enough : store.unopened path < bound) :
    Written store true path inside value (store.shownWithin bound path inside value) := by
  induction bound generalizing path inside value with
  | zero => omega
  | succ bound ih =>
    cases isContainer : value.container? with
    | none =>
      rw [shownWithin_scalar isContainer]
      exact .scalar (scalarText_shownScalar isContainer)
    | some container =>
      rw [shownWithin_container isContainer]
      split
      · rename_i met
        exact .hinted isContainer ⟨rfl, met⟩
      · rename_i new
        refine .full isContainer (fun met => new met.2) (fun key => Text.quotes_iff.mpr rfl)
          fun part member => ih ?_
        have less := unopened_cons_lt (mem_containers_of_parts member) new
        omega

private theorem Written.unique {wary : Bool} {text text' : String}
    (written : Written store wary path inside value text)
    (written' : Written store wary path inside value text') : text = text' := by
  induction written generalizing text' with
  | scalar scalar =>
    cases written' with
    | scalar scalar' => exact scalar.eq_shownScalar.trans scalar'.eq_shownScalar.symm
    | hinted isContainer _ => cases scalar.container?_eq.symm.trans isContainer
    | full isContainer _ _ _ => cases scalar.container?_eq.symm.trans isContainer
  | hinted isContainer met =>
    cases written' with
    | scalar scalar => cases scalar.container?_eq.symm.trans isContainer
    | hinted isContainer' _ => cases isContainer.symm.trans isContainer'; rfl
    | full isContainer' new _ _ =>
      cases isContainer.symm.trans isContainer'
      exact absurd met new
  | full isContainer new quotes _ ih =>
    cases written' with
    | scalar scalar => cases scalar.container?_eq.symm.trans isContainer
    | hinted isContainer' met =>
      cases isContainer.symm.trans isContainer'
      exact absurd met new
    | full isContainer' _ quotes' written' =>
      cases isContainer.symm.trans isContainer'
      refine layout_congr (fun key => ?_) fun part member => ih part member (written' part member)
      exact (Text.quotes_iff.mp (quotes key)).trans (Text.quotes_iff.mp (quotes' key)).symm

private theorem Written.careless {text : String}
    (written : Written store true path inside value text)
    (acyclic : ∀ container, store.Within value container →
      ¬Relation.TransGen store.Encloses container container)
    (apart : ∀ container ∈ path, ¬store.Within value container) :
    Written store false path inside value text := by
  induction written with
  | scalar scalar => exact .scalar scalar
  | hinted isContainer met => exact absurd ⟨_, isContainer, .refl⟩ (apart _ met.2)
  | @full path inside value outer quote write isContainer new quotes _ ih =>
    have deeper {part : Value} (member : part ∈ store.parts outer) {container : Container}
        (within : store.Within part container) :
        Relation.TransGen store.Encloses outer container := by
      obtain ⟨inner, isInner, reaches⟩ := within
      exact .head' ⟨part, member, isInner⟩ reaches
    refine .full isContainer (by simp) quotes fun part member => ih part member ?_ ?_
    · exact fun container within =>
        acyclic container ⟨outer, isContainer, (deeper member within).to_reflTransGen⟩
    · intro container isOpen within
      rcases List.mem_cons.mp isOpen with rfl | isOpen
      · exact acyclic container ⟨container, isContainer, .refl⟩ (deeper member within)
      · exact apart container isOpen
          ⟨outer, isContainer, (deeper member within).to_reflTransGen⟩

end Writing

/-- What is shown of a value is what is written for it, in every store, however its containers
share and contain one another: the writing comes to an end, and a container is hinted at exactly
where it stands inside itself. The bound on nesting never matters. If no container that the value
leads to leads back to itself, what is shown has every container in full. -/
theorem shown_iff_written (store : Store) (value : Value) :
    (∀ text, store.Written true [] false value text ↔ text = store.shown value) ∧
      (∀ bound, store.containerCount < bound →
        store.shownWithin bound [] false value = store.shown value) ∧
      ((∀ container, store.Within value container →
          ¬Relation.TransGen store.Encloses container container) →
        ∀ text, store.Written false [] false value text ↔ text = store.shown value) := by
  have written (bound : Nat) (enough : store.containerCount < bound) :
      store.Written true [] false value (store.shownWithin bound [] false value) :=
    written_shownWithin bound (by rwa [unopened_nil])
  have shown : store.Written true [] false value (store.shown value) :=
    written _ (Nat.lt_succ_self _)
  refine ⟨fun text => ⟨fun other => other.unique shown, ?_⟩,
    fun bound enough => (written bound enough).unique shown, fun acyclic text => ?_⟩
  · rintro rfl
    exact shown
  · have plain := shown.careless acyclic (by simp)
    refine ⟨fun other => other.unique plain, ?_⟩
    rintro rfl
    exact plain

def sharing : Store :=
  { empty with arrays := #[#[.array 1, .array 1], #[.text "a\"\t\x7f", .number 2.0]] }

/-- An array that is shared but does not contain itself is written in full in both places, with
the characters of its text escaped. -/
theorem shared_array_is_written_in_full :
    sharing.Written false [] false (.array 0)
      "[[\"a\\\"\\t\\u\x7b7f\x7d\", 2], [\"a\\\"\\t\\u\x7b7f\x7d\", 2]]" := by
  have steps (outer inner : Container) (encloses : sharing.Encloses outer inner) :
      outer = .array 0 ∧ inner = .array 1 := by
    obtain ⟨part, member, isInner⟩ := encloses
    rcases outer with (_ | _ | ref) | ref
    · simp only [parts, items, sharing] at member
      obtain rfl : part = .array 1 := by simpa using member
      exact ⟨rfl, (Option.some.inj isInner).symm⟩
    · simp only [parts, items, sharing] at member
      have scalar : part.container? = none := by
        simp only [List.getElem?_toArray, List.getElem?_cons_succ, List.getElem?_cons_zero,
          Option.getD_some, List.mem_cons, List.not_mem_nil, or_false] at member
        rcases member with rfl | rfl <;> rfl
      cases scalar.symm.trans isInner
    · simp [parts, items, sharing] at member
    · simpa [containers, sharing, empty] using mem_containers_of_parts member
  refine ((shown_iff_written sharing (.array 0)).2.2 ?_ _).mpr (by decide +kernel)
  intro container _ cycle
  obtain ⟨_, first, -⟩ := Relation.TransGen.head'_iff.mp cycle
  obtain ⟨_, -, last⟩ := Relation.TransGen.tail'_iff.mp cycle
  cases (steps _ _ first).1.symm.trans (steps _ _ last).2

end Store

end ClassScript
