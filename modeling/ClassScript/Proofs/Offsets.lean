import ClassScript.Proofs.Boundaries
import ClassScript.Proofs.Munch

/-!
Reading by offsets: the same scanning over numbers of bytes, in which every index, slice and
difference is checked. Main statement: no check ever fails, whatever calls come first, and the
answers are the items of the text in order, counted from the last reset.
-/

set_option autoImplicit false

namespace ClassScript.Token

open Lexeme Text

/-- The bytes of characters, each as the character with that number. -/
def octets (cs : List Char) : List Char :=
  (encoded cs).map fun byte => Char.ofNat byte.toNat

def minus? (m n : Nat) : Option Nat :=
  if n ≤ m then some (m - n) else none

def cut? (octets : List Char) (start stop : Nat) : Option (List Char) :=
  if start ≤ stop ∧ stop ≤ octets.length then some ((octets.take stop).drop start) else none

/-- The characters in the first bytes of a text, when those end between two characters. -/
def upTo? : List Char → Nat → Option (List Char)
  | _, 0 => some []
  | [], _ + 1 => none
  | c :: text, stop + 1 => do
    let less ← minus? (stop + 1) c.utf8Size
    let raw ← upTo? text less
    return c :: raw

/-- The characters from one byte of a text up to another, when both stand between characters. -/
def slice? (text : List Char) (start stop : Nat) : Option (List Char) := do
  let before ← upTo? text start
  let whole ← upTo? text stop
  if start ≤ stop then some (whole.drop before.length) else none

/-- How far the bytes of a text have been read, and where the line begins. -/
structure Reader where
  current : Nat
  line : Nat
  lineStart : Nat

/-- What one piece of the text is. -/
inductive Found where
  | blank
  | token (kind : Kind)
  | fault (cause : LexicalFault) (position : Position)

namespace Reader

def start : Reader :=
  { current := 0, line := 1, lineStart := 0 }

def here? (reader : Reader) : Option Position := do
  let before ← minus? reader.current reader.lineStart
  return { line := reader.line, column := before + 1 }

def advance (reader : Reader) (count : Nat) : Reader :=
  { reader with current := reader.current + count }

def pass (reader : Reader) (octet : Char) : Reader :=
  let next := reader.advance 1
  if octet = '\n' then { next with line := next.line + 1, lineStart := next.current } else next

private theorem current_pass (reader : Reader) (octet : Char) :
    (reader.pass octet).current = reader.current + 1 := by
  unfold pass advance
  split <;> rfl

def passAll (reader : Reader) (octets : List Char) : Reader :=
  octets.foldl pass reader

section Pieces

variable (text : List Char)

def octetAt? (offset : Nat) : Option Char :=
  (octets text)[offset]?

/-- The octet at an offset, and zero behind the text. -/
def peek? (offset : Nat) : Option Char :=
  if offset < (octets text).length then octetAt? text offset else some '\x00'

def passWhile? (kind : Char → Bool) (offset : Nat) : Option Nat := do
  let octet ← peek? text offset
  if kind octet then
    match seen : octetAt? text offset with
    | some _ => passWhile? kind (offset + 1)
    | none => none
  else
    return offset
termination_by (octets text).length - offset
decreasing_by
  have inside := (List.getElem?_eq_some_iff.mp seen).1
  omega

def fraction? (offset : Nat) : Option Nat := do
  let point ← peek? text offset
  let digit ← peek? text (offset + 1)
  if point = '.' ∧ isDigit digit then
    let _ ← octetAt? text offset
    passWhile? text isDigit (offset + 1)
  else
    return offset

def number? (start : Nat) (reader : Reader) : Option (Found × Reader) := do
  let whole ← passWhile? text isDigit reader.current
  let stop ← fraction? text whole
  let raw ← slice? text start stop
  let fraction := (raw.dropWhile isDigit).drop 1
  return (.token (.number (Number.ofDigits (raw.takeWhile isDigit) fraction)),
    { reader with current := stop })

def word? (start : Nat) (reader : Reader) : Option (Found × Reader) := do
  let stop ← passWhile? text isWordPart reader.current
  let raw ← cut? (octets text) start stop
  return (.token (wordKind (String.ofList raw)), { reader with current := stop })

def string? (position : Position) (value : List Char) (segment : Nat) (reader : Reader) :
    Option (Found × Reader) :=
  if (octets text).length ≤ reader.current then
    some (.fault .unterminatedString position, reader)
  else do
    let octet ← octetAt? text reader.current
    if octet = '"' then
      let last ← slice? text segment reader.current
      return (.token (.string (String.ofList (value ++ last))), reader.advance 1)
    else if octet = '\\' then
      let next := reader.advance 1
      let backslash ← minus? next.current 1
      let part ← slice? text segment backslash
      let column ← minus? next.current next.lineStart
      if (octets text).length ≤ next.current then
        some (.fault .unterminatedString position, next)
      else
        let escaped ← octetAt? text next.current
        let after := next.advance 1
        match unescape? escaped with
        | some c => string? position (value ++ part ++ [c]) after.current after
        | none => return (.fault (.invalidEscape escaped) { line := next.line, column }, after)
    else
      string? position value segment (reader.pass octet)
termination_by (octets text).length - reader.current
decreasing_by
  · change _ - (reader.current + 1 + 1) < _
    omega
  · rw [current_pass]
    omega

def lineComment? (reader : Reader) : Option (Found × Reader) := do
  let rest ← cut? (octets text) reader.current (octets text).length
  return (.blank, reader.advance (rest.takeWhile (· ≠ '\n')).length)

/-- How many octets come before the mark that closes a comment. -/
def closing? : List Char → Option Nat
  | [] => none
  | '*' :: '/' :: _ => some 0
  | _ :: rest => (closing? rest).map (· + 1)

def blockComment? (position : Position) (reader : Reader) : Option (Found × Reader) := do
  let rest ← cut? (octets text) reader.current (octets text).length
  match closing? rest with
  | none => return (.fault .unterminatedComment position, reader)
  | some stop =>
    let body ← cut? rest 0 stop
    return (.blank, (reader.passAll body).advance 2)

def isContinuation (octet : Char) : Bool :=
  128 ≤ octet.toNat && octet.toNat < 192

def characterEnd? (octet : Char) (offset : Nat) : Option Nat :=
  if 128 ≤ octet.toNat then passWhile? text isContinuation offset else some offset

/-- The fault of a character that begins no token, if it is a whole one. -/
def strayCause : Option (List Char) → LexicalFault
  | some [c] => .unexpected c
  | _ => .brokenCharacter

def mark? (position : Position) (start : Nat) (first : Char) (reader : Reader) :
    Option (Found × Reader) := do
  let second ← peek? text reader.current
  match doubleMark? first second, singleMark? first with
  | some which, _ =>
    let _ ← octetAt? text reader.current
    return (.token (.terminal which), reader.advance 1)
  | none, some which => return (.token (.terminal which), reader)
  | none, none =>
    let stop ← characterEnd? text first reader.current
    return (.fault (strayCause (slice? text start stop)) position, { reader with current := stop })

def piece? (position : Position) (reader : Reader) : Option (Found × Reader) := do
  let first ← octetAt? text reader.current
  let next := reader.advance 1
  if isSpace first then
    return (.blank, reader.pass first)
  else if isDigit first then
    number? text reader.current next
  else if isWordStart first then
    word? text reader.current next
  else if first = '"' then
    string? text position [] next.current next
  else
    let second ← peek? text next.current
    if first = '/' ∧ second = '/' then
      let _ ← octetAt? text next.current
      lineComment? text (next.advance 1)
    else if first = '/' ∧ second = '*' then
      let _ ← octetAt? text next.current
      blockComment? text position (next.advance 1)
    else
      mark? text position reader.current first next

/-- The next item, if the end mark has not been given yet. That blanks are left behind is checked,
too. -/
def next? (reader : Reader) : Option (Option Item × Reader) :=
  if reader.current < (octets text).length then do
    let position ← reader.here?
    let (found, after) ← piece? text position reader
    match found with
    | .blank => if reader.current < after.current then next? after else none
    | .token kind =>
      let raw ← slice? text reader.current after.current
      return (some (.ok { kind, lexeme := String.ofList raw, position }), after)
    | .fault cause place => return (some (.error ⟨cause, place⟩), after)
  else if reader.current = (octets text).length then do
    let position ← reader.here?
    return (some (.ok { kind := .finish, lexeme := "", position }), reader.advance 1)
  else
    some (none, reader)
termination_by (octets text).length - reader.current

end Pieces

end Reader

private theorem octets_append (cs ds : List Char) : octets (cs ++ ds) = octets cs ++ octets ds := by
  simp [octets]

private theorem octets_cons (c : Char) (cs : List Char) :
    octets (c :: cs) = octets [c] ++ octets cs :=
  octets_append [c] cs

private theorem length_octets (cs : List Char) : (octets cs).length = (encoded cs).length :=
  List.length_map _

inductive Spelt : Char → List Char → Prop where
  | narrow {c : Char} (small : c.toNat < 128) : Spelt c [c]
  | wide {c lead : Char} {tail : List Char} (large : 128 ≤ c.toNat) (begins : 192 ≤ lead.toNat)
    (continues : ∀ octet ∈ tail, Reader.isContinuation octet = true) : Spelt c (lead :: tail)

private theorem spelt (c : Char) : Spelt c (octets [c]) := by
  obtain ⟨lead, tail, spelling, length, continues⟩ := utf8EncodeChar_eq_cons c
  have number := toNat_ofNat_byte lead
  have octets : octets [c] =
      Char.ofNat lead.toNat :: tail.map fun byte => Char.ofNat byte.toNat := by
    simp [octets, spelling]
  rw [octets]
  obtain ⟨same, small, rfl⟩ | ⟨large, begins⟩ := length
  · obtain rfl : Char.ofNat lead.toNat = c := Char.ext (UInt32.toNat_inj.mp (number.trans same))
    exact .narrow small
  · refine .wide large (by omega) fun octet member => ?_
    obtain ⟨byte, inside, rfl⟩ := List.mem_map.mp member
    simp only [Reader.isContinuation, toNat_ofNat_byte, Bool.and_eq_true, decide_eq_true_eq]
    exact continues byte inside

private theorem large_of_isContinuation {octet : Char}
    (continues : Reader.isContinuation octet = true) : 128 ≤ octet.toNat := by
  simp only [Reader.isContinuation, Bool.and_eq_true, decide_eq_true_eq] at continues
  exact continues.1

private theorem mem_octets_singleton {c octet : Char} (member : octet ∈ octets [c]) :
    octet = c ∨ 128 ≤ c.toNat ∧ 128 ≤ octet.toNat := by
  have spelt := spelt c
  generalize octets [c] = spelling at spelt member
  cases spelt with
  | narrow small => exact .inl (List.mem_singleton.mp member)
  | wide large begins continues =>
    rcases List.mem_cons.mp member with rfl | later
    · exact .inr ⟨large, by omega⟩
    · exact .inr ⟨large, large_of_isContinuation (continues octet later)⟩

private theorem mem_of_mem_octets {octet : Char} {cs : List Char} (small : octet.toNat < 128)
    (member : octet ∈ octets cs) : octet ∈ cs := by
  induction cs with
  | nil => exact member
  | cons c cs ih =>
    rw [octets_cons] at member
    obtain inHead | inTail := List.mem_append.mp member
    · rcases mem_octets_singleton inHead with rfl | large
      · exact List.mem_cons_self
      · omega
    · exact List.mem_cons_of_mem c (ih inTail)

private theorem octets_of_narrow {cs : List Char} (small : ∀ c ∈ cs, c.toNat < 128) :
    octets cs = cs := by
  induction cs with
  | nil => rfl
  | cons c cs ih =>
    obtain ⟨smallHead, small⟩ := List.forall_mem_cons.mp small
    have spelt := spelt c
    rw [octets_cons, ih small]
    generalize octets [c] = spelling at spelt
    cases spelt with
    | narrow _ => rfl
    | wide large _ _ => omega

private theorem octets_eq_cons (c : Char) (cs : List Char) :
    ∃ tail, octets (c :: cs) = leadingByte c :: tail := by
  obtain ⟨lead, tail, spelling, -⟩ := utf8EncodeChar_eq_cons c
  exact ⟨_, by simp [octets, leadingByte, spelling]; rfl⟩

/-- A function that takes each octet of a character as it takes the character. -/
def Tells {α : Type} (f : Char → α) : Prop :=
  ∀ c, ∀ octet ∈ octets [c], f octet = f c

private theorem tells_of_narrow {α : Type} {f : Char → α} {other : α}
    (narrow : ∀ c, f c ≠ other → c.toNat < 128) : Tells f := by
  have same (c : Char) (large : 128 ≤ c.toNat) : f c = other := by
    by_contra different
    have := narrow c different
    omega
  intro c octet member
  rcases mem_octets_singleton member with rfl | ⟨large, large'⟩
  · rfl
  · rw [same c large, same octet large']

private theorem Tells.leadingByte {α : Type} {f : Char → α} (tells : Tells f) (c : Char) :
    f (leadingByte c) = f c := by
  obtain ⟨tail, spelling⟩ := octets_eq_cons c []
  exact tells c _ (by simp [spelling])

private theorem leadingByte_eq_iff {c d : Char} (small : d.toNat < 128) :
    leadingByte c = d ↔ c = d := by
  have tells : Tells (decide <| · = d) := @tells_of_narrow _ _ false fun c same => by
    obtain rfl : c = d := by simpa using same
    exact small
  simpa using tells.leadingByte c

private theorem takeWhile_octets {kind : Char → Bool} (tells : Tells kind) (cs : List Char) :
    (octets cs).takeWhile kind = octets (cs.takeWhile kind) := by
  induction cs with
  | nil => rfl
  | cons c cs ih =>
    by_cases holds : kind c = true
    · rw [octets_cons,
        List.takeWhile_append_of_pos fun octet member => (tells c octet member).trans holds, ih,
        List.takeWhile_cons_of_pos holds, octets_cons c (cs.takeWhile kind)]
    · obtain ⟨tail, spelling⟩ := octets_eq_cons c cs
      rw [List.takeWhile_cons_of_neg holds, spelling,
        List.takeWhile_cons_of_neg (by rwa [tells.leadingByte])]
      rfl

@[simp] private theorem minus?_add (m n : Nat) : minus? (m + n) n = some m := by
  simp [minus?]

private theorem upTo?_cons (c : Char) (text : List Char) (stop : Nat) :
    upTo? (c :: text) (stop + c.utf8Size) = (upTo? text stop).map (c :: ·) := by
  obtain ⟨less, positive⟩ : ∃ less, stop + c.utf8Size = less + 1 :=
    ⟨stop + c.utf8Size - 1, by have := c.utf8Size_pos; omega⟩
  rw [positive, upTo?, ← positive, minus?_add, Option.bind_eq_bind, Option.bind_some]
  cases upTo? text stop <;> rfl

private theorem length_encoded_cons (c : Char) (cs : List Char) :
    (encoded (c :: cs)).length = (encoded cs).length + c.utf8Size := by
  simp [Nat.add_comm]

private theorem upTo?_append (raw rest : List Char) :
    upTo? (raw ++ rest) (encoded raw).length = some raw := by
  induction raw with
  | nil => cases rest <;> rfl
  | cons c raw ih => rw [length_encoded_cons, List.cons_append, upTo?_cons, ih, Option.map_some]

private theorem slice?_inside {c : Char} {less : Nat} (inside : less + 1 < c.utf8Size)
    (before rest : List Char) (stop : Nat) :
    slice? (before ++ c :: rest) ((encoded before).length + (less + 1)) stop = none := by
  have none : upTo? (before ++ c :: rest) ((encoded before).length + (less + 1)) = none := by
    induction before with
    | nil =>
      have short : ¬c.utf8Size ≤ less + 1 := by omega
      simp [upTo?, minus?, short]
    | cons d before ih =>
      rw [length_encoded_cons, Nat.add_right_comm, List.cons_append, upTo?_cons, ih,
        Option.map_none]
  rw [slice?, none]
  rfl

namespace Reader

variable {text rest raw front back : List Char} {offset : Nat} {first : Char}

/-- What lies ahead of an offset that stands between two characters. -/
def Ahead (text : List Char) (offset : Nat) (rest : List Char) : Prop :=
  ∃ before, text = before ++ rest ∧ offset = (encoded before).length

private theorem passWhile?_eq {kind : Char → Bool} (zero : kind '\x00' = false)
    (split : octets text = front ++ back) :
    passWhile? text kind front.length = some (front.length + (back.takeWhile kind).length) := by
  induction back generalizing front with
  | nil =>
    rw [passWhile?, peek?]
    simp [split, zero]
  | cons octet back ih =>
    have further := @ih (front ++ [octet]) (by simp [split])
    rw [List.length_append, List.length_singleton] at further
    rw [passWhile?, peek?]
    by_cases holds : kind octet = true
    · simp [split, octetAt?, holds, further]
      split
      · exact congrArg some (by omega)
      next absent => simp [split] at absent
    · simp [split, octetAt?, holds]

namespace Ahead

private theorem spelling (ahead : Ahead text offset rest) :
    ∃ front, octets text = front ++ octets rest ∧ offset = front.length := by
  obtain ⟨before, rfl, rfl⟩ := ahead
  exact ⟨_, octets_append before rest, (length_octets before).symm⟩

private theorem skip (ahead : Ahead text offset (raw ++ rest)) :
    Ahead text (offset + (encoded raw).length) rest := by
  obtain ⟨before, rfl, rfl⟩ := ahead
  exact ⟨before ++ raw, by simp, by rw [encoded_append, List.length_append]⟩

private theorem pass (ahead : Ahead text offset (first :: rest)) (small : first.toNat < 128) :
    Ahead text (offset + 1) rest := by
  have skipped : Ahead text (offset + (encoded [first]).length) rest := ahead.skip
  rwa [← length_octets, octets_of_narrow (by simpa using small)] at skipped

private theorem octetAt (ahead : Ahead text offset rest) :
    octetAt? text offset = (octets rest).head? := by
  obtain ⟨front, split, rfl⟩ := ahead.spelling
  rw [octetAt?, split, List.getElem?_append_right (Nat.le_refl _), Nat.sub_self,
    List.head?_eq_getElem?]

private theorem length (ahead : Ahead text offset rest) :
    (octets text).length = offset + (octets rest).length := by
  obtain ⟨front, split, rfl⟩ := ahead.spelling
  rw [split, List.length_append]

private theorem peek (ahead : Ahead text offset rest) :
    peek? text offset = some ((octets rest).head?.getD '\x00') := by
  rw [peek?, ahead.length, ahead.octetAt]
  cases octets rest <;> simp

private theorem slice (ahead : Ahead text offset (raw ++ rest)) :
    slice? text offset (offset + (encoded raw).length) = some raw := by
  obtain ⟨before, rfl, rfl⟩ := ahead
  have whole := upTo?_append (before ++ raw) rest
  rw [encoded_append, List.length_append, List.append_assoc] at whole
  simp [slice?, whole, upTo?_append]

private theorem cut (ahead : Ahead text offset (raw ++ rest)) :
    cut? (octets text) offset (offset + (encoded raw).length) = some (octets raw) := by
  obtain ⟨front, split, rfl⟩ := ahead.spelling
  rw [octets_append] at split
  rw [cut?, split, ← length_octets, if_pos (by simp)]
  simp [List.take_append]

end Ahead

variable {reader : Reader} {position : Position}

@[simp] private theorem current_passAll (reader : Reader) (octets : List Char) :
    (reader.passAll octets).current = reader.current + octets.length := by
  induction octets generalizing reader with
  | nil => rfl
  | cons octet octets ih =>
    refine (ih (reader.pass octet)).trans ?_
    rw [current_pass, List.length_cons]
    omega

private theorem here?_eq_some : reader.here? = some position ↔ reader.lineStart ≤ reader.current ∧
    position = ⟨reader.line, reader.current - reader.lineStart + 1⟩ := by
  unfold here? minus?
  by_cases inside : reader.lineStart ≤ reader.current
  · simp [inside, eq_comm]
  · simp [inside]

private theorem here?_advance (here : reader.here? = some position) (count : Nat) :
    (reader.advance count).here? = some (position.right count) := by
  obtain ⟨inside, rfl⟩ := here?_eq_some.mp here
  refine here?_eq_some.mpr ⟨Nat.le_trans inside (Nat.le_add_right _ _), ?_⟩
  simp only [advance, Position.right, Position.mk.injEq, true_and]
  omega

private theorem here?_passAll (here : reader.here? = some position) (raw : List Char) :
    (reader.passAll (octets raw)).here? = some (position.past raw) := by
  rw [Position.past_eq_pastBytes, octets]
  generalize encoded raw = bytes
  induction bytes generalizing reader position with
  | nil => exact here
  | cons byte bytes ih =>
    refine @ih (reader.pass (Char.ofNat byte.toNat)) _ ?_
    unfold pass Position.afterByte
    by_cases ends : byte = newline
    · rw [if_pos ends, if_pos ((ofNat_eq_newline byte).mpr ends)]
      obtain ⟨-, rfl⟩ := here?_eq_some.mp here
      exact here?_eq_some.mpr ⟨Nat.le_refl _, by simp [advance]⟩
    · rw [if_neg ends, if_neg fun same => ends ((ofNat_eq_newline byte).mp same)]
      exact here?_advance here 1

private theorem passAll_append (reader : Reader) (first second : List Char) :
    reader.passAll (first ++ second) = (reader.passAll first).passAll second :=
  List.foldl_append

private theorem passAll_eq_advance (plain : '\n' ∉ raw) (reader : Reader) :
    reader.passAll (octets raw) = reader.advance (encoded raw).length := by
  have plain : '\n' ∉ octets raw := fun member => plain (mem_of_mem_octets (by decide) member)
  rw [← length_octets]
  generalize octets raw = octets at plain
  induction octets generalizing reader with
  | nil => rfl
  | cons octet octets ih =>
    obtain ⟨apart, plain⟩ : '\n' ≠ octet ∧ '\n' ∉ octets := by simpa using plain
    have step : reader.pass octet = reader.advance 1 := by
      rw [pass, if_neg (Ne.symm apart)]
    rw [passAll, List.foldl_cons, step]
    refine (ih _ plain).trans ?_
    simp [advance, Nat.add_comm, Nat.add_left_comm]

/-- A character of one byte that is neither a blank nor a newline. -/
def Visible (c : Char) : Prop :=
  32 < c.toNat ∧ c.toNat < 128

instance (c : Char) : Decidable (Visible c) :=
  inferInstanceAs (Decidable (_ ∧ _))

private theorem length_of_visible (visible : ∀ c ∈ raw, Visible c) :
    (encoded raw).length = raw.length := by
  rw [← length_octets, octets_of_narrow fun c member => (visible c member).2]

private theorem passAll_visible (visible : ∀ c ∈ raw, Visible c) (reader : Reader) :
    reader.passAll (octets raw) = reader.advance raw.length := by
  have plain : '\n' ∉ raw := fun member => absurd (visible _ member) (by decide)
  rw [passAll_eq_advance plain, length_of_visible visible]

private theorem passAll_cons {c : Char} (visible : Visible c) (cs : List Char) :
    reader.passAll (octets (c :: cs)) = (reader.advance 1).passAll (octets cs) := by
  have one := @passAll_visible [c] (by simpa using visible) reader
  rw [octets_cons, passAll_append, one, List.length_singleton]

private theorem Ahead.passWhile {kind : Char → Bool} (visible : ∀ c, kind c = true → Visible c)
    (ahead : Ahead text offset rest) :
    passWhile? text kind offset = some (offset + (rest.takeWhile kind).length) := by
  have zero : kind '\x00' = false :=
    Bool.eq_false_iff.mpr fun holds => absurd (visible _ holds) (by decide)
  have tells : Tells kind := @tells_of_narrow _ _ false fun c holds =>
    (visible c (by simpa using holds)).2
  have taken : ∀ c ∈ rest.takeWhile kind, Visible c :=
    fun c member => visible c (List.all_eq_true.mp List.all_takeWhile c member)
  obtain ⟨front, split, rfl⟩ := ahead.spelling
  rw [passWhile?_eq zero split, takeWhile_octets tells, length_octets, length_of_visible taken]

/-- What is found where a text has the given front, and where reading goes on. -/
def found (position : Position) (reader : Reader) : Front → Found × Reader
  | .blank raw => (.blank, reader.passAll (octets raw))
  | .token kind raw => (.token kind, reader.passAll (octets raw))
  | .fault cause raw => (.fault cause position, reader.passAll (octets raw))
  | .escapeFault raw escaped =>
    (.fault (.invalidEscape (leadingByte escaped)) (position.past raw),
      (reader.passAll (octets raw)).advance 2)

private theorem visible_of_isDigit (c : Char) (digit : isDigit c = true) : Visible c := by
  have := toNat_of_isDigit digit
  exact ⟨by omega, by omega⟩

private theorem visible_of_isWordPart (c : Char) (part : isWordPart c = true) : Visible c := by
  rcases Bool.or_eq_true_iff.mp part with starts | digit
  · have := toNat_of_isWordStart starts
    exact ⟨by omega, by omega⟩
  · exact visible_of_isDigit c digit

private theorem word?_eq (starts : isWordStart first = true)
    (ahead : Ahead text reader.current (first :: rest)) :
    word? text reader.current (reader.advance 1) =
      some (found position reader (wordFront first rest)) := by
  have visible : ∀ c ∈ first :: rest.takeWhile isWordPart, Visible c := by
    refine List.forall_mem_cons.mpr ⟨?_, fun c member => ?_⟩
    · exact visible_of_isWordPart first (by simp [isWordPart, starts])
    · exact visible_of_isWordPart c (List.mem_takeWhile_imp member)
  have stop := (ahead.pass (visible first List.mem_cons_self).2).passWhile visible_of_isWordPart
  have split : first :: rest = first :: rest.takeWhile isWordPart ++ rest.dropWhile isWordPart := by
    simp
  have cut := (split ▸ ahead).cut
  rw [length_of_visible visible, octets_of_narrow fun c member => (visible c member).2,
    List.length_cons] at cut
  rw [wordFront, found, passAll_visible visible]
  simp only [word?, advance, stop, Nat.add_assoc, Nat.add_comm 1, cut, Option.bind_eq_bind,
    Option.bind_some, Option.pure_def, List.length_cons]

private theorem isDigit_leadingByte (c : Char) : isDigit (leadingByte c) = isDigit c :=
  (@tells_of_narrow _ isDigit false fun c digit =>
    (visible_of_isDigit c (by simpa using digit)).2).leadingByte c

private theorem head?_octets_cons (c : Char) (cs : List Char) :
    (octets (c :: cs)).head? = some (leadingByte c) := by
  obtain ⟨tail, spelling⟩ := octets_eq_cons c cs
  rw [spelling, List.head?_cons]

private theorem head?_octets {octet : Char} (small : octet.toNat < 128) (cs : List Char) :
    (octets cs).head? = some octet ↔ cs.head? = some octet := by
  cases cs with
  | nil => rfl
  | cons c cs => simpa [head?_octets_cons] using leadingByte_eq_iff small

private theorem exists_peek? (text : List Char) (offset : Nat) :
    ∃ octet, peek? text offset = some octet := by
  unfold peek? octetAt?
  split
  · exact ⟨_, List.getElem?_eq_getElem ‹_›⟩
  · exact ⟨_, rfl⟩

private theorem fraction?_eq (ahead : Ahead text offset rest) :
    fraction? text offset =
      some (offset + if fractionDigits rest = [] then 0 else (fractionDigits rest).length + 1) := by
  obtain ⟨digit, second⟩ := exists_peek? text (offset + 1)
  rw [fraction?, ahead.peek, second]
  by_cases dot : rest.head? = some '.'
  · obtain ⟨tail, rfl⟩ := List.head?_eq_some_iff.mp dot
    have behind := ahead.pass (by decide)
    rw [behind.peek] at second
    obtain rfl := Option.some.inj second
    cases tail with
    | nil => simp [fractionDigits, octets, isDigit]
    | cons c tail =>
      have stop := behind.passWhile visible_of_isDigit
      have point : leadingByte '.' = '.' := rfl
      by_cases digit : isDigit c = true
      · simp [fractionDigits, head?_octets_cons, isDigit_leadingByte, digit, ahead.octetAt, stop,
          point]
        omega
      · simp [fractionDigits, head?_octets_cons, isDigit_leadingByte, digit]
  · have other : (octets rest).head?.getD '\x00' ≠ '.' := by
      intro same
      refine dot ((head?_octets (by decide) rest).mp ?_)
      cases head : (octets rest).head? with
      | none => simp [head] at same
      | some c => simpa [head] using same
    have none : fractionDigits rest = [] := by
      fun_cases fractionDigits rest with
      | case1 => exact absurd rfl dot
      | case2 | case3 => rfl
    simp [other, none]

private theorem number?_of_stop {whole : Nat} (ahead : Ahead text reader.current (raw ++ rest))
    (visible : ∀ c ∈ raw, Visible c)
    (digits : passWhile? text isDigit (reader.current + 1) = some whole)
    (stop : fraction? text whole = some (reader.current + raw.length)) :
    number? text reader.current (reader.advance 1) =
      some (.token (.number (Number.ofDigits (raw.takeWhile isDigit)
        ((raw.dropWhile isDigit).drop 1))), reader.passAll (octets raw)) := by
  have sliced := ahead.slice
  rw [length_of_visible visible] at sliced
  rw [passAll_visible visible]
  simp only [number?, advance, digits, stop, sliced, Option.bind_eq_bind, Option.bind_some,
    Option.pure_def]

private theorem number?_eq (digit : isDigit first = true)
    (ahead : Ahead text reader.current (first :: rest)) :
    number? text reader.current (reader.advance 1) =
      some (found position reader (numberFront first rest)) := by
  have digits := @isDigit_of_mem_cons_takeWhile first rest digit
  have visible : ∀ c ∈ first :: rest.takeWhile isDigit, Visible c :=
    fun c member => visible_of_isDigit c (digits c member)
  have whole := (ahead.pass (visible first List.mem_cons_self).2).passWhile visible_of_isDigit
  have split : first :: rest = first :: rest.takeWhile isDigit ++ rest.dropWhile isDigit := by simp
  rw [split] at ahead
  have stop := fraction?_eq ahead.skip
  rw [length_of_visible visible, List.length_cons] at stop
  rw [Nat.add_assoc, Nat.add_comm 1] at whole
  by_cases none : fractionDigits (rest.dropWhile isDigit) = []
  · rw [if_pos none] at stop
    rw [number?_of_stop ahead visible whole stop, numberFront_of_whole none,
      List.takeWhile_eq_self_iff.mpr digits, List.dropWhile_eq_nil_iff.mpr digits]
    rfl
  · obtain ⟨after, begins⟩ := fractionDigits_begins none
    rw [← begins, ← List.append_assoc] at ahead
    rw [if_neg none] at stop
    have visible' : ∀ c ∈ first :: rest.takeWhile isDigit ++
        '.' :: fractionDigits (rest.dropWhile isDigit), Visible c := by
      refine List.forall_mem_append.mpr ⟨visible, List.forall_mem_cons.mpr ⟨by decide, ?_⟩⟩
      exact fun c member => visible_of_isDigit c (isDigit_of_mem_fractionDigits member)
    rw [number?_of_stop ahead visible' whole (by rw [stop]; simp; omega),
      numberFront_of_fraction none, List.takeWhile_append_of_pos digits,
      List.dropWhile_append_of_pos digits, List.takeWhile_cons_of_neg (by decide),
      List.dropWhile_cons_of_neg (by decide), List.append_nil]
    rfl

private theorem Ahead.cutAll (ahead : Ahead text offset rest) :
    cut? (octets text) offset (octets text).length = some (octets rest) := by
  obtain ⟨front, split, rfl⟩ := ahead.spelling
  rw [cut?, split, if_pos (by simp), List.take_length, List.drop_left]

private theorem lineComment?_eq (ahead : Ahead text reader.current ('/' :: '/' :: rest)) :
    lineComment? text (reader.advance 2) =
      some (found position reader (.blank ('/' :: '/' :: rest.takeWhile (· ≠ '\n')))) := by
  have tells : Tells (decide <| · ≠ '\n') := @tells_of_narrow _ _ true fun c same => by
    obtain rfl : c = '\n' := by simpa using same
    decide
  have plain : '\n' ∉ rest.takeWhile (· ≠ '\n') := fun member =>
    absurd (List.mem_takeWhile_imp member) (by decide)
  have cut : cut? (octets text) (reader.advance 2).current _ = _ :=
    ((ahead.pass (by decide)).pass (by decide)).cutAll
  rw [lineComment?, cut, Option.bind_eq_bind, Option.bind_some, takeWhile_octets tells, found,
    passAll_cons (by decide), passAll_cons (by decide), passAll_eq_advance plain, length_octets]
  rfl

private theorem closing?_cons {octet : Char} (other : octet = '*' → back.head? ≠ some '/') :
    closing? (octet :: back) = (closing? back).map (· + 1) := by
  refine closing?.eq_3 octet back fun tail star slash => ?_
  subst slash
  exact other star rfl

private theorem closing?_append {spelling : List Char} (other : '*' ∉ spelling) (back : List Char) :
    closing? (spelling ++ back) = (closing? back).map (· + spelling.length) := by
  induction spelling with
  | nil => simp
  | cons octet spelling ih =>
    obtain ⟨apart, other⟩ : '*' ≠ octet ∧ '*' ∉ spelling := by simpa using other
    rw [List.cons_append, closing?_cons fun star => absurd star.symm apart, ih other]
    cases closing? back with
    | none => rfl
    | some stop => simp [Nat.add_assoc]

private theorem closing?_octets_cons {c : Char} (other : c = '*' → rest.head? ≠ some '/') :
    closing? (octets (c :: rest)) = (closing? (octets rest)).map (· + (encoded [c]).length) := by
  rw [octets_cons, ← length_octets]
  by_cases star : c = '*'
  · subst star
    exact closing?_cons fun _ slash => other rfl ((head?_octets (by decide) rest).mp slash)
  · refine closing?_append (fun member => star ?_) _
    exact (List.mem_singleton.mp (mem_of_mem_octets (by decide) member)).symm

private theorem closing?_octets (comment : List Char) :
    (commentBody? comment = none ∧ closing? (octets comment) = none) ∨
      ∃ inner after, commentBody? comment = some (inner ++ ['*', '/'], after) ∧
        closing? (octets comment) = some (encoded inner).length := by
  fun_induction commentBody? comment with
  | case1 => exact .inl ⟨rfl, rfl⟩
  | case2 rest => exact .inr ⟨[], rest, rfl, rfl⟩
  | case3 c rest other ih =>
    rw [closing?_octets_cons]
    · obtain ⟨opened, none⟩ | ⟨inner, after, closes, some⟩ := ih
      · exact .inl ⟨by rw [opened]; rfl, by rw [none]; rfl⟩
      · refine .inr ⟨c :: inner, after, by rw [closes]; rfl, ?_⟩
        rw [some]
        simp [Nat.add_comm]
    · rintro rfl slash
      obtain ⟨tail, rfl⟩ := List.head?_eq_some_iff.mp slash
      exact other tail rfl rfl

private theorem blockComment?_eq (ahead : Ahead text reader.current ('/' :: '*' :: rest)) :
    blockComment? text position (reader.advance 2) =
      some (found position reader (Lexeme.front '/' ('*' :: rest))) := by
  have cut : cut? (octets text) (reader.advance 2).current _ = _ :=
    ((ahead.pass (by decide)).pass (by decide)).cutAll
  rw [blockComment?, cut, Option.bind_eq_bind, Option.bind_some]
  obtain ⟨opened, none⟩ | ⟨inner, after, closes, some⟩ := closing?_octets rest
  · rw [front_block_open opened, none]
    rfl
  · have inside : Ahead rest 0 (inner ++ (['*', '/'] ++ after)) :=
      ⟨[], by rw [commentBody?_eq_some closes, List.append_assoc]; rfl, rfl⟩
    have body := inside.cut
    rw [Nat.zero_add] at body
    simp only [some, body, Option.bind_some]
    rw [front_block closes, found, passAll_cons (by decide), passAll_cons (by decide),
      octets_append, passAll_append]
    rfl

private theorem visible_of_doubleMark? {first second : Char} {which : Terminal}
    (found : doubleMark? first second = some which) : Visible first ∧ Visible second := by
  revert found
  fun_cases doubleMark? first second <;> intro found
  all_goals first | decide | cases found

private theorem visible_of_singleMark? {first : Char} {which : Terminal}
    (found : singleMark? first = some which) : Visible first := by
  revert found
  fun_cases singleMark? first <;> intro found
  all_goals first | decide | cases found

private theorem mark?_eq (small : first.toNat < 128) (plain : first ≠ '\n')
    (ahead : Ahead text reader.current (first :: rest)) :
    mark? text position reader.current first (reader.advance 1) =
      some (found position reader (markFront first rest)) := by
  have behind := ahead.pass small
  have double : doubleMark? first ((octets rest).head?.getD '\x00') =
      rest.head?.bind (doubleMark? first) := by
    cases rest with
    | nil =>
      cases found : doubleMark? first '\x00' with
      | none => exact found
      | some which => exact absurd (visible_of_doubleMark? found).2 (by decide)
    | cons d rest =>
      have tells : Tells (doubleMark? first) := @tells_of_narrow _ _ none fun c mark => by
        obtain ⟨which, found⟩ := Option.ne_none_iff_exists'.mp mark
        exact (visible_of_doubleMark? found).2.2
      rw [head?_octets_cons, Option.getD_some, tells.leadingByte]
      rfl
  rw [mark?, advance, behind.peek, Option.bind_eq_bind, Option.bind_some, double, markFront]
  cases found : rest.head?.bind (doubleMark? first) with
  | some which =>
    obtain ⟨second, head, isMark⟩ := Option.bind_eq_some_iff.mp found
    obtain ⟨tail, rfl⟩ := List.head?_eq_some_iff.mp head
    obtain ⟨visible, visible'⟩ := visible_of_doubleMark? isMark
    simp only [behind.octetAt, head?_octets_cons]
    change _ = some (Found.token (.terminal which), reader.passAll (octets [first, second]))
    rw [passAll_visible (by simp [visible, visible'])]
    rfl
  | none =>
    cases found' : singleMark? first with
    | some which =>
      simp only
      rw [Reader.found, passAll_visible (by simpa using visible_of_singleMark? found')]
      rfl
    | none =>
      have sliced := @Ahead.slice _ rest [first] _ ahead
      have one : (encoded [first]).length = 1 := by
        rw [← length_octets, octets_of_narrow (by simpa using small), List.length_singleton]
      rw [one] at sliced
      simp only [characterEnd?, if_neg (Nat.not_le.mpr small), Option.bind_eq_bind,
        Option.bind_some, sliced]
      rw [Reader.found, passAll_eq_advance (by simpa using plain.symm), one]
      rfl

private theorem isMark_of_large {c : Char} (large : 128 ≤ c.toNat) :
    IsMark c ∧ c ≠ '/' ∧ singleMark? c = none ∧ ∀ d, doubleMark? c d = none := by
  have none (kind : Char → Bool) (visible : ∀ c, kind c = true → Visible c) : kind c = false :=
    Bool.eq_false_iff.mpr fun holds => by have := (visible c holds).2; omega
  refine ⟨⟨isSpace_eq_false_of_toNat (by omega), none isDigit visible_of_isDigit,
    none isWordStart fun c starts => visible_of_isWordPart c (by simp [isWordPart, starts]), ?_⟩,
    ?_, ?_, fun d => ?_⟩
  · rintro rfl
    exact absurd large (by decide)
  · rintro rfl
    exact absurd large (by decide)
  · refine Option.eq_none_iff_forall_ne_some.mpr fun which found => ?_
    have := (visible_of_singleMark? found).2
    omega
  · refine Option.eq_none_iff_forall_ne_some.mpr fun which found => ?_
    have := (visible_of_doubleMark? found).1.2
    omega

private theorem piece?_large {octet : Char} {tail : List Char}
    (split : octets text = front ++ octet :: (tail ++ octets rest)) (large : 128 ≤ octet.toNat)
    (continues : ∀ octet ∈ tail, isContinuation octet = true)
    (current : reader.current = front.length) :
    piece? text position reader =
      some (.fault (strayCause (slice? text reader.current (reader.current + 1 + tail.length)))
        position, reader.advance (1 + tail.length)) := by
  have none : (octets rest).takeWhile isContinuation = [] := by
    cases rest with
    | nil => rfl
    | cons c rest =>
      have spelt := spelt c
      rw [octets_cons]
      generalize octets [c] = spelling at spelt
      cases spelt <;> exact List.takeWhile_cons_of_neg (by simp [isContinuation]; omega)
  have behind : octets text = (front ++ [octet]) ++ (tail ++ octets rest) := by simp [split]
  have passed := @passWhile?_eq _ _ _ isContinuation rfl behind
  rw [List.takeWhile_append_of_pos continues, none, List.append_nil, List.length_append,
    List.length_singleton, ← current] at passed
  have seen : octetAt? text reader.current = some octet := by simp [octetAt?, split, current]
  obtain ⟨second, peeked⟩ := exists_peek? text (reader.current + 1)
  obtain ⟨⟨solid, other, nonword, unquoted⟩, unslashed, single, double⟩ := isMark_of_large large
  simp only [piece?, seen, solid, other, nonword, unquoted, unslashed, advance, peeked, mark?,
    double, single, characterEnd?, large, passed, Option.bind_eq_bind, Option.bind_some,
    Option.pure_def, Bool.false_eq_true, if_false, if_true, false_and, Nat.add_assoc]

private theorem inside_of_octetAt? {octet : Char} (found : octetAt? text offset = some octet) :
    offset < (octets text).length :=
  (List.getElem?_eq_some_iff.mp found).1

private theorem string?_passAll {plain value : List Char} {segment : Nat}
    (split : octets text = front ++ (plain ++ back))
    (ordinary : ∀ octet ∈ plain, octet ≠ '"' ∧ octet ≠ '\\')
    (current : reader.current = front.length) :
    string? text position value segment reader =
      string? text position value segment (reader.passAll plain) := by
  induction plain generalizing front reader with
  | nil => rfl
  | cons octet plain ih =>
    obtain ⟨⟨noQuote, noBackslash⟩, ordinary⟩ := List.forall_mem_cons.mp ordinary
    have seen : octetAt? text reader.current = some octet := by simp [octetAt?, split, current]
    have split' : octets text = (front ++ [octet]) ++ (plain ++ back) := by simp [split]
    rw [string?, if_neg (Nat.not_le.mpr (inside_of_octetAt? seen)), seen, Option.bind_eq_bind,
      Option.bind_some, if_neg noQuote, if_neg noBackslash]
    refine (ih split' ordinary ?_).trans rfl
    rw [current_pass, current, List.length_append]
    rfl

def ends (position place : Position) (reader : Reader) (value rest : List Char) :
    StringBody → Found × Reader
  | .closed raw chars _ =>
    (.token (.string (String.ofList (value ++ chars))), reader.passAll (octets raw))
  | .invalidEscape raw escaped _ =>
    (.fault (.invalidEscape (leadingByte escaped)) (place.past raw),
      (reader.passAll (octets raw)).advance 2)
  | .unterminated => (.fault .unterminatedString position, reader.passAll (octets rest))

private theorem ends_cons (position place : Position) (reader : Reader)
    (value rest spelling : List Char) (c : Char) (body : StringBody) :
    ends position place reader value (spelling ++ rest) (body.cons spelling c) =
      ends position (place.past spelling) (reader.passAll (octets spelling)) (value ++ [c]) rest
        body := by
  cases body <;>
    simp [ends, StringBody.cons, octets_append, passAll_append, Position.past_append]

private theorem visible_of_unescape? {c value : Char} (found : unescape? c = some value) :
    Visible c := by
  revert found
  fun_cases unescape? c <;> intro found
  all_goals first | decide | cases found

private theorem unescape?_leadingByte (c : Char) : unescape? (leadingByte c) = unescape? c := by
  refine (@tells_of_narrow _ _ none fun c known => ?_).leadingByte c
  obtain ⟨value, found⟩ := Option.ne_none_iff_exists'.mp known
  exact (visible_of_unescape? found).2

section String

variable {part value : List Char} {segment : Nat} {place : Position}
  (current : reader.current = segment + (encoded part).length)

include current

private theorem string?_backslash (ahead : Ahead text segment (part ++ '\\' :: rest))
    (here : reader.here? = some place) :
    string? text position value segment reader =
      (octets rest).head?.elim (some (.fault .unterminatedString position, reader.advance 1))
        fun escaped => (unescape? escaped).elim
          (some (.fault (.invalidEscape escaped) place, reader.advance 2))
          fun c => string? text position (value ++ part ++ [c]) (reader.current + 2)
            (reader.advance 2) := by
  have reached := current ▸ ahead.skip
  have sliced := current ▸ ahead.slice
  have behind := reached.pass (by decide)
  have seen : octetAt? text reader.current = some '\\' :=
    reached.octetAt.trans (head?_octets_cons '\\' rest)
  obtain ⟨inside, rfl⟩ := here?_eq_some.mp here
  have column : minus? (reader.current + 1) reader.lineStart =
      some (reader.current - reader.lineStart + 1) := by
    rw [minus?, if_pos (by omega)]
    congr 1
    omega
  rw [string?, if_neg (Nat.not_le.mpr (inside_of_octetAt? seen)), seen]
  simp only [Option.bind_eq_bind, Option.bind_some, advance, minus?_add, sliced, column,
    if_neg (by decide : ¬ '\\' = '"'), if_true, Option.pure_def, behind.octetAt, behind.length,
    Nat.add_assoc]
  cases octets rest with
  | nil => simp
  | cons escaped octets =>
    rw [if_neg (by rw [List.length_cons]; omega), List.head?_cons, Option.bind_some,
      Option.elim_some]
    cases unescape? escaped <;> rfl

private theorem string?_eq (ahead : Ahead text segment (part ++ rest))
    (here : reader.here? = some place) :
    string? text position value segment reader =
      some (ends position place reader (value ++ part) rest (stringBody rest)) := by
  fun_induction stringBody rest generalizing segment part value reader place with
  | case1 =>
    have length : (octets text).length = reader.current := (current ▸ ahead.skip).length
    rw [string?, if_pos (Nat.le_of_eq length)]
    rfl
  | case2 after =>
    have seen : octetAt? text reader.current = some '"' :=
      (current ▸ ahead.skip).octetAt.trans (head?_octets_cons '"' after)
    rw [string?, if_neg (Nat.not_le.mpr (inside_of_octetAt? seen)), seen]
    simp only [Option.bind_eq_bind, Option.bind_some, current ▸ ahead.slice, if_true, ends,
      List.append_nil]
    rfl
  | case3 =>
    rw [string?_backslash current ahead here]
    rfl
  | case4 c after decoded known ih =>
    have visible : ∀ d ∈ ['\\', c], Visible d := by simp [visible_of_unescape? known]; decide
    have passed := passAll_visible visible reader
    have stop : reader.current + 2 = segment + (encoded (part ++ ['\\', c])).length := by
      rw [encoded_append, List.length_append, length_of_visible visible, current, Nat.add_assoc]
      rfl
    have behind : Ahead text (reader.current + 2) ([] ++ after) := by
      rw [stop]
      exact Ahead.skip (by simpa using ahead)
    have here' := here?_passAll here ['\\', c]
    rw [passed] at here'
    rw [string?_backslash current ahead here, head?_octets_cons, Option.elim_some,
      unescape?_leadingByte, known, Option.elim_some]
    refine (ih rfl behind here').trans (congrArg some ?_)
    rw [List.append_nil, ← passed]
    exact (ends_cons _ _ _ _ _ _ _ _).symm
  | case5 c after unknown =>
    rw [string?_backslash current ahead here, head?_octets_cons, Option.elim_some,
      unescape?_leadingByte, unknown]
    rfl
  | case6 c after quote last escape ih =>
    have plain : c ≠ '\\' := by
      rintro rfl
      cases after with
      | nil => exact last rfl rfl
      | cons d after => exact escape d after rfl rfl
    have ordinary : ∀ octet ∈ octets [c], octet ≠ '"' ∧ octet ≠ '\\' := by
      intro octet member
      constructor
      · rintro rfl
        exact quote (List.mem_singleton.mp (mem_of_mem_octets (by decide) member)).symm
      · rintro rfl
        exact plain (List.mem_singleton.mp (mem_of_mem_octets (by decide) member)).symm
    obtain ⟨front, split, reached⟩ := (current ▸ ahead.skip).spelling
    rw [octets_cons] at split
    rw [string?_passAll split ordinary reached]
    have further := @ih (reader.passAll (octets [c])) (part ++ [c]) value segment _
      (by rw [current_passAll, current, encoded_append, List.length_append, length_octets,
        Nat.add_assoc]) (by simpa using ahead) (here?_passAll here [c])
    refine further.trans (congrArg some ?_)
    rw [← List.append_assoc]
    exact (ends_cons _ _ _ _ _ _ _ _).symm

end String

/-- What is found at a place between characters is what stands there. -/
private theorem piece?_eq (ahead : Ahead text reader.current (first :: rest))
    (here : reader.here? = some position) :
    piece? text position reader = some (found position reader (Lexeme.front first rest)) := by
  by_cases large : 128 ≤ first.toNat
  · obtain ⟨mark, unslashed, single, double⟩ := isMark_of_large large
    have plain : '\n' ∉ [first] := fun member => by
      rw [← List.mem_singleton.mp member] at large
      exact absurd large (by decide)
    have isFront : Lexeme.front first rest = .fault (.unexpected first) [first] := by
      rw [front_of_isMark mark fun opens => unslashed (opensComment_cons.mp opens).1, markFront]
      simp [single, show doubleMark? first = fun _ => none from funext double]
    obtain ⟨front, split, current⟩ := ahead.spelling
    have sliced := @Ahead.slice _ rest [first] _ ahead
    rw [isFront, found, passAll_eq_advance plain]
    rw [octets_cons] at split
    have spelt := spelt first
    rw [← length_octets] at sliced ⊢
    generalize octets [first] = spelling at *
    cases spelt with
    | narrow small => omega
    | @wide lead tail _ begins continues =>
      rw [List.length_cons, Nat.add_comm _ 1] at *
      rw [piece?_large split (by omega) continues current, Nat.add_assoc, sliced]
      rfl
  have small : first.toNat < 128 := by omega
  have lead : leadingByte first = first := (leadingByte_eq_iff small).mpr rfl
  have seen : octetAt? text reader.current = some first := by
    rw [ahead.octetAt, head?_octets_cons, lead]
  rw [piece?, seen, Option.bind_eq_bind, Option.bind_some]
  by_cases space : isSpace first = true
  · have isFront : Lexeme.front first rest = .blank [first] := if_pos space
    rw [if_pos space, isFront, found, octets_of_narrow (by simpa using small)]
    rfl
  rw [if_neg space]
  by_cases digit : isDigit first = true
  · rw [if_pos digit, front_of_isDigit digit, number?_eq digit ahead]
  rw [if_neg digit]
  by_cases starts : isWordStart first = true
  · rw [if_pos starts, front_of_isWordStart starts, word?_eq starts ahead]
  rw [if_neg starts]
  have behind := ahead.pass small
  by_cases quote : first = '"'
  · subst quote
    have string := @string?_eq _ _ (reader.advance 1) position [] [] (reader.advance 1).current _
      rfl behind (here?_advance here 1)
    rw [if_pos rfl, front_quote, string, stringFront]
    have opened := @passAll_cons reader '"' (by decide)
    have past (raw : List Char) : (position.right 1).past raw = position.past ('"' :: raw) := rfl
    cases stringBody rest <;>
      simp only [ends, found, opened, past, List.nil_append, List.append_nil]
  have mark : IsMark first := by simp_all [IsMark]
  have marked := @mark?_eq _ _ _ _ position small (by rintro rfl; exact space rfl) ahead
  have peeked : peek? text (reader.advance 1).current = _ := behind.peek
  have next : octetAt? text (reader.advance 1).current = _ := behind.octetAt
  rw [if_neg quote, peeked, Option.bind_some, next]
  by_cases opens : OpensComment (first :: rest)
  · obtain ⟨rfl, second, comment, rfl, rfl | rfl⟩ := opensComment_cons.mp opens
    · rw [head?_octets_cons]
      exact lineComment?_eq ahead
    · rw [head?_octets_cons]
      exact blockComment?_eq ahead
  · have other {second : Char} (narrow : second.toNat < 128)
        (opener : second = '/' ∨ second = '*') :
        ¬(first = '/' ∧ (octets rest).head?.getD '\x00' = second) := by
      rintro ⟨rfl, same⟩
      cases rest with
      | nil =>
        subst same
        exact absurd opener (by decide)
      | cons d rest =>
        rw [head?_octets_cons, Option.getD_some, leadingByte_eq_iff narrow] at same
        exact opens (opensComment_cons.mpr ⟨rfl, d, rest, rfl, same ▸ opener⟩)
    rw [if_neg (other (by decide) (.inl rfl)), if_neg (other (by decide) (.inr rfl)), marked,
      front_of_isMark mark opens]

/-- The rest of a character is one fault. -/
private theorem piece?_torn {before : List Char} {c : Char} (wide : 1 < c.utf8Size)
    (split : text = before ++ c :: rest) (current : reader.current = (encoded before).length + 1) :
    piece? text position reader =
      some (.fault .brokenCharacter position, reader.advance (c.utf8Size - 1)) := by
  have size : (octets [c]).length = c.utf8Size := by simp [length_octets]
  have spelt := spelt c
  have spelling : octets text = octets before ++ (octets [c] ++ octets rest) := by
    rw [split, octets_append, octets_cons]
  have none (stop : Nat) : slice? text reader.current stop = none := by
    rw [current, split]
    exact slice?_inside wide before rest stop
  generalize octets [c] = letters at *
  cases spelt with
  | narrow _ => simp at size; omega
  | @wide lead tail _ _ continues =>
  cases tail with
  | nil => simp at size; omega
  | cons octet tail =>
  obtain ⟨continued, continues⟩ := List.forall_mem_cons.mp continues
  have spelling : octets text = (octets before ++ [lead]) ++ octet :: (tail ++ octets rest) := by
    simp [spelling]
  have less : c.utf8Size - 1 = 1 + tail.length := by rw [← size]; simp; omega
  rw [piece?_large spelling (large_of_isContinuation continued) continues
    (by simp [current, length_octets]), none, less]
  rfl

structure Follows (text : List Char) (reader : Reader) (cursor : Cursor) : Prop where
  stands : Stands text reader.current cursor
  here : reader.here? = some cursor.position

private theorem Follows.ahead (follows : Follows text reader ⟨rest, 0, position⟩) :
    Ahead text reader.current rest := by
  have stands := follows.stands
  generalize reader.current = offset at stands
  generalize untorn : 0 = torn at stands
  cases stands with
  | between split => exact ⟨_, split, rfl⟩
  | inside split wide => omega

private theorem Follows.torn {torn : Nat} (follows : Follows text reader ⟨rest, torn, position⟩)
    (broken : torn ≠ 0) :
    piece? text position reader =
      some (.fault .brokenCharacter position, reader.advance torn) := by
  have stands := follows.stands
  generalize isOffset : reader.current = offset at stands
  cases stands with
  | between split => exact absurd rfl broken
  | @inside before _ c _ split wide =>
    refine piece?_torn wide (by rw [split, List.append_cons]) ?_
    rw [isOffset, encoded_append, List.length_append]
    rfl

private theorem Follows.found {found : Front} (follows : Follows text reader ⟨rest, 0, position⟩)
    (leads : Leads rest found) :
    piece? text position reader = some (Reader.found position reader found) := by
  obtain ⟨first, tail, rfl, rfl⟩ := leads
  exact piece?_eq follows.ahead follows.here

private theorem inside_of_piece? {result : Found × Reader}
    (piece : piece? text position reader = some result) :
    reader.current < (octets text).length := by
  obtain ⟨octet, seen, -⟩ := Option.bind_eq_some_iff.mp piece
  exact inside_of_octetAt? seen

private theorem current_passAll_octets (raw rest : List Char) (position position' : Position) :
    (reader.passAll (octets raw)).current = reader.current +
      (Cursor.bytesLeft ⟨raw ++ rest, 0, position⟩ - Cursor.bytesLeft ⟨rest, 0, position'⟩) := by
  rw [current_passAll, length_octets, Cursor.bytesLeft_sub]

/-- A call of the one is a call of the other. -/
private theorem Follows.next {cursor : Cursor} (follows : Follows text reader cursor) :
    ∃ after, next? text reader = some (some cursor.next.1, after) ∧
      (∀ next, cursor.next.2 = some next → Follows text after next) ∧
      (cursor.next.2 = none → (octets text).length < after.current) := by
  fun_induction Cursor.next cursor generalizing reader with
  | case1 cursor next blank ih =>
    have stands := follows.stands.step (.inl blank)
    have stepped := cursor.stepped
    rw [blank] at stepped
    cases stepped with
    | @blank raw rest position leads =>
      have piece := follows.found leads
      rw [← current_passAll_octets] at stands
      obtain ⟨after, call, goes⟩ := ih ⟨stands, here?_passAll follows.here raw⟩
      refine ⟨after, ?_, goes⟩
      have moved : reader.current < (reader.passAll (octets raw)).current := by
        rw [current_passAll, length_octets]
        exact Nat.lt_add_of_pos_right (List.length_pos_iff.mpr (encoded_ne_nil leads.raw_ne_nil))
      rw [next?, if_pos (inside_of_piece? piece), follows.here, Option.bind_eq_bind,
        Option.bind_some, piece]
      exact (if_pos moved).trans call
  | case2 cursor item next found =>
    have stands := follows.stands.step (.inr ⟨item, found⟩)
    suffices reads : ∃ after, next? text reader = some (some item, after) ∧
        after.current = reader.current + (cursor.bytesLeft - next.bytesLeft) ∧
        after.here? = some next.position by
      obtain ⟨after, call, current, here⟩ := reads
      refine ⟨after, call, fun other isNext => ?_, by simp⟩
      obtain rfl := Option.some.inj isNext
      exact ⟨current ▸ stands, here⟩
    have stepped := cursor.stepped
    rw [found] at stepped
    cases stepped with
    | @token kind raw rest position leads =>
      have piece := follows.found leads
      have sliced := follows.ahead.slice
      rw [← length_octets, ← current_passAll] at sliced
      refine ⟨_, ?_, current_passAll_octets raw rest _ _, here?_passAll follows.here raw⟩
      rw [next?, if_pos (inside_of_piece? piece), follows.here, Option.bind_eq_bind,
        Option.bind_some, piece]
      simp only [Reader.found, Option.bind_eq_bind, Option.bind_some, sliced]
      rfl
    | @fault cause raw rest position leads =>
      have piece := follows.found leads
      refine ⟨_, ?_, current_passAll_octets raw rest _ _, here?_passAll follows.here raw⟩
      rw [next?, if_pos (inside_of_piece? piece), follows.here, Option.bind_eq_bind,
        Option.bind_some, piece]
      rfl
    | @escape raw rest escaped position leads =>
      have piece := follows.found leads
      refine ⟨(reader.passAll (octets raw)).advance 2, ?_, ?_,
        here?_advance (here?_passAll follows.here raw) 2⟩
      · rw [next?, if_pos (inside_of_piece? piece), follows.here, Option.bind_eq_bind,
          Option.bind_some, piece]
        rfl
      · have one : (String.utf8EncodeChar '\\').length = 1 := rfl
        have positive := escaped.utf8Size_pos
        simp only [advance, current_passAll, length_octets, Cursor.bytesLeft_eq, encoded_append,
          encoded_cons, List.length_append, one, String.length_utf8EncodeChar]
        omega
    | @torn rest torn position broken =>
      have piece := follows.torn broken
      refine ⟨_, ?_, ?_, here?_advance follows.here _⟩
      · rw [next?, if_pos (inside_of_piece? piece), follows.here, Option.bind_eq_bind,
          Option.bind_some, piece]
        rfl
      · simp only [advance, Cursor.bytesLeft_eq]
        omega
  | case3 cursor mark found =>
    have stepped := cursor.stepped
    rw [found] at stepped
    cases stepped with
    | finish =>
      have finished : (octets text).length = reader.current := follows.ahead.length
      refine ⟨reader.advance 1, ?_, by simp, fun _ => ?_⟩
      · rw [next?, if_neg (by omega), if_pos finished.symm, follows.here]
        rfl
      · rw [finished]
        exact Nat.lt_succ_self _

end Reader

inductive Call where
  | next
  | reset
  deriving DecidableEq

def asked (calls : List Call) : Nat :=
  (calls.reverse.takeWhile (· = .next)).length

def Scanner.after (text : String) (calls : List Call) : Scanner :=
  calls.foldl (fun scanner call => match call with
    | .next => scanner.next.2
    | .reset => scanner.reset) (.ofText text)

def Reader.after? (text : String) (calls : List Call) : Option Reader :=
  calls.foldlM (fun reader call => match call with
    | .next => (next? text.toList reader).map Prod.snd
    | .reset => some .start) .start

/-- A scanner and a reader of a text that have given the same number of items. -/
structure Abreast (text : String) (count : Nat) (scanner : Scanner) (reader : Reader) : Prop where
  same : scanner.text = text
  reading : ∀ cursor, scanner.cursor = some cursor →
    reader.Follows text.toList cursor ∧ cursor.items = (scanAll text).drop count
  ended : scanner.cursor = none →
    (octets text.toList).length < reader.current ∧ (scanAll text).length ≤ count

private theorem abreast_start (text : String) : Abreast text 0 (.ofText text) .start where
  same := rfl
  reading cursor same := Option.some.inj same ▸ ⟨⟨stands_start _, rfl⟩, rfl⟩
  ended none := by cases none

private theorem Abreast.next {text : String} {count : Nat} {scanner : Scanner} {reader : Reader}
    (abreast : Abreast text count scanner reader) :
    scanner.next.1 = (scanAll text)[count]? ∧
      ∃ after, reader.next? text.toList = some ((scanAll text)[count]?, after) ∧
        Abreast text (count + 1) scanner.next.2 after := by
  obtain ⟨own, _ | cursor⟩ := scanner
  · obtain ⟨behind, few⟩ := abreast.ended rfl
    have none : (scanAll text)[count]? = none := List.getElem?_eq_none few
    refine ⟨none.symm, reader, ?_, abreast.same, by simp [Scanner.next],
      fun _ => ⟨behind, by omega⟩⟩
    rw [Reader.next?, if_neg (by omega), if_neg (by omega), none]
  · obtain ⟨follows, items⟩ := abreast.reading cursor rfl
    obtain ⟨after, call, goes, ends⟩ := follows.next
    have ahead : cursor.items = cursor.next.1 :: (cursor.next.2.elim [] Cursor.items) := by
      rw [Cursor.items.eq_def]
      split <;> rename_i next <;> rw [next] <;> rfl
    rw [ahead] at items
    have answer : some cursor.next.1 = (scanAll text)[count]? := by
      rw [← List.head?_drop, ← items]
      rfl
    have rest : cursor.next.2.elim [] Cursor.items = (scanAll text).drop (count + 1) := by
      rw [← List.tail_drop, ← items]
      rfl
    refine ⟨answer, after, answer ▸ call, abreast.same, fun next isNext => ?_, fun last => ?_⟩
    · have isNext : cursor.next.2 = some next := isNext
      rw [isNext] at rest
      exact ⟨goes next isNext, rest⟩
    · have last : cursor.next.2 = none := last
      rw [last] at rest
      exact ⟨ends last, List.drop_eq_nil_iff.mp rest.symm⟩

private theorem abreast_after (text : String) (calls : List Call) :
    ∃ reader, Reader.after? text calls = some reader ∧
      Abreast text (asked calls) (.after text calls) reader := by
  induction calls using List.reverseRecOn with
  | nil => exact ⟨.start, rfl, abreast_start text⟩
  | append_singleton calls call ih =>
    obtain ⟨reader, reached, abreast⟩ := ih
    rw [Reader.after?] at reached
    rw [Reader.after?, List.foldlM_append, reached, Scanner.after, List.foldl_append]
    cases call with
    | next =>
      obtain ⟨-, after, answers, abreast⟩ := abreast.next
      have more : asked (calls ++ [.next]) = asked calls + 1 := by simp [asked]
      exact ⟨after, by simp [answers], more ▸ abreast⟩
    | reset =>
      have more : asked (calls ++ [.reset]) = 0 := by simp [asked]
      have again : (Scanner.after text calls).reset = .ofText text := by
        rw [Scanner.reset, abreast.same]
      have start := abreast_start text
      rw [← again] at start
      exact ⟨.start, rfl, more ▸ start⟩

/-- The items of a text end with the only end mark, and there are no more others than bytes. -/
theorem Cursor.items_ended (cursor : Cursor) :
    ∃ items mark, cursor.items = items ++ [.ok mark] ∧ mark.kind = .finish ∧
      items.length ≤ cursor.bytesLeft ∧ ∀ token, .ok token ∈ items → token.kind ≠ .finish := by
  obtain ⟨offset⟩ : Nonempty Nat := ⟨0⟩
  fun_induction placed offset cursor with
  | case1 offset cursor next found ih =>
    obtain ⟨items, mark, all, isMark, few, others⟩ := ih
    have fewer := step_blank_bytesLeft_lt found
    exact ⟨items, mark, by rw [items_of_blank found, all], isMark, by omega, others⟩
  | case2 offset cursor item next found after ih =>
    obtain ⟨items, mark, all, isMark, few, others⟩ := ih
    have fewer := step_item_bytesLeft_lt found
    refine ⟨item :: items, mark, by rw [items_of_item found, all]; rfl, isMark,
      by rw [List.length_cons]; omega, fun token member => ?_⟩
    rcases List.mem_cons.mp member with rfl | later
    · have stepped := cursor.stepped
      rw [found] at stepped
      cases stepped with
      | token leads =>
        obtain ⟨first, rest, -, isFront⟩ := leads
        exact kind_ne_finish_of_front isFront
    · exact others token later
  | case3 offset cursor mark found =>
    have stepped := cursor.stepped
    rw [found] at stepped
    cases stepped with
    | finish => exact ⟨[], _, items_of_finish found, rfl, by simp, by simp⟩

/-- The scanner can be restarted: whatever calls came before, the answer is the item of the text
whose number is the number of calls since the last reset, and nothing behind the last item. The same
answers come from reading by offsets, where no lookup, slice or difference ever fails. A text has at
most one item more than bytes, and the last one is the only end mark. -/
theorem scanning_restarts_and_ends (text : String) :
    (∀ calls, (Scanner.after text calls).next.1 = (scanAll text)[asked calls]? ∧
      ∃ reader after, Reader.after? text calls = some reader ∧
        reader.next? text.toList = some ((scanAll text)[asked calls]?, after)) ∧
    (scanAll text).length ≤ (bytes text).length + 1 ∧
    ∃ items mark, scanAll text = items ++ [.ok mark] ∧ mark.kind = .finish ∧
      ∀ token, .ok token ∈ items → token.kind ≠ .finish := by
  obtain ⟨items, mark, all, isMark, few, others⟩ := (Cursor.start text.toList).items_ended
  refine ⟨fun calls => ?_, ?_, items, mark, all, isMark, others⟩
  · obtain ⟨reader, reached, abreast⟩ := abreast_after text calls
    obtain ⟨answer, after, call, -⟩ := abreast.next
    exact ⟨answer, reader, after, reached, call⟩
  · rw [scanAll, all, List.length_append, bytes_eq_encoded]
    rw [Cursor.bytesLeft_eq] at few
    exact Nat.succ_le_succ few

end ClassScript.Token
