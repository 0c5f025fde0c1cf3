import ClassScript.Position
import Mathlib.Data.List.Basic
import Mathlib.Tactic.SplitIfs

/-!
The bytes of a text, and the line and column of a byte.
-/

set_option autoImplicit false

namespace ClassScript

namespace Text

def bytes (text : String) : List UInt8 :=
  text.toUTF8.data.toList

def newline : UInt8 := 10

def IsContinuation (byte : UInt8) : Prop :=
  128 ≤ byte.toNat ∧ byte.toNat < 192

def encoded (cs : List Char) : List UInt8 :=
  cs.flatMap String.utf8EncodeChar

theorem bytes_eq_encoded (text : String) : bytes text = encoded text.toList := by
  have spelling : text.toUTF8 = text.toList.utf8Encode := by
    rw [← String.toByteArray_ofList, String.ofList_toList]
    rfl
  rw [bytes, spelling, List.utf8Encode, List.data_toByteArray, List.toList_toArray]
  rfl

@[simp] theorem encoded_nil : encoded [] = [] := rfl

@[simp] theorem encoded_cons (c : Char) (cs : List Char) :
    encoded (c :: cs) = String.utf8EncodeChar c ++ encoded cs := rfl

@[simp] theorem encoded_append (cs ds : List Char) :
    encoded (cs ++ ds) = encoded cs ++ encoded ds :=
  List.flatMap_append

theorem utf8EncodeChar_eq_cons (c : Char) : ∃ lead tail, String.utf8EncodeChar c = lead :: tail ∧
    (lead.toNat = c.toNat ∧ c.toNat < 128 ∧ tail = [] ∨ 128 ≤ c.toNat ∧ 192 ≤ lead.toNat) ∧
    ∀ byte ∈ tail, IsContinuation byte := by
  have continues (n : Nat) : IsContinuation (UInt8.ofNat (n % 64 + 128)) := by
    simp only [IsContinuation, UInt8.toNat_ofNat']
    omega
  have number : c.toNat = c.val.toNat := rfl
  unfold String.utf8EncodeChar
  simp only
  split_ifs with one two three
  · refine ⟨_, [], rfl, .inl ⟨?_, by omega, rfl⟩, by simp⟩
    simp only [UInt8.toNat_ofNat']
    omega
  · refine ⟨_, [_], rfl, .inr ⟨by omega, ?_⟩, ?_⟩
    · simp only [UInt8.toNat_ofNat']
      omega
    · exact List.forall_mem_singleton.mpr (continues _)
  · refine ⟨_, [_, _], rfl, .inr ⟨by omega, ?_⟩, ?_⟩
    · simp only [UInt8.toNat_ofNat']
      omega
    · exact List.forall_mem_cons.mpr ⟨continues _, List.forall_mem_singleton.mpr (continues _)⟩
  · refine ⟨_, [_, _, _], rfl, .inr ⟨by omega, ?_⟩, ?_⟩
    · simp only [UInt8.toNat_ofNat']
      omega
    · exact List.forall_mem_cons.mpr ⟨continues _, List.forall_mem_cons.mpr
        ⟨continues _, List.forall_mem_singleton.mpr (continues _)⟩⟩

private theorem eq_newline_of_mem {c : Char} (member : newline ∈ String.utf8EncodeChar c) :
    c = '\n' := by
  obtain ⟨lead, tail, spelling, length, continues⟩ := utf8EncodeChar_eq_cons c
  rw [spelling] at member
  rcases List.mem_cons.mp member with rfl | later
  · obtain ⟨same, -⟩ | ⟨-, large⟩ := length
    · exact Char.ext (UInt32.toNat_inj.mp same.symm)
    · exact absurd large (by decide)
  · exact absurd (continues _ later).1 (by decide)

theorem toNat_ofNat_byte (byte : UInt8) : (Char.ofNat byte.toNat).toNat = byte.toNat := by
  have valid : byte.toNat.isValidChar := .inl (by have := byte.toNat_lt; omega)
  rw [Char.ofNat, dif_pos valid]
  rfl

theorem ofNat_eq_newline (byte : UInt8) : Char.ofNat byte.toNat = '\n' ↔ byte = newline := by
  constructor
  · intro same
    have value := toNat_ofNat_byte byte
    rw [same] at value
    exact UInt8.toNat_inj.mp value.symm
  · rintro rfl
    rfl

end Text

namespace Position

open Text

def afterByte (p : Position) (byte : UInt8) : Position :=
  if byte = newline then { line := p.line + 1, column := 1 } else p.right 1

def pastBytes (p : Position) (bytes : List UInt8) : Position :=
  bytes.foldl afterByte p

/-- The place of a byte of a text, given how many bytes come before it: one line more than there
are newlines among those, and one column more than there are bytes after the last of them. -/
def ofOffset (bytes : List UInt8) (offset : Nat) : Position where
  line := 1 + (bytes.take offset).count newline
  column := 1 + ((bytes.take offset).reverse.takeWhile (· ≠ newline)).length

theorem pastBytes_append (p : Position) (first second : List UInt8) :
    p.pastBytes (first ++ second) = (p.pastBytes first).pastBytes second :=
  List.foldl_append

theorem pastBytes_of_notMem (p : Position) {bytes : List UInt8} (plain : newline ∉ bytes) :
    p.pastBytes bytes = p.right bytes.length := by
  induction bytes generalizing p with
  | nil => rfl
  | cons byte rest ih =>
    obtain ⟨apart, plainRest⟩ : newline ≠ byte ∧ newline ∉ rest := by simpa using plain
    rw [pastBytes, List.foldl_cons, afterByte, if_neg (Ne.symm apart)]
    have further := ih (p.right 1) plainRest
    rw [pastBytes] at further
    rw [further]
    simp only [right, List.length_cons, Position.mk.injEq, true_and]
    omega

private theorem after_eq_pastBytes (p : Position) (c : Char) :
    p.after c = p.pastBytes (String.utf8EncodeChar c) := by
  by_cases ends : c = '\n'
  · subst ends
    rfl
  · have plain : newline ∉ String.utf8EncodeChar c := fun member => ends (eq_newline_of_mem member)
    rw [after, if_neg ends, pastBytes_of_notMem p plain, String.length_utf8EncodeChar]
    rfl

theorem past_eq_pastBytes (p : Position) (cs : List Char) :
    p.past cs = p.pastBytes (encoded cs) := by
  induction cs generalizing p with
  | nil => rfl
  | cons c cs ih => rw [past_cons, ih, after_eq_pastBytes, encoded_cons, pastBytes_append]

/-- Counting while bytes are passed comes to the same as looking for newlines among them. -/
theorem ofOffset_eq_pastBytes (bytes : List UInt8) (offset : Nat) :
    ofOffset bytes offset = start.pastBytes (bytes.take offset) := by
  have backwards (reversed : List UInt8) : start.pastBytes reversed.reverse =
      { line := 1 + reversed.count newline,
        column := 1 + (reversed.takeWhile (· ≠ newline)).length } := by
    induction reversed with
    | nil => rfl
    | cons byte rest ih =>
      rw [List.reverse_cons, pastBytes_append, ih]
      by_cases ends : byte = newline
      · simp [pastBytes, afterByte, ends, Nat.add_assoc]
      · simp [pastBytes, afterByte, ends, right, Nat.add_assoc]
  have forwards := backwards (bytes.take offset).reverse
  rw [List.reverse_reverse, List.count_reverse] at forwards
  rw [forwards, ofOffset]

end Position

end ClassScript
