import ClassScript.Number
import Mathlib.Data.Nat.Bitwise

/-!
Binary64 values by the fields of their bits: which natural number a value is, and what is shown
of it.
-/

set_option autoImplicit false

namespace ClassScript.Number

open Decimal

def signBit (x : Float) : Nat :=
  x.toBits.toNat / Nat.pow 2 63

def exponentField (x : Float) : Nat :=
  x.toBits.toNat / Nat.pow 2 52 % 2048

def fractionField (x : Float) : Nat :=
  x.toBits.toNat % Nat.pow 2 52

/-- The magnitude of the value is exactly the natural number. Exponent field `e` and fraction field
`f` stand for `(2 ^ 52 + f) * 2 ^ (e - 1075)`, or for `f * 2 ^ (1 - 1075)` if `e` is zero; the
greatest `e` stands for no finite value. -/
def Measures (x : Float) (n : Nat) : Prop :=
  exponentField x ≠ 2047 ∧
    (if exponentField x = 0 then fractionField x * Nat.pow 2 1
      else (Nat.pow 2 52 + fractionField x) * Nat.pow 2 (exponentField x)) = n * Nat.pow 2 1075

/-- The value is exactly the natural number, with a sign only on zero. -/
def Counts (x : Float) (n : Nat) : Prop :=
  Measures x n ∧ (signBit x = 1 → n = 0)

/-- The text of a number: integers below `10 ^ 15` digit by digit, names for what is not finite,
and the plain text for everything else. -/
inductive Shows (x : Float) : String → Prop where
  | whole {n : Nat} (measures : Measures x n) (small : n < 1000000000000000) :
    Shows x ((if signBit x = 1 then "-" else "") ++ n.repr)
  | notANumber (top : exponentField x = 2047) (payload : fractionField x ≠ 0) : Shows x "NaN"
  | infinite (top : exponentField x = 2047) (bare : fractionField x = 0) :
    Shows x (if signBit x = 1 then "-inf" else "inf")
  | fraction (finite : exponentField x ≠ 2047)
    (broken : ∀ n, n < 1000000000000000 → ¬Measures x n) : Shows x (plainText x)

private theorem signBit_lt (x : Float) : signBit x < 2 := by
  have bound := x.toBits.toNat_lt
  simp only [signBit, Nat.pow_eq]
  omega

private theorem ofFloat_eq (x : Float) :
    Reading.ofFloat x =
      if exponentField x = 2047 then
        if fractionField x = 0 then .infinite (signBit x == 1) else .notANumber
      else .finite (signBit x == 1) (Magnitude.ofFields (exponentField x) (fractionField x)) := by
  have sign : (x.toBits >>> 63 == 1) = (signBit x == 1) := by
    rw [Bool.eq_iff_iff]
    simp only [beq_iff_eq, ← UInt64.toNat_inj, UInt64.toNat_shiftRight, Nat.shiftRight_eq_div_pow,
      signBit]
    rfl
  have exponent : ((x.toBits >>> 52) &&& 0x7FF).toNat = exponentField x := by
    rw [UInt64.toNat_and, UInt64.toNat_shiftRight, Nat.shiftRight_eq_div_pow]
    exact Nat.and_two_pow_sub_one_eq_mod _ 11
  have fraction : (x.toBits &&& 0xFFFFFFFFFFFFF).toNat = fractionField x := by
    rw [UInt64.toNat_and]
    exact Nat.and_two_pow_sub_one_eq_mod _ 52
  simp only [Reading.ofFloat, Reading.ofBits, sign, exponent, fraction]

private theorem magnitude_natural?_eq_some_iff {magnitude : Magnitude} {n : Nat} :
    magnitude.natural? = some n ↔
      magnitude.significand * Nat.pow 2 magnitude.exponent.toNat =
        n * Nat.pow 2 (-magnitude.exponent).toNat := by
  have positive : 0 < magnitude.quotient.2 := Nat.two_pow_pos _
  show (if magnitude.quotient.1 % magnitude.quotient.2 = 0
      then some (magnitude.quotient.1 / magnitude.quotient.2) else none) = some n ↔
    magnitude.quotient.1 = n * magnitude.quotient.2
  rw [Option.ite_none_right_eq_some, Option.some.injEq]
  constructor
  · rintro ⟨whole, rfl⟩
    exact (Nat.div_mul_cancel (Nat.dvd_of_mod_eq_zero whole)).symm
  · intro same
    rw [same]
    exact ⟨Nat.mul_mod_left _ _, Nat.mul_div_cancel _ positive⟩

private theorem scaled_iff (significand n e k : Nat) :
    significand * Nat.pow 2 ((e : Int) - k).toNat = n * Nat.pow 2 (-((e : Int) - k)).toNat ↔
      significand * Nat.pow 2 e = n * Nat.pow 2 k := by
  simp only [Nat.pow_eq]
  rcases Nat.le_total k e with above | below
  · obtain ⟨d, rfl⟩ := Nat.exists_eq_add_of_le above
    have up : (((k + d : Nat) : Int) - k).toNat = d := by omega
    have down : (-(((k + d : Nat) : Int) - k)).toNat = 0 := by omega
    rw [up, down, Nat.pow_zero, Nat.mul_one, Nat.add_comm, Nat.pow_add, ← Nat.mul_assoc,
      Nat.mul_left_inj (Nat.two_pow_pos k).ne']
  · obtain ⟨d, rfl⟩ := Nat.exists_eq_add_of_le below
    have up : ((e : Int) - ((e + d : Nat) : Int)).toNat = 0 := by omega
    have down : (-((e : Int) - ((e + d : Nat) : Int))).toNat = d := by omega
    rw [up, down, Nat.pow_zero, Nat.mul_one, Nat.add_comm, Nat.pow_add, ← Nat.mul_assoc,
      Nat.mul_left_inj (Nat.two_pow_pos e).ne']

private theorem natural?_ofFields_iff {x : Float} (finite : exponentField x ≠ 2047) {n : Nat} :
    (Magnitude.ofFields (exponentField x) (fractionField x)).natural? = some n ↔ Measures x n := by
  rw [magnitude_natural?_eq_some_iff, Measures, Magnitude.ofFields, and_iff_right finite]
  -- The powers are too large to be evaluated, so the bias becomes a variable.
  have least : (-1074 : Int) = ((1 : Nat) : Int) - (1075 : Nat) := rfl
  have bias : (1075 : Int) = (1075 : Nat) := rfl
  by_cases subnormal : exponentField x = 0
  · rw [if_pos subnormal, if_pos subnormal, least]
    generalize 1075 = k
    exact scaled_iff (fractionField x) n 1 k
  · rw [if_neg subnormal, if_neg subnormal, bias]
    generalize 1075 = k
    exact scaled_iff (Nat.pow 2 52 + fractionField x) n (exponentField x) k

theorem natural?_eq_some_iff {x : Float} {n : Nat} : natural? x = some n ↔ Counts x n := by
  rw [natural?, ofFloat_eq, Counts]
  by_cases top : exponentField x = 2047
  · rw [if_pos top]
    refine iff_of_false ?_ fun counts => counts.1.1 top
    split_ifs <;> exact id
  · rw [if_neg top, ← natural?_ofFields_iff top]
    dsimp only
    cases (Magnitude.ofFields (exponentField x) (fractionField x)).natural? with
    | none => simp
    | some found =>
      have sign := signBit_lt x
      grind

private theorem shown_of_measures {x : Float} {n : Nat} (measures : Measures x n)
    (small : n < 1000000000000000) :
    shown x = (if signBit x = 1 then "-" else "") ++ n.repr := by
  have natural := (natural?_ofFields_iff measures.1).mpr measures
  have below : n < integralLimit := small
  simp [shown, ofFloat_eq, measures.1, natural, below]

private theorem shown_of_fraction {x : Float} (finite : exponentField x ≠ 2047)
    (broken : ∀ n, n < 1000000000000000 → ¬Measures x n) : shown x = plainText x := by
  rw [shown, ofFloat_eq, if_neg finite]
  dsimp only
  cases natural : (Magnitude.ofFields (exponentField x) (fractionField x)).natural? with
  | none => rfl
  | some n =>
    have large : ¬n < integralLimit := fun small =>
      broken n small ((natural?_ofFields_iff finite).mp natural)
    simp only [if_neg large]

private theorem shown_of_notANumber {x : Float} (top : exponentField x = 2047)
    (payload : fractionField x ≠ 0) : shown x = "NaN" := by
  simp [shown, plainText, ofFloat_eq, top, payload, Layout.text, plain]

private theorem shown_of_infinite {x : Float} (top : exponentField x = 2047)
    (bare : fractionField x = 0) : shown x = if signBit x = 1 then "-inf" else "inf" := by
  simp [shown, plainText, ofFloat_eq, top, bare, Layout.text, plain]

/-- A number is shown by exactly one text. -/
theorem shows_iff {x : Float} {text : String} : Shows x text ↔ text = shown x := by
  constructor
  · intro shows
    cases shows with
    | whole measures small => exact (shown_of_measures measures small).symm
    | notANumber top payload => exact (shown_of_notANumber top payload).symm
    | infinite top bare => exact (shown_of_infinite top bare).symm
    | fraction finite broken => exact (shown_of_fraction finite broken).symm
  · rintro rfl
    by_cases top : exponentField x = 2047
    · by_cases bare : fractionField x = 0
      · exact shown_of_infinite top bare ▸ .infinite top bare
      · exact shown_of_notANumber top bare ▸ .notANumber top bare
    · by_cases broken : ∀ n, n < 1000000000000000 → ¬Measures x n
      · exact shown_of_fraction top broken ▸ .fraction top broken
      · push Not at broken
        obtain ⟨n, small, measures⟩ := broken
        exact shown_of_measures measures small ▸ .whole measures small

end ClassScript.Number
