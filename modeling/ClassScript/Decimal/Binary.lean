/-!
Binary64 values taken apart: sign, significand and binary exponent, with the facts about a
magnitude that its decimal text depends on.
-/

set_option autoImplicit false

namespace ClassScript.Decimal

/-- A finite binary64 magnitude, `significand * 2 ^ exponent`. -/
structure Magnitude where
  significand : Nat
  exponent : Int
  /-- The gap to the value below is half the gap to the value above. -/
  narrowBelow : Bool
  deriving DecidableEq

inductive Reading where
  | notANumber
  | infinite (negative : Bool)
  | finite (negative : Bool) (magnitude : Magnitude)
  deriving DecidableEq

namespace Magnitude

def ofFields (biased fraction : Nat) : Magnitude :=
  if biased = 0 then
    { significand := fraction, exponent := -1074, narrowBelow := false }
  else
    { significand := Nat.pow 2 52 + fraction, exponent := (biased : Int) - 1075,
      narrowBelow := fraction == 0 && biased > 1 }

/-- The magnitude as a quotient of naturals, numerator first. -/
def quotient (x : Magnitude) : Nat × Nat :=
  (x.significand * Nat.pow 2 x.exponent.toNat, Nat.pow 2 (-x.exponent).toNat)

def natural? (x : Magnitude) : Option Nat :=
  let (numerator, denominator) := x.quotient
  if numerator % denominator = 0 then some (numerator / denominator) else none

end Magnitude

def Reading.ofBits (bits : UInt64) : Reading :=
  let negative := bits >>> 63 == 1
  let biased := ((bits >>> 52) &&& 0x7FF).toNat
  let fraction := (bits &&& 0xFFFFFFFFFFFFF).toNat
  if biased = 0x7FF then
    if fraction = 0 then .infinite negative else .notANumber
  else
    .finite negative (Magnitude.ofFields biased fraction)

def Reading.ofFloat (x : Float) : Reading :=
  .ofBits x.toBits

/-- The finite value `significand * 2 ^ exponent`, rounded to nearest where it has to be. -/
def compose (negative : Bool) (significand : Nat) (exponent : Int) : Float :=
  let magnitude :=
    if 0 ≤ exponent then Float.ofScientific (significand * Nat.pow 2 exponent.toNat) false 0
    else Float.ofScientific (significand * Nat.pow 5 (-exponent).toNat) true (-exponent).toNat
  if negative then -magnitude else magnitude

end ClassScript.Decimal
