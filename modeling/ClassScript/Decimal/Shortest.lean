import ClassScript.Decimal.Binary

/-!
The fewest decimal digits that read back to a given binary64 magnitude. On the coarsest power of
ten grid that has a point among the reals rounding to the magnitude, the point nearest to it is
taken.
-/

set_option autoImplicit false

namespace ClassScript.Decimal

/-- The decimal number `digits * 10 ^ exponent`. -/
structure Scaled where
  digits : Nat
  exponent : Int
  deriving DecidableEq

/-- Which of two equally near candidates is taken. -/
inductive Tie where
  | up
  | toEven
  deriving DecidableEq

def digitCount (n : Nat) : Nat :=
  (Nat.toDigits 10 n).length

/-- Move trailing zeros of the digits into the exponent, at most `limit` of them. -/
def Scaled.strip (limit : Nat) (d : Scaled) : Scaled :=
  match limit with
  | 0 => d
  | rest + 1 =>
    if d.digits ≠ 0 ∧ d.digits % 10 = 0 then
      strip rest { digits := d.digits / 10, exponent := d.exponent + 1 }
    else d

namespace Magnitude

/-- The least power of ten above a positive magnitude. -/
def scale (x : Magnitude) : Int :=
  let (numerator, denominator) := x.quotient
  if denominator ≤ numerator then digitCount (numerator / denominator)
  else 1 - (digitCount ((denominator - 1) / numerator) : Int)

/-- The point of the grid `10 ^ grid` that stands for the magnitude, when the grid has one: it lies
among the reals that round to the magnitude, the ends counting when the significand is even. All
comparisons are in quarters of the last binary place. -/
def onGrid? (x : Magnitude) (tie : Tie) (grid : Int) : Option Nat :=
  let place := x.exponent - 2
  let step := Nat.pow 10 grid.toNat * Nat.pow 2 (-place).toNat
  let quarter := Nat.pow 2 place.toNat * Nat.pow 10 (-grid).toNat
  let centre := 4 * x.significand * quarter
  let lowest := (4 * x.significand - if x.narrowBelow then 1 else 2) * quarter
  let highest := (4 * x.significand + 2) * quarter
  let fits (candidate : Nat) : Bool :=
    if x.significand % 2 = 0 then
      decide (lowest ≤ candidate * step ∧ candidate * step ≤ highest)
    else
      decide (lowest < candidate * step ∧ candidate * step < highest)
  let below := centre / step
  let above := below + 1
  let aboveNearer : Bool :=
    match compare (2 * centre) ((below + above) * step) with
    | .lt => false
    | .gt => true
    | .eq => tie = .up || below % 2 = 1
  match fits below, fits above with
  | true, true => some (if aboveNearer then above else below)
  | true, false => some below
  | false, true => some above
  | false, false => none

def exact (x : Magnitude) : Scaled :=
  if 0 ≤ x.exponent then { digits := x.significand * Nat.pow 2 x.exponent.toNat, exponent := 0 }
  else { digits := x.significand * Nat.pow 5 (-x.exponent).toNat, exponent := x.exponent }

/-- The fewest digits that read back to the magnitude; zero has the digit zero. -/
def shortest (x : Magnitude) (tie : Tie) : Scaled :=
  if x.significand = 0 then { digits := 0, exponent := 0 }
  else
    let scale := x.scale
    let found := (List.range 17).findSome? fun (count : Nat) =>
      let grid := scale - (count + 1 : Nat)
      (x.onGrid? tie grid).map fun digits => ({ digits, exponent := grid } : Scaled)
    Scaled.strip 20 (found.getD x.exact)

end Magnitude

end ClassScript.Decimal
