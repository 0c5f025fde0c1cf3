import ClassScript.Decimal.Shortest

/-!
How the digits of a binary64 value are set out as text. A `Layout` holds the decisions of one
output; `Layout.text` applies them.
-/

set_option autoImplicit false

namespace ClassScript.Decimal

structure Layout where
  tie : Tie
  /-- Which exponents of the leading digit are written without an exponent mark. -/
  positional : Int → Bool
  /-- A value without a fraction ends in `.0`. -/
  pointZero : Bool
  notANumber : String
  infinity : String
  negativeInfinity : String

private def zeros (count : Nat) : String :=
  "".pushn '0' count

/-- Digits around a decimal point; the leading digit stands at power `leading` of ten. -/
def positionalText (digits : String) (leading : Int) (pointZero : Bool) : String :=
  let whole := (leading + 1).toNat
  if leading < 0 then "0." ++ zeros (-leading - 1).toNat ++ digits
  else if digits.length ≤ whole then
    digits ++ zeros (whole - digits.length) ++ if pointZero then ".0" else ""
  else
    String.ofList (digits.toList.take whole) ++ "." ++ String.ofList (digits.toList.drop whole)

/-- One digit, the others after a point, and a signed exponent. -/
def scientificText (digits : String) (leading : Int) : String :=
  let fraction := digits.toList.drop 1
  let mantissa := String.ofList (digits.toList.take 1) ++
    if fraction.isEmpty then "" else "." ++ String.ofList fraction
  let sign := if leading < 0 then "-" else "+"
  mantissa ++ "e" ++ sign ++ leading.natAbs.repr

namespace Layout

def scaledText (layout : Layout) (d : Scaled) : String :=
  let digits := d.digits.repr
  let leading := d.exponent + digits.length - 1
  if layout.positional leading then positionalText digits leading layout.pointZero
  else scientificText digits leading

def text (layout : Layout) (reading : Reading) : String :=
  match reading with
  | .notANumber => layout.notANumber
  | .infinite negative => if negative then layout.negativeInfinity else layout.infinity
  | .finite negative magnitude =>
    (if negative then "-" else "") ++ layout.scaledText (magnitude.shortest layout.tie)

end Layout

end ClassScript.Decimal
