import ClassScript.Decimal.Layout

/-!
Numbers of the language: binary64 values, the texts they are shown with, the value of a number
literal, and the remainder operation.
-/

set_option autoImplicit false

namespace ClassScript.Number

open Decimal

/-- Digits are written out in full, without an exponent mark. -/
def plain : Layout where
  tie := .up
  positional := fun _ => true
  pointZero := false
  notANumber := "NaN"
  infinity := "inf"
  negativeInfinity := "-inf"

def plainText (x : Float) : String :=
  plain.text (.ofFloat x)

/-- Integral values below this are shown digit by digit. -/
def integralLimit : Nat := Nat.pow 10 15

/-- What `print` shows: a value without a fraction has no point. -/
def shown (x : Float) : String :=
  match Reading.ofFloat x with
  | .finite negative magnitude =>
    match magnitude.natural? with
    | some n =>
      if n < integralLimit then (if negative then "-" else "") ++ n.repr else plainText x
    | none => plainText x
  | _ => plainText x

/-- The payload in a token line: a value without a fraction ends in `.0`, and zero has no sign. -/
def tokenText (x : Float) : String :=
  match Reading.ofFloat x with
  | .finite negative magnitude =>
    match magnitude.natural? with
    | some n =>
      if n < integralLimit then (if negative && n != 0 then "-" else "") ++ n.repr ++ ".0"
      else plainText x
    | none => plainText x
  | _ => plainText x

/-- The literal in a prefix form: a value without a fraction is written exactly and ends in `.0`. -/
def literalText (x : Float) : String :=
  match Reading.ofFloat x with
  | .finite negative magnitude =>
    match magnitude.natural? with
    | some n => (if negative then "-" else "") ++ n.repr ++ ".0"
    | none => plainText x
  | _ => plainText x

def ofDigits (whole fraction : List Char) : Float :=
  let value := (whole ++ fraction).foldl (fun n c => 10 * n + (c.toNat - '0'.toNat)) 0
  Float.ofScientific value true fraction.length

/-- The exact remainder of a division that rounds toward zero; it has the sign of the dividend. -/
def remainder (x y : Float) : Float :=
  match Reading.ofFloat x, Reading.ofFloat y with
  | .finite negative m, .finite _ n =>
    if n.significand = 0 then 0.0 / 0.0
    else
      let place := min m.exponent n.exponent
      let dividend := m.significand * Nat.pow 2 (m.exponent - place).toNat
      let divisor := n.significand * Nat.pow 2 (n.exponent - place).toNat
      compose negative (dividend % divisor) place
  | .finite .., .infinite _ => x
  | _, _ => 0.0 / 0.0

/-- The value as a natural number, when it is one; a negative zero counts as zero. -/
def natural? (x : Float) : Option Nat :=
  match Reading.ofFloat x with
  | .finite negative magnitude =>
    match magnitude.natural? with
    | some n => if negative && n != 0 then none else some n
    | none => none
  | _ => none

end ClassScript.Number
