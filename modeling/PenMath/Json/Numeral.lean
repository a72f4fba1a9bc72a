import PenMath.Coord

/-!
# Numerals

A numeral is a number as it stands in a JSON text. What it stands for depends on how it is written:
without fraction and exponent it is an integer if it fits 64 bits, else it is a double.

A double is computed from a significand of at most 64 bits and a power of ten. The significand takes
digits from the left while they fit; further digits before the point only raise the power, and
further digits after it are dropped. The product or quotient of significand and power is rounded
once, so the result can miss the nearest double by a step when the significand has more than 53
bits.
-/

namespace PenMath.Json

/-- A number as written: sign, digits before the point, digits after it, exponent. -/
structure Numeral where
  negative : Bool
  whole : List Char
  /-- The digits after the point, none if there is no point. -/
  fraction : Option (List Char)
  /-- Whether the exponent is negative, and its digits. -/
  exponent : Option (Bool × List Char)
deriving DecidableEq

/-- What a numeral stands for. -/
inductive Number where
  | natural (n : Nat)
  /-- An integer below zero, by its distance from zero. -/
  | belowZero (n : Nat)
  | double (a : Float)
  /-- The numeral is too large for a double. -/
  | tooLarge

namespace Numeral

/-- The value of a digit. -/
def digitValue (c : Char) : Nat := c.toNat - '0'.toNat

/-- The value of a sequence of digits. -/
def digitsValue (digits : List Char) : Nat := digits.foldl (fun n c => 10 * n + digitValue c) 0

/-- The first number that does not fit 64 bits. -/
def wordLimit : Nat := Nat.pow 2 64

/-- A significand with further digits while the result fits 64 bits, and the digits left over. -/
def fill (significand : Nat) : List Char → Nat × List Char
  | [] => (significand, [])
  | c :: rest =>
    if 10 * significand + digitValue c < wordLimit then fill (10 * significand + digitValue c) rest
    else (significand, c :: rest)

/-- The power of ten that an exponent adds. -/
def exponentValue (n : Numeral) : Int :=
  match n.exponent with
  | none => 0
  | some (negative, digits) => if negative then -(digitsValue digits : Int) else digitsValue digits

/-- The largest power of ten that is a double. -/
def greatestPower : Nat := 308

/-- A power of ten, rounded to a double. -/
def powerOfTen (e : Nat) : Float := .ofScientific 1 false e

/-- A double over a power of ten. -/
def scaleDown (a : Float) (e : Nat) : Float :=
  if e ≤ greatestPower then a / powerOfTen e
  else if a == 0 then a
  else scaleDown (a / powerOfTen greatestPower) (e - greatestPower)
termination_by e
decreasing_by simp only [greatestPower] at *; omega

/-- A significand times a power of ten, none if that is too large for a double. -/
def scale? (significand : Nat) (e : Int) : Option Float :=
  let a := significand.toUInt64.toFloat
  if e < 0 then some (scaleDown a e.natAbs)
  else if significand = 0 then some a
  else if greatestPower < e.natAbs then none
  else
    let product := a * powerOfTen e.natAbs
    if product.isInf then none else some product

/-- A significand times a power of ten, with a sign. -/
def scaled (negative : Bool) (significand : Nat) (e : Int) : Number :=
  match scale? significand e with
  | some a => .double (if negative then -a else a)
  | none => .tooLarge

/-- The number that an integer numeral stands for. The negative zero is a double. -/
def integer (negative : Bool) (significand : Nat) : Number :=
  if !negative then .natural significand
  else if significand = 0 ∨ Nat.pow 2 63 < significand then scaled true significand 0
  else .belowZero significand

/-- The number that a numeral stands for. -/
def number (n : Numeral) : Number :=
  let (significand, beyond) := fill 0 n.whole
  let fraction := n.fraction.getD []
  let (longer, dropped) := fill significand fraction
  let used := fraction.length - dropped.length
  if n.fraction.isNone ∧ n.exponent.isNone ∧ beyond.isEmpty then integer n.negative significand
  else scaled n.negative longer (beyond.length - used + n.exponentValue)

end Numeral

/-- The coordinate nearest to a number, none if the number is too large for a double. -/
def Number.coord? : Number → Option Coord
  | .natural n => some (.ofInt n)
  | .belowZero n => some (.ofInt (-n))
  | .double a => some (.ofDouble a)
  | .tooLarge => none

end PenMath.Json
