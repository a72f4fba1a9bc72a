import PenMath.Coord

/-!
# Coordinates as decimals

A coordinate is written with the fewest digits that are nearer to it than to any other coordinate,
so that reading them gives the coordinate back. Of several decimals with that many digits the
nearest is taken; what happens when two are equally near is a parameter.

The numbers nearest to a coordinate m · 2^q form an interval around it. It reaches half a unit to
both sides, except that below a power of two the neighbours are twice as dense and it reaches a
quarter. Numbers halfway to a neighbour belong to the coordinate with the even significand.
Everything is exact arithmetic on naturals.

The digits are then laid out as text: those of numbers of middling size positionally, with at least
one digit on either side of the point, others as d.ddd with an exponent of ten.
-/

namespace PenMath

/-! ## The shortest decimal -/

/-- The number digits · 10^exponent. -/
structure Decimal where
  digits : Nat
  exponent : Int
deriving DecidableEq

/-- Which of two equally near decimals is written. -/
inductive Tie where
  /-- The one with an even last digit. -/
  | toEven
  /-- The larger one. -/
  | up
deriving DecidableEq

/-- Whether a · 10^k ≤ b · 2^s. -/
def decimalLe (a : Nat) (k : Int) (b : Nat) (s : Int) : Bool :=
  a * Nat.pow 10 k.toNat * Nat.pow 2 (-s).toNat ≤ b * Nat.pow 2 s.toNat * Nat.pow 10 (-k).toNat

/-- Whether b · 2^s ≤ a · 10^k. -/
def leDecimal (b : Nat) (s : Int) (a : Nat) (k : Int) : Bool :=
  b * Nat.pow 2 s.toNat * Nat.pow 10 (-k).toNat ≤ a * Nat.pow 10 k.toNat * Nat.pow 2 (-s).toNat

/-- An interval around a value, all in units of 2^scale. -/
structure Span where
  low : Nat
  value : Nat
  high : Nat
  scale : Int
  /-- Whether the ends belong to the interval. -/
  closed : Bool

namespace Span

/-- The numbers nearest to a positive finite coordinate, in quarters of its unit. -/
def of (a : Coord) : Span :=
  let exponent := a.magnitude / Nat.pow 2 23
  let fraction := a.magnitude % Nat.pow 2 23
  let significand := if exponent = 0 then fraction else Nat.pow 2 23 + fraction
  let reach := if fraction = 0 ∧ 1 < exponent then 1 else 2
  { low := 4 * significand - reach
    value := 4 * significand
    high := 4 * significand + 2
    scale := (Max.max exponent 1 : Nat) - 152
    closed := significand % 2 = 0 }

/-- Whether n · 10^k lies in the interval. -/
def contains (s : Span) (n : Nat) (k : Int) : Bool :=
  if s.closed then leDecimal s.low s.scale n k && decimalLe n k s.high s.scale
  else !decimalLe n k s.low s.scale && !leDecimal s.high s.scale n k

/-- The largest n with n · 10^k not above the value. -/
def floor (s : Span) (k : Int) : Nat :=
  s.value * Nat.pow 2 s.scale.toNat * Nat.pow 10 (-k).toNat /
    (Nat.pow 10 k.toNat * Nat.pow 2 (-s.scale).toNat)

/-- Whether n · 10^k is written rather than (n + 1) · 10^k, where both are in the interval and the
value is between them. -/
def prefersFloor (s : Span) (tie : Tie) (n : Nat) (k : Int) : Bool :=
  -- the middle of the two is (2 n + 1) · 10^k / 2
  if leDecimal (2 * s.value) s.scale (2 * n + 1) k then
    if decimalLe (2 * n + 1) k (2 * s.value) s.scale then
      match tie with
      | .toEven => n % 2 = 0
      | .up => false
    else true
  else false

/-- The n for which n · 10^k is in the interval, the one nearest to the value if there are two. -/
def onGrid? (s : Span) (tie : Tie) (k : Int) : Option Nat :=
  let n := s.floor k
  match s.contains n k, s.contains (n + 1) k with
  | true, true => some (if s.prefersFloor tie n k then n else n + 1)
  | true, false => some n
  | false, true => some (n + 1)
  | false, false => none

end Span

/-- The powers of ten that the last digit of a coordinate can stand for, largest first. -/
def gridExponents : List Int := (List.range 100).map fun (i : Nat) => 39 - (i : Int)

/-- The shortest decimal of a finite coordinate, its sign left out. -/
def Coord.decimal (a : Coord) (tie : Tie) : Decimal :=
  if a.magnitude = 0 then ⟨0, 0⟩
  else
    (gridExponents.findSome? fun k => ((Span.of a).onGrid? tie k).map fun n => ⟨n, k⟩).getD ⟨0, 0⟩

/-! ## Layouts -/

/-- A way to write numbers. -/
structure Layout where
  /-- The least exponent of ten of the first digit for which the number is written positionally. -/
  least : Int
  /-- The greatest such exponent. -/
  greatest : Int
  /-- What stands before a positive exponent. -/
  positiveMark : String
  /-- Which of two equally near decimals is written. -/
  tie : Tie

namespace Layout

/-- The decimal digits of a number. -/
def digitChars (n : Nat) : List Char := Nat.toDigits 10 n

/-- Digits with the point after the first one, if there are others. -/
def pointed : List Char → List Char
  | [] => []
  | [d] => [d]
  | d :: rest => d :: '.' :: rest

/-- Digits of a number whose first one stands for 10^e, laid out positionally. -/
def positional (digits : List Char) (e : Int) : List Char :=
  if e < 0 then '0' :: '.' :: (List.replicate (-e - 1).toNat '0' ++ digits)
  else
    let places := e.toNat + 1
    if digits.length ≤ places then
      digits ++ (List.replicate (places - digits.length) '0' ++ ['.', '0'])
    else digits.take places ++ '.' :: digits.drop places

/-- Digits of a number whose first one stands for 10^e, with the exponent written out. -/
def scientific (l : Layout) (digits : List Char) (e : Int) : List Char :=
  pointed digits ++ 'e' :: ((if e < 0 then ['-'] else l.positiveMark.toList) ++ digitChars e.natAbs)

/-- The text of a positive number. -/
def decimalChars (l : Layout) (d : Decimal) : List Char :=
  let digits := digitChars d.digits
  let e := d.exponent + digits.length - 1
  if l.least ≤ e ∧ e ≤ l.greatest then positional digits e else l.scientific digits e

/-- The text of a finite coordinate; the sign of zero is kept. -/
def finiteChars (l : Layout) (a : Coord) : List Char :=
  (if a.isNegative then ['-'] else []) ++ l.decimalChars (a.decimal l.tie)

/-- The text of any coordinate. -/
def chars (l : Layout) (a : Coord) : List Char :=
  if a.isFinite then l.finiteChars a
  else if a.isNaN then ['N', 'a', 'N']
  else if a.isNegative then ['-', 'i', 'n', 'f']
  else ['i', 'n', 'f']

end Layout

end PenMath
