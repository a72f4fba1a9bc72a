/-!
# Coordinates

A coordinate is a position or a length on the page: a pattern of 32 bits, read as a number in single
precision. Sums, differences, products and quotients are rounded to the nearest single after every
operation.

The order is read off the pattern. Without its sign bit it counts the representable steps from zero,
so `rank`, the signed count, is strictly monotone: comparing two numbers is comparing two integers,
and every order law below the arithmetic is a law of `Int`. "Not a number" compares with nothing;
`place` puts it, and the two zeros, in one line with all the others.

A coordinate is the pattern and not the number, because "not a number" has patterns of either sign,
and `place` tells them apart: those with the sign bit come before the negative infinity, the others
after the positive one. Where an operand is "not a number" an operation hands on the first such, and
where numbers have no result, as the difference of two infinities has none, it gives `noNumber`,
whose sign bit is set.

A number m · 2^q, given by natural m and integer q, has a nearest coordinate; of two equally near
ones it is the one with an even significand. `nearest` finds it in exact arithmetic on naturals. It
chooses the unit 2^e in which the significand of the result is counted: 24 bits below the leading
bit of the number, or the least unit there is. Rounding up to the next power of two needs no case of
its own, since the bit pattern then carries into the exponent.
-/

namespace PenMath

/-- A position or a length on the page, given by its bit pattern. -/
structure Coord where
  ofBits ::
  /-- The bit pattern. -/
  bits : UInt32
deriving DecidableEq

namespace Coord

/-- Whether the sign bit is set; it is for the negative zero. -/
def isNegative (a : Coord) : Bool := 0x80000000 ≤ a.bits.toNat

/-- How many representable steps a number is away from zero. -/
def magnitude (a : Coord) : Nat := a.bits.toNat % 0x80000000

/-- Whether a coordinate is "not a number". -/
def isNaN (a : Coord) : Bool := 0x7f800000 < a.magnitude

/-- Whether a coordinate is neither infinite nor "not a number". -/
def isFinite (a : Coord) : Bool := a.magnitude < 0x7f800000

instance : OfNat Coord 0 := ⟨ofBits 0⟩
instance : Inhabited Coord := ⟨0⟩

/-! ## Arithmetic -/

/-- The number that the pattern stands for. -/
def single (a : Coord) : Float32 := .ofBits a.bits

/-- What an operation gives on numbers that have no result. -/
def noNumber : Coord := ofBits 0xffc00000

/-- The pattern in which an operation hands on "not a number": quiet, and otherwise as it is. -/
def quiet (a : Coord) : Coord := ofBits (a.bits ||| 0x00400000)

/-- An operation on coordinates, given on numbers. -/
def combine (op : Float32 → Float32 → Float32) (a b : Coord) : Coord :=
  if a.isNaN then a.quiet
  else if b.isNaN then b.quiet
  else
    let result := ofBits (op a.single b.single).toBits
    if result.isNaN then noNumber else result

instance : Add Coord := ⟨combine (· + ·)⟩
instance : Sub Coord := ⟨combine (· - ·)⟩
instance : Mul Coord := ⟨combine (· * ·)⟩
instance : Div Coord := ⟨combine (· / ·)⟩

/-- Half of a length. -/
def half (a : Coord) : Coord := ofBits 0x3f000000 * a

/-- Twice a length. -/
def twice (a : Coord) : Coord := a * ofBits 0x40000000

/-- The distance from zero: the pattern without its sign bit. -/
def abs (a : Coord) : Coord := ofBits (a.bits &&& 0x7fffffff)

/-! ## Order -/

/-- The signed number of representable steps from zero; both zeros have rank zero. -/
def rank (a : Coord) : Int := if a.isNegative then -(a.magnitude : Int) else a.magnitude

/-- The place of a coordinate in the line of all of them: the negative zero just before the positive
one, and "not a number" at the two ends, by its sign bit. -/
def place (a : Coord) : Int := if a.isNegative then -(a.magnitude : Int) - 1 else a.magnitude

instance : LT Coord := ⟨fun a b => a.isNaN = false ∧ b.isNaN = false ∧ a.rank < b.rank⟩
instance : LE Coord := ⟨fun a b => a.isNaN = false ∧ b.isNaN = false ∧ a.rank ≤ b.rank⟩

instance (a b : Coord) : Decidable (a < b) :=
  inferInstanceAs (Decidable (a.isNaN = false ∧ b.isNaN = false ∧ a.rank < b.rank))

instance (a b : Coord) : Decidable (a ≤ b) :=
  inferInstanceAs (Decidable (a.isNaN = false ∧ b.isNaN = false ∧ a.rank ≤ b.rank))

theorem not_lt_self (a : Coord) : ¬a < a := fun h => Int.lt_irrefl _ h.2.2

theorem le_of_lt {a b : Coord} (h : a < b) : a ≤ b := ⟨h.1, h.2.1, Int.le_of_lt h.2.2⟩

theorem le_refl_of_isNaN {a : Coord} (h : a.isNaN = false) : a ≤ a := ⟨h, h, Int.le_refl _⟩

theorem le_trans {a b c : Coord} (h : a ≤ b) (h' : b ≤ c) : a ≤ c :=
  ⟨h.1, h'.2.1, Int.le_trans h.2.2 h'.2.2⟩

theorem not_le_of_lt {a b : Coord} (h : a < b) : ¬b ≤ a := fun le => Int.not_le.mpr h.2.2 le.2.2

/-- Of two numbers that are not in one order, one is below the other. "Not a number" has to be ruled
out, since no comparison with it holds. -/
theorem lt_of_not_le {a b : Coord} (ha : a.isNaN = false) (hb : b.isNaN = false) (h : ¬b ≤ a) :
    a < b := by
  refine ⟨ha, hb, ?_⟩
  apply Int.not_le.mp
  intro rank
  exact h ⟨hb, ha, rank⟩

/-- The line of all coordinates goes on from the order of numbers. -/
theorem place_lt_of_lt {a b : Coord} (h : a < b) : a.place < b.place := by
  have ranks : a.rank < b.rank := h.2.2
  simp only [rank] at ranks
  simp only [place]
  -- below zero a place is one less than the rank, which makes room for the negative zero
  by_cases first : a.isNegative <;> by_cases second : b.isNegative
  · rw [if_pos first, if_pos second] at ranks ⊢
    omega
  · rw [if_pos first, if_neg second] at ranks ⊢
    omega
  · rw [if_neg first, if_pos second] at ranks ⊢
    omega
  · rw [if_neg first, if_neg second] at ranks ⊢
    omega

/-- What has no result comes before every number. -/
theorem place_noNumber_lt {a : Coord} (h : a.isNaN = false) : noNumber.place < a.place := by
  have own : noNumber.place = -0x7fc00000 - 1 := by decide
  have bound : a.magnitude ≤ 0x7f800000 := by simpa [isNaN] using h
  rw [own]
  unfold place
  split
  next => omega
  next => omega

example : ofBits 0x7f800000 - ofBits 0x7f800000 = noNumber := by decide

theorem zero_le_zero : (0 : Coord) ≤ 0 := by decide

/-- The smaller of two; of two equal ones the first, and a number before "not a number". -/
def min (a b : Coord) : Coord := if b < a then b else if a.isNaN then b else a

/-- The larger of two; of two equal ones the first, and a number before "not a number". -/
def max (a b : Coord) : Coord := if a < b then b else if a.isNaN then b else a

/-- A number made into a size: what is not above zero is zero. -/
def toSize (a : Coord) : Coord := if 0 < a then a else 0

theorem zero_le_toSize (a : Coord) : 0 ≤ a.toSize := by
  unfold toSize
  split
  next h => exact le_of_lt h
  next => exact zero_le_zero

/-- A size is always a number. -/
theorem isNaN_of_zero_le {a : Coord} (h : 0 ≤ a) : a.isNaN = false := h.2.1

end Coord

/-! ## The nearest coordinate -/

/-- The integer nearest to a quotient; of two equally near ones the even one. -/
def roundQuotient (num den : Nat) : Nat :=
  let quotient := num / den
  let twice := 2 * (num % den)
  if den < twice ∨ (twice = den ∧ quotient % 2 = 1) then quotient + 1 else quotient

/-- The integer nearest to m · 2^q, in units of 2^e. -/
def roundToUnit (m : Nat) (q e : Int) : Nat :=
  roundQuotient (m * Nat.pow 2 (q - e).toNat) (Nat.pow 2 (e - q).toNat)

namespace Coord

/-- The pattern of the least number above all finite ones. -/
def infinityBits : Nat := 0x7f800000

/-- The exponent of the least positive coordinate. -/
def leastExponent : Int := -149

/-- The exponent of the unit in which the significand of a number near m · 2^q is counted. -/
def unitExponent (m : Nat) (q : Int) : Int := Max.max (q + m.log2 - 23) leastExponent

/-- The bit pattern of the coordinate nearest to m · 2^q, the sign left out. -/
def nearestBits (m : Nat) (q : Int) : Nat :=
  let e := unitExponent m q
  Min.min ((e - leastExponent).toNat * Nat.pow 2 23 + roundToUnit m q e) infinityBits

/-- The coordinate nearest to m · 2^q, or to its negative; what is too large is infinite. -/
def nearest (negative : Bool) (m : Nat) (q : Int) : Coord :=
  ofBits (.ofNat ((if negative then 0x80000000 else 0) + if m = 0 then 0 else nearestBits m q))

/-- The coordinate nearest to an integer. -/
def ofInt (n : Int) : Coord := nearest (n < 0) n.natAbs 0

/-- The coordinate nearest to a finite double. -/
def ofDouble (a : Float) : Coord :=
  let bits := a.toBits.toNat
  let exponent := bits / Nat.pow 2 52 % Nat.pow 2 11
  let fraction := bits % Nat.pow 2 52
  nearest (Nat.pow 2 63 ≤ bits) (if exponent = 0 then fraction else Nat.pow 2 52 + fraction)
    ((Max.max exponent 1 : Nat) - 1075)

end Coord

end PenMath
