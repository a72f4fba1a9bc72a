import PenMath.Json.Numeral

/-!
# Scanning numerals

Where a numeral ends in a text, and what its parts are: a sign, digits before the point, digits
after it, and an exponent. A zero before the point stands alone, and every group of digits has at
least one.
-/

namespace PenMath.Json

/-- Whether a character is a decimal digit. -/
def isDigit (c : Char) : Bool := '0' ≤ c && c ≤ '9'

/-- Digits at the start of a text, at least one, and what follows them. -/
def digits? (chars : List Char) : Option (List Char × List Char) :=
  if (chars.takeWhile isDigit).isEmpty then none
  else some (chars.takeWhile isDigit, chars.dropWhile isDigit)

/-- The digits before the point: a zero only if it stands alone. -/
def whole? (chars : List Char) : Option (List Char × List Char) :=
  match digits? chars with
  | some ('0' :: _ :: _, _) => none
  | found => found

/-- A point with digits, if there is a point. -/
def fraction? : List Char → Option (Option (List Char) × List Char)
  | '.' :: rest => (digits? rest).map fun found => (some found.1, found.2)
  | chars => some (none, chars)

/-- Whether the sign of an exponent is negative, and what follows the sign. -/
def exponentSign : List Char → Bool × List Char
  | '-' :: rest => (true, rest)
  | '+' :: rest => (false, rest)
  | chars => (false, chars)

/-- An exponent, if there is one. -/
def exponent? : List Char → Option (Option (Bool × List Char) × List Char)
  | c :: rest =>
    if c = 'e' ∨ c = 'E' then
      (digits? (exponentSign rest).2).map fun found =>
        (some ((exponentSign rest).1, found.1), found.2)
    else some (none, c :: rest)
  | [] => some (none, [])

/-- A numeral after its sign, and what follows it. -/
def unsigned? (negative : Bool) (chars : List Char) : Option (Numeral × List Char) := do
  let (whole, rest) ← whole? chars
  let (fraction, rest) ← fraction? rest
  let (exponent, rest) ← exponent? rest
  return (⟨negative, whole, fraction, exponent⟩, rest)

/-- A numeral, and what follows it. -/
def numeral? : List Char → Option (Numeral × List Char)
  | '-' :: rest => unsigned? true rest
  | chars => unsigned? false chars

/-- Digits are one at least. -/
theorem length_digits? {chars digits after : List Char} (h : digits? chars = some (digits, after)) :
    after.length < chars.length := by
  unfold digits? at h
  split at h
  next => cases h
  next some =>
    cases h
    have parts := congrArg List.length (List.takeWhile_append_dropWhile (p := isDigit) (l := chars))
    rw [List.length_append] at parts
    rw [List.isEmpty_iff_length_eq_zero] at some
    omega

theorem length_whole? {chars digits after : List Char} (h : whole? chars = some (digits, after)) :
    after.length < chars.length := by
  unfold whole? at h
  split at h
  next => cases h
  next => exact length_digits? h

/-- A numeral may have no point, and then nothing is taken. -/
theorem length_fraction? {chars after : List Char} {fraction : Option (List Char)}
    (h : fraction? chars = some (fraction, after)) : after.length ≤ chars.length := by
  unfold fraction? at h
  split at h
  next rest =>
    obtain ⟨found, digits, same⟩ := Option.map_eq_some_iff.mp h
    cases same
    exact Nat.le_succ_of_le (Nat.le_of_lt (length_digits? digits))
  next =>
    cases h
    exact Nat.le_refl _

theorem length_exponentSign (chars : List Char) :
    (exponentSign chars).2.length ≤ chars.length := by
  unfold exponentSign
  split <;> simp

/-- A numeral may have no exponent, and then nothing is taken. -/
theorem length_exponent? {chars after : List Char} {exponent : Option (Bool × List Char)}
    (h : exponent? chars = some (exponent, after)) : after.length ≤ chars.length := by
  unfold exponent? at h
  split at h
  next c rest =>
    split at h
    next =>
      obtain ⟨found, digits, same⟩ := Option.map_eq_some_iff.mp h
      cases same
      have sign := length_exponentSign rest
      exact Nat.le_succ_of_le (Nat.le_trans (Nat.le_of_lt (length_digits? digits)) sign)
    next =>
      cases h
      exact Nat.le_refl _
  next =>
    cases h
    exact Nat.le_refl _

/-- A numeral is not empty: it has a digit before the point, and its later parts may be missing. -/
theorem length_unsigned? {negative : Bool} {chars after : List Char} {numeral : Numeral}
    (h : unsigned? negative chars = some (numeral, after)) : after.length < chars.length := by
  obtain ⟨first, whole, h⟩ := Option.bind_eq_some_iff.mp h
  obtain ⟨second, fraction, h⟩ := Option.bind_eq_some_iff.mp h
  obtain ⟨third, exponent, h⟩ := Option.bind_eq_some_iff.mp h
  cases h
  have one := length_whole? whole
  have two := length_fraction? fraction
  have three := length_exponent? exponent
  omega

theorem length_numeral? {chars after : List Char} {numeral : Numeral}
    (h : numeral? chars = some (numeral, after)) : after.length < chars.length := by
  unfold numeral? at h
  split at h
  next =>
    have less := length_unsigned? h
    rw [List.length_cons]
    omega
  next => exact length_unsigned? h

end PenMath.Json
