import Mathlib.Tactic.Linarith
import PenMath.Proofs.Arithmetic.Line

/-!
# Lines that differ in their numbers only

Two lines of arithmetic have one shape if they have the same signs and fractions in the same places,
with any numbers. What can be said of the two values of a line by its shape alone is settled here:
`exists_value_eq` fills a shape with numbers so that the line comes to a given number in both ways,
and `exists_values_ne` fills one in which a "/" stands directly before a fraction so that the two
values differ. The numbers 0, 1 and 2 are enough for that: ones leave everything else as it is, and
the 2 goes under the fraction that is divided by.
-/

namespace PenMath.Arithmetic

open Json.Numeral (digitsValue)

variable {operand slash : Bool} {e e' : List Node} {t : Tally}

/-! ## Shapes -/

/-- Two base lines that differ in their numbers only. -/
inductive SameShape : List Node → List Node → Prop
  | finished : SameShape [] []
  | number {r r' rest rest'} (number : IsNumber r) (number' : IsNumber r')
      (following : SameShape rest rest') :
      SameShape (.run r none :: rest) (.run r' none :: rest')
  | fraction {n n' d d' rect rect' rest rest'} (upper : SameShape n n') (lower : SameShape d d')
      (following : SameShape rest rest') :
      SameShape (.fraction n d rect none :: rest) (.fraction n' d' rect' none :: rest')
  | sign {r c rest rest'} (sign : IsSign r c) (following : SameShape rest rest') :
      SameShape (.run r none :: rest) (.run r none :: rest')

theorem IsNumber.not_isSign {r : Run} {c : Char} (number : IsNumber r) : ¬IsSign r c := by
  intro sign
  have kinds := number.kind.symm.trans sign.kind
  cases kinds

/-- What has the shape of arithmetic is arithmetic. -/
theorem IsLine.of_sameShape (line : IsLine operand e) (same : SameShape e e') :
    IsLine operand e' := by
  induction same generalizing operand with
  | finished => exact line
  | number number number' _ ih =>
    cases line with
    | number _ goesOn => exact .number number' (ih goesOn)
    | sign sign _ => exact absurd sign number.not_isSign
  | fraction _ _ _ ihUpper ihLower ih =>
    cases line with
    | fraction upper lower goesOn => exact .fraction (ihUpper upper) (ihLower lower) (ih goesOn)
  | sign sign _ ih =>
    cases line with
    | number number _ => exact absurd sign number.not_isSign
    | sign sign goesOn => exact .sign sign (ih goesOn)

/-- Where a "/" stands directly before a fraction is settled by the shape. -/
theorem lineUndivided_of_sameShape (same : SameShape e e') (slash : Bool) :
    lineUndivided slash e = lineUndivided slash e' := by
  induction same generalizing slash with
  | finished => rfl
  | number number number' _ ih =>
    rw [lineUndivided, lineUndivided, Node.isSymbol, Node.isSymbol, number.not_isSymbol,
      number'.not_isSymbol, ih, entryUndivided, entryUndivided]
  | fraction _ _ _ ihUpper ihLower ih =>
    rw [lineUndivided, lineUndivided, entryUndivided, entryUndivided, ihUpper, ihLower, ih]
    rfl
  | sign sign _ ih => rw [lineUndivided, lineUndivided, ih]

/-! ## Numbers to fill in -/

/-- Whether a rational is the value of some number. -/
def IsNumeral (v : ℚ) : Prop := ∃ r : Run, IsNumber r ∧ (digitsValue r.chars : ℚ) = v

theorem isNumeral_of_digit (g : Glyph) (n : ℕ) (kind : g.kind = .digit)
    (digit : g.label.isDigit = true) (value : digitsValue [g.label] = n) : IsNumeral n :=
  ⟨.single g, isNumber_single kind digit, congrArg _ value⟩

theorem isNumeral_zero : IsNumeral 0 := by
  exact_mod_cast isNumeral_of_digit ⟨'0', .zero, rfl⟩ 0 rfl rfl rfl

theorem isNumeral_one : IsNumeral 1 := by
  exact_mod_cast isNumeral_of_digit ⟨'1', .zero, rfl⟩ 1 rfl rfl rfl

theorem isNumeral_two : IsNumeral 2 := by
  exact_mod_cast isNumeral_of_digit ⟨'2', .zero, rfl⟩ 2 rfl rfl rfl

/-! ## Tallies that take numbers in -/

/-- A line that is one operand is worth that operand. -/
theorem Tally.value_start_operand (v : ℚ) : (Tally.start.operand v).value = v := by
  simp [Tally.operand, Tally.value, Tally.start]

/-- Signs followed by the right number change nothing: a one in a term, a zero as a term. -/
theorem Tally.exists_neutral {r : Run} {c : Char} (sign : IsSign r c) :
    ∃ v, IsNumeral v ∧ ∀ t : Tally, ((t.sign c).operand v).value = t.value := by
  by_cases times : c = '*'
  · refine ⟨1, isNumeral_one, fun t => ?_⟩
    subst times
    simp [Tally.sign, Tally.operand, Tally.value]
  · by_cases divides : c = '/'
    · refine ⟨1, isNumeral_one, fun t => ?_⟩
      subst divides
      simp [Tally.sign, Tally.operand, Tally.value]
    · refine ⟨0, isNumeral_zero, fun t => ?_⟩
      simp [Tally.sign, Tally.operand, Tally.value, times, divides]

/-- Two counts that differ in the last term only have different values. -/
theorem Tally.value_ne {t t' : Tally} (total : t.total = t'.total) (minus : t.minus = t'.minus)
    (terms : t.term ≠ t'.term) : t.value ≠ t'.value := by
  rw [Tally.value, Tally.value, total, minus]
  intro same
  apply terms
  split at same
  next => exact sub_right_injective same
  next => exact add_right_injective _ same

theorem Tally.value_operand_ne (nonzero : t.term ≠ 0) (multiplies : t.divides = false) {v w : ℚ}
    (differ : v ≠ w) : (t.operand v).value ≠ (t.operand w).value := by
  have terms : (t.operand v).term ≠ (t.operand w).term := by
    simpa [Tally.operand, multiplies, nonzero] using differ
  exact Tally.value_ne rfl rfl terms

theorem Tally.term_operand_one (nonzero : t.term ≠ 0) : (t.operand 1).term ≠ 0 := by
  simpa [Tally.operand] using nonzero

/-- A sign after a term that is not zero leaves none that is. -/
theorem Tally.term_sign (nonzero : t.term ≠ 0) (c : Char) : (t.sign c).term ≠ 0 := by
  rw [Tally.sign]
  split
  next => exact nonzero
  next =>
    split
    next => exact nonzero
    next => exact one_ne_zero

theorem asOperand_one (t : Tally) (v : ℚ) : asOperand t v 1 = t.operand v := by
  show t.operand (v / 1) = t.operand v
  rw [div_one]

theorem asPrinted_one (t : Tally) (v : ℚ) : asPrinted t v 1 = t.operand v := by
  simp [asPrinted, Tally.operand, Tally.sign]

/-! ## Filling a shape -/

/-- A shape can be filled so that a line comes to any number, in every way that takes a fraction
over one as an operand; what follows an operand can be filled so that it changes nothing. -/
theorem exists_value_eq (line : IsLine operand e) {v : ℚ} (numeral : IsNumeral v) :
    ∃ e', SameShape e e' ∧ ∀ enter : Entering, (∀ t v, enter t v 1 = t.operand v) →
      ∀ t : Tally, (lineTally enter t e').value = (if operand then t.operand v else t).value := by
  induction line generalizing v with
  | finished => exact ⟨[], .finished, fun _ _ _ => rfl⟩
  | number number _ ih =>
    obtain ⟨r, number', rfl⟩ := numeral
    obtain ⟨rest, same, neutral⟩ := ih isNumeral_zero
    refine ⟨.run r none :: rest, .number number number' same, ?_⟩
    intro enter one t
    rw [lineTally, entryTally, neutral enter one, Tally.run_of_isNumber number']
    rfl
  | @fraction n d rect _ _ _ _ ihUpper ihLower ih =>
    -- the number over one
    obtain ⟨n', sameUpper, upper⟩ := ihUpper numeral
    obtain ⟨d', sameLower, lower⟩ := ihLower isNumeral_one
    obtain ⟨rest, same, neutral⟩ := ih isNumeral_zero
    refine ⟨.fraction n' d' rect none :: rest, .fraction sameUpper sameLower same, ?_⟩
    intro enter one t
    rw [lineTally, entryTally, neutral enter one, upper enter one, lower enter one, if_pos rfl,
      if_pos rfl, Tally.value_start_operand, Tally.value_start_operand, one]
    rfl
  | @sign r c _ sign _ ih =>
    -- the sign decides which number after it changes nothing
    obtain ⟨w, numeral', keeps⟩ := Tally.exists_neutral sign
    obtain ⟨rest, same, neutral⟩ := ih numeral'
    refine ⟨.run r none :: rest, .sign sign same, ?_⟩
    intro enter one t
    rw [lineTally, entryTally, neutral enter one, Tally.run_of_isSign sign]
    exact keeps t

/-- A whole line can be filled so that both its values are a given number. -/
theorem exists_values_eq (line : IsLine true e) {v : ℚ} (numeral : IsNumeral v) :
    ∃ e', SameShape e e' ∧ printedValue e' = v ∧ value e' = v := by
  obtain ⟨e', same, fills⟩ := exists_value_eq line numeral
  refine ⟨e', same, ?_, ?_⟩
  · rw [printedValue, fills asPrinted asPrinted_one, if_pos rfl, Tally.value_start_operand]
  · rw [value, fills asOperand asOperand_one, if_pos rfl, Tally.value_start_operand]

/-- What follows an operand can be filled so that it changes nothing. -/
theorem exists_neutral (line : IsLine false e) :
    ∃ e', SameShape e e' ∧ ∀ t : Tally, (lineTally asPrinted t e').value = t.value ∧
      (lineTally asOperand t e').value = t.value := by
  obtain ⟨e', same, fills⟩ := exists_value_eq line isNumeral_zero
  exact ⟨e', same, fun t => ⟨fills asPrinted asPrinted_one t, fills asOperand asOperand_one t⟩⟩

/-- Divided by one half is not divided by one and then by two. -/
theorem asPrinted_ne_of_divides (nonzero : t.term ≠ 0) (divides : t.divides = true) :
    (asPrinted t 1 2).value ≠ (asOperand t 1 2).value := by
  have printed : (asPrinted t 1 2).term = t.term / 2 := by
    simp [asPrinted, Tally.operand, Tally.sign, divides]
  have whole : (asOperand t 1 2).term = t.term * 2 := by
    simp [asOperand, Tally.operand, divides]
  have terms : (asPrinted t 1 2).term ≠ (asOperand t 1 2).term := by
    intro same
    rw [printed, whole] at same
    apply nonzero
    linarith
  exact Tally.value_ne rfl rfl terms

theorem asPrinted_ne_of_numerator (nonzero : t.term ≠ 0) (multiplies : t.divides = false) {v w : ℚ}
    (differ : v ≠ w) : (asPrinted t v 1).value ≠ (asOperand t w 1).value := by
  rw [asPrinted_one, asOperand_one]
  exact Tally.value_operand_ne nonzero multiplies differ

theorem asPrinted_ne_of_denominator (nonzero : t.term ≠ 0) (multiplies : t.divides = false)
    {v w : ℚ} (differ : v ≠ w) : (asPrinted t 1 v).value ≠ (asOperand t 1 w).value := by
  rw [asPrinted_eq_asOperand multiplies]
  show (t.operand (1 / v)).value ≠ (t.operand (1 / w)).value
  apply Tally.value_operand_ne nonzero multiplies
  simpa using differ

/-- A line that begins with a fraction can be filled so that its two values differ, if the two
values of that fraction as an operand differ: what follows is filled so that it changes nothing. -/
theorem exists_values_ne_of_fraction {n n' d d' rest : Expression} {rect : Rect}
    (sameUpper : SameShape n n') (sameLower : SameShape d d') (goesOn : IsLine false rest)
    (differ : ∀ t : Tally, t.term ≠ 0 → t.divides = slash →
      (asPrinted t (printedValue n') (printedValue d')).value ≠
        (asOperand t (value n') (value d')).value) :
    ∃ e', SameShape (.fraction n d rect none :: rest) e' ∧
      ∀ t : Tally, t.term ≠ 0 → t.divides = slash →
        (lineTally asPrinted t e').value ≠ (lineTally asOperand t e').value := by
  obtain ⟨after, sameAfter, neutral⟩ := exists_neutral goesOn
  refine ⟨.fraction n' d' rect none :: after, .fraction sameUpper sameLower sameAfter, ?_⟩
  intro t nonzero divides
  rw [lineTally, lineTally, entryTally, entryTally, (neutral _).1, (neutral _).2]
  exact differ t nonzero divides

/-- A shape in which a "/" stands directly before a fraction can be filled so that its two values
differ. Up to the fraction that is divided by, ones keep the term from vanishing. -/
theorem exists_values_ne (line : IsLine operand e) (divided : lineUndivided slash e = false) :
    ∃ e', SameShape e e' ∧ ∀ t : Tally, t.term ≠ 0 → t.divides = slash →
      (lineTally asPrinted t e').value ≠ (lineTally asOperand t e').value := by
  induction line generalizing slash with
  | finished => cases divided
  | @number r rest number _ ih =>
    rw [lineUndivided, Node.isSymbol, number.not_isSymbol, entryUndivided, Bool.true_and]
      at divided
    obtain ⟨rest', same, differ⟩ := ih divided
    obtain ⟨one, isNumber, isOne⟩ := isNumeral_one
    refine ⟨.run one none :: rest', .number number isNumber same, ?_⟩
    intro t nonzero _
    rw [lineTally, lineTally, entryTally, entryTally, Tally.run_of_isNumber isNumber, isOne]
    exact differ _ (Tally.term_operand_one nonzero) rfl
  | @sign r c rest sign _ ih =>
    rw [lineUndivided, Node.isSymbol, sign.isSymbol, entryUndivided, Bool.true_and] at divided
    obtain ⟨rest', same, differ⟩ := ih divided
    refine ⟨.run r none :: rest', .sign sign same, ?_⟩
    intro t nonzero _
    rw [lineTally, lineTally, entryTally, entryTally, Tally.run_of_isSign sign]
    exact differ _ (Tally.term_sign nonzero c) (Tally.divides_sign sign)
  | @fraction n d rect rest upper lower goesOn ihUpper ihLower ih =>
    obtain ⟨one, sameUpper, printedOne, isOne⟩ := exists_values_eq upper isNumeral_one
    obtain ⟨unit, sameLower, printedUnit, isUnit⟩ := exists_values_eq lower isNumeral_one
    cases slash with
    | true =>
      -- this is the fraction: one half
      obtain ⟨two, sameTwo, printedTwo, isTwo⟩ := exists_values_eq lower isNumeral_two
      refine exists_values_ne_of_fraction sameUpper sameTwo goesOn fun t nonzero divides => ?_
      rw [printedOne, isOne, printedTwo, isTwo]
      exact asPrinted_ne_of_divides nonzero divides
    | false =>
      -- it is inside of this one, or further to the right
      rw [lineUndivided, entryUndivided, Bool.not_false, Bool.true_and, Bool.and_eq_false_iff,
        Bool.and_eq_false_iff] at divided
      rcases divided with (inUpper | inLower) | inRest
      · obtain ⟨n', same, differ⟩ := ihUpper inUpper
        refine exists_values_ne_of_fraction same sameLower goesOn fun t nonzero multiplies => ?_
        rw [printedUnit, isUnit]
        exact asPrinted_ne_of_numerator nonzero multiplies (differ .start one_ne_zero rfl)
      · obtain ⟨d', same, differ⟩ := ihLower inLower
        refine exists_values_ne_of_fraction sameUpper same goesOn fun t nonzero multiplies => ?_
        rw [printedOne, isOne]
        exact asPrinted_ne_of_denominator nonzero multiplies (differ .start one_ne_zero rfl)
      · obtain ⟨rest', same, differ⟩ := ih inRest
        refine ⟨.fraction one unit rect none :: rest', .fraction sameUpper sameLower same, ?_⟩
        intro t nonzero _
        rw [lineTally, lineTally, entryTally, entryTally, ← printedValue, ← printedValue, ← value,
          ← value, printedOne, isOne, printedUnit, isUnit, asPrinted_one, asOperand_one]
        exact differ _ (Tally.term_operand_one nonzero) rfl

end PenMath.Arithmetic
