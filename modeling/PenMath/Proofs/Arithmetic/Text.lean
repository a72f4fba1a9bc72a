import PenMath.Proofs.Arithmetic.Shape
import PenMath.Formula.Parsed

/-!
# The text of a line of arithmetic

The linear text of arithmetic is read as `printedValue`, and as nothing else: a fraction is written
without parentheses around it, so its "/" is one more sign of the line. That is the value of the
expression unless a "/" stands directly before a fraction, where the fraction is taken apart. A
fraction with an exponent is written in parentheses; one after a "/" would have to be, too.

Along the line, `Awaits` and `Complete` say what has been read of the text so far when the next
thing is an operand and when it is not. One entry leads from one to the other.
-/

namespace PenMath.Arithmetic

open Json.Numeral (digitsValue)

variable {t : Tally} {text : List Char}

/-! ## Text so far -/

/-- The text of the terms before the current one, with the sign after them. -/
inductive Before : (total : ℚ) → (minus : Bool) → List Char → Prop
  | nothing : Before 0 false []
  | plus {total text} (sum : Reads .sum text total) : Before total false (text ++ ['+'])
  | minus {total text} (sum : Reads .sum text total) : Before total true (text ++ ['-'])

/-- A text that ends where an operand is expected. -/
inductive Awaits : Tally → List Char → Prop
  | first {total minus front} (before : Before total minus front) :
      Awaits ⟨total, minus, 1, false⟩ front
  | times {total minus front back term} (before : Before total minus front)
      (product : Reads .product back term) :
      Awaits ⟨total, minus, term, false⟩ (front ++ back ++ ['*'])
  | quotient {total minus front back term} (before : Before total minus front)
      (product : Reads .product back term) :
      Awaits ⟨total, minus, term, true⟩ (front ++ back ++ ['/'])

/-- A text that ends with an operand. -/
inductive Complete : Tally → List Char → Prop
  | mk {total minus front back term} (before : Before total minus front)
      (product : Reads .product back term) : Complete ⟨total, minus, term, false⟩ (front ++ back)

theorem awaits_start : Awaits .start [] := .first .nothing

/-- A factor is what a text after a sign waits for. -/
theorem Awaits.operand (h : Awaits t text) {more : List Char} {v : ℚ}
    (factor : Reads .factor more v) : Complete (t.operand v) (text ++ more) := by
  cases h with
  | first before =>
    -- a first operand is a product of its own
    have complete := Complete.mk before (.factor factor)
    rw [← one_mul v] at complete
    exact complete
  | times before product =>
    rw [List.append_assoc, List.append_assoc, List.singleton_append]
    exact .mk before (.times product factor)
  | quotient before product =>
    rw [List.append_assoc, List.append_assoc, List.singleton_append]
    exact .mk before (.quotient product factor)

/-- A complete text is read as what its tally comes to. -/
theorem Complete.reads (h : Complete t text) : Reads .sum text t.value := by
  obtain ⟨before, product⟩ := h
  cases before with
  | nothing =>
    rw [Tally.value, if_neg Bool.false_ne_true, zero_add, List.nil_append]
    exact .product product
  | plus sum =>
    rw [Tally.value, if_neg Bool.false_ne_true, List.append_assoc, List.singleton_append]
    exact .plus sum product
  | minus sum =>
    rw [Tally.value, if_pos rfl, List.append_assoc, List.singleton_append]
    exact .minus sum product

/-- A sign may follow a text that can be read, and another operand is then due. -/
theorem Complete.sign (h : Complete t text) {c : Char} (sign : c ∈ ['+', '-', '*', '/']) :
    Awaits (t.sign c) (text ++ [c]) := by
  have sum := h.reads
  simp only [List.mem_cons, List.not_mem_nil, or_false] at sign
  rcases sign with h | h | h | h <;> subst h
  · exact .first (.plus sum)
  · exact .first (.minus sum)
  · obtain ⟨before, product⟩ := h
    exact .times before product
  · obtain ⟨before, product⟩ := h
    exact .quotient before product

/-! ## The text of a line -/

theorem times_sign {node : Node} {r : Run} {c : Char} (sign : IsSign r c) :
    Node.times node (.run r none) = [] := by
  rw [Node.times, if_neg]
  rw [Node.needsTimes, Node.kind_run, sign.kind]
  cases node.kind <;> exact Bool.false_ne_true

theorem times_operand {r : Run} {c : Char} (sign : IsSign r c) {node : Node}
    (operand : node.kind = .digit ∨ node.kind = .fraction) :
    Node.times (.run r none) node = [] := by
  rw [Node.times, if_neg]
  rw [Node.needsTimes, Node.kind_run, sign.kind]
  rcases operand with kind | kind <;> rw [kind] <;> exact Bool.false_ne_true

/-- The text of a line of arithmetic is that of its entries, one after the other. -/
theorem baseChars_of_isLine {operand : Bool} {node : Node} {rest : List Node}
    (line : IsLine operand (node :: rest)) :
    baseChars (node :: rest) = node.chars ++ baseChars rest := by
  cases rest with
  | nil => rw [baseChars, baseChars, List.append_nil]
  | cons next rest =>
    have none : Node.times node next = [] := by
      cases line with
      | number _ goesOn | fraction _ _ goesOn =>
        cases goesOn with
        | sign sign _ => exact times_sign sign
      | sign sign goesOn =>
        cases goesOn with
        | number number _ => exact times_operand sign (.inl number.kind)
        | fraction _ _ _ => exact times_operand sign (.inr rfl)
    rw [baseChars, none, List.nil_append]

/-- What has been read of a text, by what comes next. -/
def SoFar : (operand : Bool) → Tally → List Char → Prop
  | true => Awaits
  | false => Complete

/-- Reading the text of a line goes along with its tally. -/
theorem complete_of_isLine {operand : Bool} {e : List Node} (line : IsLine operand e) (t : Tally)
    (text : List Char) (soFar : SoFar operand t text) :
    Complete (lineTally asPrinted t e) (text ++ baseChars e) := by
  induction line generalizing t text with
  | finished =>
    rw [baseChars, List.append_nil]
    exact soFar
  | @number r rest number goesOn ih =>
    have read := soFar.operand (.digits number.notEmpty number.digits)
    rw [baseChars_of_isLine (.number number goesOn), lineTally, entryTally,
      Tally.run_of_isNumber number, Node.chars, powerChars, List.append_nil, ← List.append_assoc]
    exact ih _ _ read
  | @fraction n d rect rest upper lower goesOn ihUpper ihLower ih =>
    -- two operands with a sign between them
    have numerator := (ihUpper .start [] awaits_start).reads
    have denominator := (ihLower .start [] awaits_start).reads
    have read := ((soFar.operand (.parentheses numerator)).sign (c := '/') (by simp)).operand
      (.parentheses denominator)
    rw [baseChars_of_isLine (.fraction upper lower goesOn), lineTally, entryTally, Node.chars,
      ← List.append_assoc]
    refine ih _ _ ?_
    rw [List.nil_append, List.nil_append, List.append_assoc, List.append_assoc,
      List.singleton_append] at read
    exact read
  | @sign r c rest sign goesOn ih =>
    have read := soFar.sign sign.sign
    rw [baseChars_of_isLine (.sign sign goesOn), lineTally, entryTally, Tally.run_of_isSign sign,
      Node.chars, powerChars, List.append_nil, sign.single, ← List.append_assoc]
    exact ih _ _ read

/-- The text of an expression of arithmetic is read as its value as text. -/
theorem reads_chars {e : Expression} (line : IsLine true e) :
    Reads .sum (Expression.chars e) (printedValue e) :=
  (complete_of_isLine line .start [] awaits_start).reads

/-- The linear text of arithmetic has one value, that of the line with every fraction taken as two
operands. It is the value of the expression for all numbers in the same places exactly if no "/"
stands directly before a fraction. -/
theorem linear_text_keeps_value_iff {e : Expression} (line : IsLine true e) :
    (∀ v, Reads .sum (Expression.chars e) v ↔ v = printedValue e) ∧
    (lineUndivided false e = true → Reads .sum (Expression.chars e) (value e)) ∧
    ((∀ e', SameShape e e' → Reads .sum (Expression.chars e') (value e')) ↔
      lineUndivided false e = true) := by
  have keeps : ∀ e', IsLine true e' → lineUndivided false e' = true →
      Reads .sum (Expression.chars e') (value e') := by
    intro e' line undivided
    rw [← printedValue_eq_value line undivided]
    exact reads_chars line
  refine ⟨?_, keeps e line, ?_, ?_⟩
  · intro v
    constructor
    · intro read
      exact read.unique (reads_chars line)
    · intro same
      rw [same]
      exact reads_chars line
  · intro all
    by_contra divided
    obtain ⟨e', same, differ⟩ := exists_values_ne line (Bool.eq_false_iff.mpr divided)
    apply differ .start one_ne_zero rfl
    exact (reads_chars (line.of_sameShape same)).unique (all e' same)
  · intro undivided e' same
    rw [lineUndivided_of_sameShape same] at undivided
    exact keeps e' (line.of_sameShape same) undivided

/-- A six and a fraction of one over two with a sign between them. -/
def sixAndHalf (sign : Glyph) : Expression :=
  [.run (.single (.drawn '6' 0 50 8 12)) none, .run (.single sign) none,
    (Fraction.stacked [.run (.single (.drawn '1' 40 30 6 12)) none]
      [.run (.single (.drawn '2' 40 70 8 12)) none]).toNode]

theorem isLine_sixAndHalf {sign : Glyph} {c : Char} (isSign : IsSign (.single sign) c) :
    IsLine true (sixAndHalf sign) :=
  .number (isNumber_single rfl rfl) (.sign isSign
    (.fraction (.number (isNumber_single rfl rfl) .finished)
      (.number (isNumber_single rfl rfl) .finished) .finished))

/-- Six times one half is three, and is written so that it reads as three. -/
theorem linear_text_of_six_times_half :
    IsLine true (sixAndHalf (.drawn '*' 12 50 6 12)) ∧
      lineUndivided false (sixAndHalf (.drawn '*' 12 50 6 12)) = true ∧
      value (sixAndHalf (.drawn '*' 12 50 6 12)) = 3 ∧
      Reads .sum (Expression.chars (sixAndHalf (.drawn '*' 12 50 6 12)))
        (value (sixAndHalf (.drawn '*' 12 50 6 12))) := by
  have line : IsLine true (sixAndHalf (.drawn '*' 12 50 6 12)) :=
    isLine_sixAndHalf ⟨rfl, rfl, by decide⟩
  have undivided : lineUndivided false (sixAndHalf (.drawn '*' 12 50 6 12)) = true := by
    decide +kernel
  exact ⟨line, undivided, by decide +kernel, (linear_text_keeps_value_iff line).2.1 undivided⟩

/-- A drawing of six divided by one half is twelve, but its text is not read as twelve. -/
theorem linear_text_of_six_over_half :
    Region.parse (.of .standard []) 0 [.glyph (.drawn '6' 0 50 8 12),
        .glyph (.drawn '/' 12 50 6 12), .glyph (.drawn '1' 40 30 6 12),
        .glyph (.drawn '/' 40 50 30 2), .glyph (.drawn '2' 40 70 8 12)] =
      .ok (sixAndHalf (.drawn '/' 12 50 6 12)) ∧
    IsLine true (sixAndHalf (.drawn '/' 12 50 6 12)) ∧
    Expression.text (sixAndHalf (.drawn '/' 12 50 6 12)) = "6/(1)/(2)" ∧
    value (sixAndHalf (.drawn '/' 12 50 6 12)) = 12 ∧
    ¬Reads .sum (Expression.chars (sixAndHalf (.drawn '/' 12 50 6 12)))
      (value (sixAndHalf (.drawn '/' 12 50 6 12))) := by
  refine ⟨by decide +kernel, isLine_sixAndHalf ⟨rfl, rfl, by decide⟩, by decide +kernel,
    by decide +kernel, ?_⟩
  intro read
  have comes := calculate_of_reads read
  revert comes
  decide +kernel

end PenMath.Arithmetic
