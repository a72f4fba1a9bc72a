import PenMath.Formula.Parsed
import PenMath.Proofs.Except

/-!
# When a formula is an equation, and what its sides are

Cutting at the "=" and reading a formula, opened once: `splitAtEquals_of_single` and
`splitAtEquals_of_count` are the two outcomes of the cut by the number of "=", `splitAtEquals_eq_ok`
says what the two sides are, and `parseSettled_eq_ok` what has been read when a formula has been
read.
-/

namespace PenMath

variable {glyphs left right : List Glyph} {equals : Glyph}

/-- The glyphs left of an "=". -/
def leftOf (equals : Glyph) (glyphs : List Glyph) : List Glyph :=
  (glyphs.filter (·.label ≠ '=')).filter (·.rect.x < equals.rect.x)

/-- The glyphs not left of an "=". -/
def rightOf (equals : Glyph) (glyphs : List Glyph) : List Glyph :=
  (glyphs.filter (·.label ≠ '=')).filter (¬·.rect.x < equals.rect.x)

theorem splitAtEquals_of_single (single : glyphs.filter (·.label = '=') = [equals]) :
    splitAtEquals glyphs =
      if (leftOf equals glyphs).isEmpty then .error .leftSideMissing
      else .ok (leftOf equals glyphs, rightOf equals glyphs) := by
  rw [splitAtEquals, single]
  rfl

/-- None or several "=" leave nothing to split at. -/
theorem splitAtEquals_of_count (count : (glyphs.filter (·.label = '=')).length ≠ 1) :
    splitAtEquals glyphs = .error (.equalsCount (glyphs.filter (·.label = '=')).length) := by
  rw [splitAtEquals]
  split
  next equals single =>
    rw [single] at count
    exact absurd rfl count
  next => rfl

/-- An equation can be cut exactly at its only "=", with something left of it. -/
theorem splitAtEquals_eq_ok :
    splitAtEquals glyphs = .ok (left, right) ↔
      ∃ equals, glyphs.filter (·.label = '=') = [equals] ∧ left = leftOf equals glyphs ∧
        right = rightOf equals glyphs ∧ left ≠ [] := by
  by_cases count : (glyphs.filter (·.label = '=')).length = 1
  · obtain ⟨equals, single⟩ := List.length_eq_one_iff.mp count
    rw [splitAtEquals_of_single single, single]
    constructor
    · intro h
      split at h
      next => cases h
      next notEmpty =>
        cases h
        exact ⟨equals, rfl, rfl, rfl, by simpa using notEmpty⟩
    · intro h
      obtain ⟨_, ⟨⟩, rfl, rfl, notEmpty⟩ := h
      rw [if_neg (by simpa using notEmpty)]
  · rw [splitAtEquals_of_count count]
    constructor
    · intro h
      cases h
    · intro h
      obtain ⟨equals, single, -⟩ := h
      rw [single] at count
      exact absurd rfl count

/-- What must be an equation, or contains an "=", is read as one. -/
theorem parseSettled_of_equation {t : Thresholds} {mode : Mode} {names : List String}
    (equation : (glyphs.any (·.label = '=') || mode.needsEquation) = true) :
    parseSettled t mode names glyphs =
      if glyphs.isEmpty then .error .noSymbols
      else (do
        let (left, right) ← splitAtEquals glyphs
        let left ← parseSide t names left
        let right ← parseSide t names right
        return .equation left right) := by
  rw [parseSettled, ← Bool.not_or, equation]
  rfl

/-- A formula has been read as an expression without "=", or as an equation side by side. -/
theorem parseSettled_eq_ok {t : Thresholds} {mode : Mode} {names : List String} {parsed : Parsed}
    (h : parseSettled t mode names glyphs = .ok parsed) :
    (∃ e, parsed = .expression e ∧ (∀ g ∈ glyphs, g.label ≠ '=') ∧
      parseSide t names glyphs = .ok e) ∨
    ∃ left right l r, parsed = .equation l r ∧ splitAtEquals glyphs = .ok (left, right) ∧
      parseSide t names left = .ok l ∧ parseSide t names right = .ok r := by
  rw [parseSettled] at h
  split at h
  next noEquals =>
    left
    obtain ⟨e, read, rfl⟩ := map_eq_ok.mp h
    refine ⟨e, rfl, ?_, read⟩
    intro g mem
    rw [Bool.and_eq_true, Bool.not_eq_true', List.any_eq_false] at noEquals
    simpa using noEquals.1 g mem
  next =>
    right
    split at h
    next => cases h
    next =>
      obtain ⟨⟨left, right⟩, cut, h⟩ := bind_eq_ok.mp h
      obtain ⟨l, readLeft, h⟩ := bind_eq_ok.mp h
      obtain ⟨r, readRight, h⟩ := bind_eq_ok.mp h
      cases h
      exact ⟨left, right, l, r, rfl, cut, readLeft, readRight⟩

end PenMath
