import PenMath.Proofs.Tree.Ink
import PenMath.Proofs.Tree.WellFormed
import PenMath.Tree.Linear

/-!
# The runs of a tree

All runs of a tree in reading order: a run before those in its exponent, a numerator before its
denominator. Glyphs and words are collected by traversals of their own; here they are the members of
the runs and the texts of the letter runs.

Facts about a tree at every depth follow by `Expression.induction`: a base line is nothing, or
begins with a run or a fraction, and there is a hypothesis for each line within that entry and one
for the rest.
-/

namespace PenMath

/-- Induction over an expression, its exponents and the sides of its fractions. -/
@[elab_as_elim]
theorem Expression.induction {P : Expression → Prop} (nil : P [])
    (run : ∀ r power rest, (∀ p ∈ power, P p) → P rest → P (.run r power :: rest))
    (fraction : ∀ n d rect power rest, P n → P d → (∀ p ∈ power, P p) → P rest →
      P (.fraction n d rect power :: rest))
    (e : Expression) : P e := by
  refine Node.rec_2 (motive_1 := fun node => ∀ rest, P rest → P (node :: rest))
    (motive_2 := fun power => ∀ p ∈ power, P p) (motive_3 := P) ?_ ?_ ?_ ?_ nil ?_ e
  · intro r power inPower rest inRest
    exact run r power rest inPower inRest
  · intro n d rect power inNumerator inDenominator inPower rest inRest
    exact fraction n d rect power rest inNumerator inDenominator inPower inRest
  · intro p none
    cases none
  · intro p inPower p' same
    cases same
    exact inPower
  · intro node rest first inRest
    exact first rest inRest

/-! ## Runs, glyphs and words -/

mutual

/-- The runs of an entry and of everything in it. -/
def Node.runs : Node → List Run
  | .run r power => r :: powerRuns power
  | .fraction n d _ power => baseRuns n ++ (baseRuns d ++ powerRuns power)

/-- The runs of a base line in reading order. -/
def baseRuns : List Node → List Run
  | [] => []
  | node :: rest => node.runs ++ baseRuns rest

/-- The runs of an exponent in reading order. -/
def powerRuns : Option (List Node) → List Run
  | none => []
  | some p => baseRuns p

end

/-- An expression is drawn with the members of its runs, in their order. -/
theorem baseGlyphs_eq_flatMap (e : Expression) :
    baseGlyphs e = (baseRuns e).flatMap (·.members) := by
  have ofPower : ∀ power : Option Expression,
      (∀ p ∈ power, baseGlyphs p = (baseRuns p).flatMap (·.members)) →
        powerGlyphs power = (powerRuns power).flatMap (·.members) := by
    intro power inPower
    cases power with
    | none => rfl
    | some p => exact inPower p rfl
  induction e using Expression.induction with
  | nil => rfl
  | run r power rest inPower inRest =>
    rw [baseGlyphs, Node.glyphs, ofPower power inPower, inRest, baseRuns, Node.runs,
      List.flatMap_append, List.flatMap_cons]
  | fraction n d rect power rest inNumerator inDenominator inPower inRest =>
    rw [baseGlyphs, Node.glyphs, inNumerator, inDenominator, ofPower power inPower, inRest,
      baseRuns, Node.runs]
    simp only [List.flatMap_append, List.append_assoc]

/-- The words of an expression are the texts of its letter runs. -/
theorem Expression.words_eq_map (e : Expression) :
    words e = ((baseRuns e).filter (·.kind = .letter)).map Run.text := by
  rw [words]
  have ofPower : ∀ power : Option Expression,
      (∀ p ∈ power, baseWords p = ((baseRuns p).filter (·.kind = .letter)).map Run.text) →
        powerWords power = ((powerRuns power).filter (·.kind = .letter)).map Run.text := by
    intro power inPower
    cases power with
    | none => rfl
    | some p => exact inPower p rfl
  induction e using Expression.induction with
  | nil => rfl
  | run r power rest inPower inRest =>
    rw [baseWords, Node.words, ofPower power inPower, inRest, baseRuns, Node.runs,
      List.filter_append, List.map_append, List.filter_cons]
    split <;> simp_all
  | fraction n d rect power rest inNumerator inDenominator inPower inRest =>
    rw [baseWords, Node.words, inNumerator, inDenominator, ofPower power inPower, inRest,
      baseRuns, Node.runs]
    simp only [List.filter_append, List.map_append]

/-- Every run of a well-formed expression is a token, at every depth. -/
theorem WellFormed.isToken {names : List String} {e : Expression} (h : WellFormed names e) {r : Run}
    (mem : r ∈ baseRuns e) : r.IsToken := by
  induction e using Expression.induction with
  | nil => cases mem
  | run r' power rest inPower inRest =>
    rw [baseRuns, Node.runs, List.cons_append, List.mem_cons, List.mem_append] at mem
    rcases mem with rfl | inner | later
    · exact (h.line.entries _ List.mem_cons_self).isToken
    · cases power with
      | none => cases inner
      | some p => exact inPower p rfl (h.power rfl).1 inner
    · exact inRest h.rest later
  | fraction n d rect power rest inNumerator inDenominator inPower inRest =>
    rw [baseRuns, Node.runs, List.mem_append, List.mem_append, List.mem_append] at mem
    rcases mem with (upper | lower | inner) | later
    · exact inNumerator h.numerator.1 upper
    · exact inDenominator h.denominator.1 lower
    · cases power with
      | none => cases inner
      | some p => exact inPower p rfl (h.power rfl).1 inner
    · exact inRest h.rest later

/-- What is not empty has been drawn. -/
theorem WellFormed.baseGlyphs_ne_nil {names : List String} {e : Expression} (h : WellFormed names e)
    (some : e ≠ []) : baseGlyphs e ≠ [] := by
  induction e using Expression.induction with
  | nil => exact absurd rfl some
  | run r power rest _ _ =>
    have token := (h.line.entries _ List.mem_cons_self).isToken
    simp [baseGlyphs, Node.glyphs, token.notEmpty]
  | fraction n d rect power rest inNumerator _ _ _ =>
    have drawn := inNumerator h.numerator.1 h.numerator.2
    simp [baseGlyphs, Node.glyphs, drawn]

theorem eq_none_of_powerGlyphs {names : List String} {power : Option Expression}
    (within : ∀ p ∈ power, WellFormed names p ∧ p ≠ []) (nothing : powerGlyphs power = []) :
    power = none := by
  cases power with
  | none => rfl
  | some p => exact absurd nothing ((within p rfl).1.baseGlyphs_ne_nil (within p rfl).2)

end PenMath
