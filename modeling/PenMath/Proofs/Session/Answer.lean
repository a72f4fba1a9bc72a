import PenMath.Proofs.Declaration.Outcome
import PenMath.Proofs.Formula.Sides
import PenMath.Proofs.Region.Limit
import PenMath.Proofs.Region.WellFormed
import PenMath.Proofs.Relabel.NormalForm
import PenMath.Session.Basic

/-!
# What a submitted formula is answered with

A formula goes through three layers, and each may turn it down: its glyphs must be an equation or
need not be one, no exponent may stand too deep, and what was read must make a request. All three
decide by trees, yet the answer can be told from the glyphs (`Formula.answers`). The cut at the "="
looks at glyphs only; how deep exponents go is a number that belongs to the glyphs of a line
(`Region.levels`); and a line is read as nothing only if there are no glyphs in it
(`isEmpty_unlimited`), so the tests for an empty side are tests for glyphs on that side.

`answer_is_settled_by_glyphs` puts the layers together in the order in which they are asked.
-/

namespace PenMath

/-! ## Kinds of answers -/

/-- What an answer is, its texts and names aside. -/
inductive Answer where
  | unknownFormula
  | malformedEquation
  /-- A formula that must be an equation was read as none. -/
  | modeNeedsEquation
  | nestedExponent
  | emptyFormula
  | invalidDeclaration
  /-- Labels that are no symbols, or not as many as there are glyphs. -/
  | wrongLabels
  | evaluate
  | execute
  | declare
  | solve
deriving DecidableEq

namespace Answer

/-- The kind of answer that a fault is. -/
def ofFault : Fault → Answer
  | .unknownFormula _ => unknownFormula
  | .noSymbols | .equalsCount _ | .leftSideMissing => malformedEquation
  | .equationNeeded _ => modeNeedsEquation
  | .nestedExponent => nestedExponent
  | .emptyFormula => emptyFormula
  | .invalidDeclaration _ | .builtinDeclared _ => invalidDeclaration
  | .unknownSymbol _ | .labelCount .. => wrongLabels

/-- The kind of answer that a request is, whatever it asks about. -/
def ofRequest : Request → Answer
  | .evaluate _ => evaluate
  | .execute _ => execute
  | .declare _ => declare
  | .solve .. => solve

/-- The kind of an answer, be it a request or a fault. -/
def of : Except Fault Outcome → Answer
  | .ok outcome => ofRequest outcome.request
  | .error fault => ofFault fault

end Answer

/-! ## What the glyphs decide -/

/-- Whether glyphs are no proper equation although they contain an "=" or must be an equation: there
is not exactly one "=", or nothing is left of it. -/
def isMalformed (mode : Mode) (glyphs : List Glyph) : Bool :=
  (glyphs.any (·.label = '=') || mode.needsEquation) &&
    match glyphs.filter (·.label = '=') with
    | [equals] => !glyphs.any (·.rect.x < equals.rect.x)
    | _ => true

/-- The glyphs that are read as one line: the two sides of an equation, or all. -/
def sides (glyphs : List Glyph) : List (List Glyph) :=
  match glyphs.filter (·.label = '=') with
  | [equals] => [leftOf equals glyphs, rightOf equals glyphs]
  | _ => [glyphs]

/-- Whether there is a single "=", and a glyph other than it that is not left of it. -/
def hasRight (glyphs : List Glyph) : Bool :=
  match glyphs.filter (·.label = '=') with
  | [equals] => !(rightOf equals glyphs).isEmpty
  | _ => false

/-- The answers to a formula that has been read, by whether there is anything to read and whether
there is anything right of an "=". Only whether a declaration can be made is left open. -/
def Answer.whenRead : Mode → (empty right : Bool) → List Answer
  | .eval, true, _ => [.emptyFormula]
  | .eval, false, true => [.execute]
  | .eval, false, false => [.evaluate]
  | .solve, _, _ => [.solve]
  | .declare, _, true => [.declare, .invalidDeclaration]
  | .declare, _, false => [.invalidDeclaration]

/-- The answers that a formula may get, by how deep the exponents of a line stand. -/
def Formula.answers (f : Formula) (t : Thresholds) (deepest : List Glyph → Nat) : List Answer :=
  let glyphs := Relabel.settle t f.glyphs
  if isMalformed f.mode glyphs then [.malformedEquation]
  else if (sides glyphs).any (t.maxExponentDepth < deepest ·) then [.nestedExponent]
  else Answer.whenRead f.mode f.glyphs.isEmpty (hasRight glyphs)

section

variable {glyphs : List Glyph} {equals : Glyph} {mode : Mode}

/-- An "=" is not left of itself, so what is left of the only one is another glyph. -/
theorem isEmpty_leftOf (single : glyphs.filter (·.label = '=') = [equals]) :
    (leftOf equals glyphs).isEmpty = !glyphs.any (·.rect.x < equals.rect.x) := by
  rw [Bool.eq_iff_iff, List.isEmpty_iff, Bool.not_eq_true', List.any_eq_false, leftOf,
    List.filter_filter, List.filter_eq_nil_iff]
  refine forall₂_congr fun g mem => ?_
  by_cases label : g.label = '='
  · have same : g ∈ [equals] := single ▸ List.mem_filter.mpr ⟨mem, by simpa using label⟩
    rw [List.mem_singleton.mp same]
    simp [Coord.not_lt_self]
  · simp [label]

theorem ne_nil_of_single (single : glyphs.filter (·.label = '=') = [equals]) : glyphs ≠ [] := by
  rintro rfl
  cases single

theorem any_equals_of_single (single : glyphs.filter (·.label = '=') = [equals]) :
    glyphs.any (·.label = '=') = true := by
  have mem : equals ∈ glyphs.filter (·.label = '=') := single ▸ List.mem_singleton_self _
  exact List.any_eq_true.mpr ⟨equals, List.mem_filter.mp mem⟩

theorem isMalformed_of_single (single : glyphs.filter (·.label = '=') = [equals]) :
    isMalformed mode glyphs = (leftOf equals glyphs).isEmpty := by
  rw [isMalformed, any_equals_of_single single, single, isEmpty_leftOf single]
  exact Bool.true_and _

/-- Proper glyphs are an equation with something on the left, or need not be an equation and are
none. -/
theorem cases_of_not_isMalformed (proper : isMalformed mode glyphs = false) :
    (mode.needsEquation = false ∧ glyphs.filter (·.label = '=') = []) ∨
      ∃ equals, glyphs.filter (·.label = '=') = [equals] ∧ leftOf equals glyphs ≠ [] := by
  by_cases count : (glyphs.filter (·.label = '=')).length = 1
  · obtain ⟨equals, single⟩ := List.length_eq_one_iff.mp count
    rw [isMalformed_of_single single] at proper
    exact .inr ⟨equals, single, by simpa using proper⟩
  · left
    rw [isMalformed, Bool.and_eq_false_iff] at proper
    rcases proper with free | cut
    · rw [Bool.or_eq_false_iff, List.any_eq_false] at free
      exact ⟨free.2, List.filter_eq_nil_iff.mpr free.1⟩
    · split at cut
      next equals single =>
        rw [single] at count
        exact absurd rfl count
      next => cases cut

end

/-! ## Settled glyphs -/

namespace Relabel

variable {t : Thresholds}

theorem isEmpty_round (glyphs : List Glyph) : (round t glyphs).isEmpty = glyphs.isEmpty := by
  cases glyphs with
  | nil => rfl
  | cons g rest => exact List.isEmpty_eq_false_iff.mpr (pairsAfter_ne_nil _ _)

/-- Correcting the labels of some glyphs leaves some. -/
theorem isEmpty_settle (t : Thresholds) (glyphs : List Glyph) :
    (settle t glyphs).isEmpty = glyphs.isEmpty := by
  fun_induction settle t glyphs with
  | case1 => exact isEmpty_round _
  | case2 _ _ ih => exact ih.trans (isEmpty_round _)

end Relabel

/-! ## Reading -/

section

variable {t : Thresholds} {names : List String} {glyphs : List Glyph} {equals : Glyph} {mode : Mode}

theorem parseSide_eq (t : Thresholds) (names : List String) (glyphs : List Glyph) :
    parseSide t names glyphs = within (Region.levels (longestFirst names) glyphs)
      t.maxExponentDepth (Region.unlimited (longestFirst names) glyphs) :=
  (Region.takes_levels _ _).reads _ 0

/-- An expression is read from some glyphs, and nothing from none. -/
theorem isEmpty_unlimited : (Region.unlimited names glyphs).isEmpty = glyphs.isEmpty := by
  cases glyphs with
  | nil =>
    rw [Region.unlimited, List.map_nil, Region.parse_eq, Region.fractionsAt, Region.fractions,
      Region.stack_of_none rfl]
    rfl
  | cons g rest =>
    have takes := Region.takes_levels names (g :: rest)
    have read := (takes.reads (Region.levels names (g :: rest)) 0).trans
      (within_of_le (Nat.le_refl _))
    obtain ⟨-, some⟩ := Region.wellFormed_of_parse read (by
      intro item mem
      obtain ⟨g', -, rfl⟩ := List.mem_map.mp mem
      exact .glyph)
    exact List.isEmpty_eq_false_iff.mpr (some (List.cons_ne_nil _ _))

/-- Whichever check it is that fails, the fault is one of a malformed equation. -/
theorem parseSettled_of_isMalformed (t : Thresholds) (names : List String)
    (malformed : isMalformed mode glyphs = true) :
    ∃ fault, parseSettled t mode names glyphs = .error fault ∧
      Answer.ofFault fault = .malformedEquation := by
  have equation := (Bool.and_eq_true_iff.mp malformed).1
  rw [parseSettled_of_equation equation]
  split
  next => exact ⟨_, rfl, rfl⟩
  next =>
    by_cases count : (glyphs.filter (·.label = '=')).length = 1
    · obtain ⟨equals, single⟩ := List.length_eq_one_iff.mp count
      rw [isMalformed_of_single single] at malformed
      rw [splitAtEquals_of_single single, if_pos malformed]
      exact ⟨_, rfl, rfl⟩
    · rw [splitAtEquals_of_count count]
      exact ⟨_, rfl, rfl⟩

/-- Without an "=" all glyphs are read as one line. -/
theorem parseSettled_of_noEquals (free : mode.needsEquation = false)
    (noEquals : glyphs.filter (·.label = '=') = []) :
    parseSettled t mode names glyphs =
      within (Region.levels (longestFirst names) glyphs) t.maxExponentDepth
        (.expression (Region.unlimited (longestFirst names) glyphs)) := by
  have none : glyphs.any (·.label = '=') = false :=
    List.any_eq_false.mpr (List.filter_eq_nil_iff.mp noEquals)
  rw [parseSettled, none, free, parseSide_eq]
  exact within_map Parsed.expression

/-- The sides of an equation are read one by one, under the same limit. -/
theorem parseSettled_of_sides (single : glyphs.filter (·.label = '=') = [equals])
    (someLeft : leftOf equals glyphs ≠ []) :
    parseSettled t mode names glyphs =
      within (max (Region.levels (longestFirst names) (leftOf equals glyphs))
          (Region.levels (longestFirst names) (rightOf equals glyphs))) t.maxExponentDepth
        (.equation (Region.unlimited (longestFirst names) (leftOf equals glyphs))
          (Region.unlimited (longestFirst names) (rightOf equals glyphs))) := by
  have notEmpty : ¬glyphs.isEmpty = true := by
    rw [List.isEmpty_iff]
    exact ne_nil_of_single single
  rw [parseSettled_of_equation (by rw [any_equals_of_single single, Bool.true_or]), if_neg notEmpty,
    splitAtEquals_eq_ok.mpr ⟨equals, single, rfl, rfl, someLeft⟩]
  show (do
    let left ← parseSide t names (leftOf equals glyphs)
    let right ← parseSide t names (rightOf equals glyphs)
    return Parsed.equation left right) = _
  rw [parseSide_eq, parseSide_eq]
  exact within_bind (within_map _)

end

/-! ## Answering -/

namespace Session

variable {s : Session} {index : Nat} {f : Formula}

theorem request_of_found (found : s.formulas[index]? = some f) : s.request index =
    parseSettled s.thresholds f.mode s.registry.names (Relabel.settle s.thresholds f.glyphs) >>=
      Request.ofParsed f.mode := by
  rw [request, found]
  rfl

theorem submit_of_fault {fault : Fault} (asked : s.request index = .error fault) :
    (s.submit index).2 = .error fault := by
  rw [submit, asked]
  rfl

theorem submit_of_request {request : Request} (asked : s.request index = .ok request) :
    (s.submit index).2 = (s.perform request).map Prod.snd := by
  have carriedOut : s.request index >>= s.perform = s.perform request := by
    rw [asked]
    rfl
  rw [submit, carriedOut]
  cases s.perform request <;> rfl

/-- A declaration that could be read is recorded, unless its name is built in. -/
theorem answer_of_declare {d : Declaration} (asked : s.request index = .ok (.declare d)) :
    Answer.of (s.submit index).2 ∈ [Answer.declare, .invalidDeclaration] := by
  rw [submit_of_request asked, perform, Registry.declare]
  split
  next => exact List.mem_cons_of_mem _ (List.mem_singleton_self _)
  next => exact List.mem_cons_self

/-- What is read as an expression is evaluated, if there is anything. -/
theorem answer_of_expression {e : Expression} (found : s.formulas[index]? = some f)
    (free : f.mode.needsEquation = false)
    (read : parseSettled s.thresholds f.mode s.registry.names
      (Relabel.settle s.thresholds f.glyphs) = .ok (.expression e)) :
    Answer.of (s.submit index).2 ∈ Answer.whenRead f.mode e.isEmpty false := by
  have asked := request_of_found found
  rw [read] at asked
  cases mode : f.mode with
  | declare | solve =>
    rw [mode] at free
    cases free
  | eval =>
    rw [mode] at asked
    cases e with
    | nil =>
      rw [submit_of_fault asked]
      exact List.mem_singleton_self _
    | cons node rest =>
      rw [submit_of_request asked]
      exact List.mem_singleton_self _

/-- Whatever is missing in an equation, it is the declaration that is invalid. -/
theorem ofEquation_eq_error {left right : Expression} {fault : Fault}
    (failed : Declaration.ofEquation left right = .error fault) :
    Answer.ofFault fault = .invalidDeclaration := by
  rw [Declaration.ofEquation] at failed
  split at failed
  next =>
    cases failed
    rfl
  next =>
    split at failed
    next => cases failed
    next =>
      cases failed
      rfl

/-- What is read as an equation is executed if there is a right side and else its left side is
evaluated, it is solved, or it may be declared if there is a right side. -/
theorem answer_of_equation {left right : Expression} (found : s.formulas[index]? = some f)
    (someLeft : left ≠ [])
    (read : parseSettled s.thresholds f.mode s.registry.names
      (Relabel.settle s.thresholds f.glyphs) = .ok (.equation left right)) :
    Answer.of (s.submit index).2 ∈ Answer.whenRead f.mode false (!right.isEmpty) := by
  have asked := request_of_found found
  rw [read] at asked
  obtain ⟨first, others, rfl⟩ := List.exists_cons_of_ne_nil someLeft
  cases mode : f.mode with
  | eval =>
    rw [mode] at asked
    cases right with
    | nil =>
      rw [submit_of_request asked]
      exact List.mem_singleton_self _
    | cons node rest =>
      rw [submit_of_request asked]
      exact List.mem_singleton_self _
  | solve =>
    rw [mode] at asked
    rw [submit_of_request asked]
    exact List.mem_singleton_self _
  | declare =>
    rw [mode] at asked
    cases right with
    | nil =>
      rw [submit_of_fault asked]
      exact List.mem_singleton_self _
    | cons node rest =>
      -- the answer depends on the left side, and on the name if it is a signature
      cases made : Declaration.ofEquation (first :: others) (node :: rest) with
      | ok d => exact answer_of_declare (asked.trans (map_eq_ok.mpr ⟨d, made, rfl⟩))
      | error fault =>
        have refused : Request.ofParsed .declare (.equation (first :: others) (node :: rest)) =
            .error fault := by
          rw [Request.ofParsed, made]
          rfl
        rw [submit_of_fault (asked.trans refused), Answer.of, ofEquation_eq_error made]
        exact List.mem_cons_of_mem _ (List.mem_singleton_self _)

/-- A limit on the exponents is checked before anything that is read is looked at. -/
theorem answer_of_within {levels : Nat} {parsed : Parsed} {answers : List Answer}
    (found : s.formulas[index]? = some f)
    (read : parseSettled s.thresholds f.mode s.registry.names
      (Relabel.settle s.thresholds f.glyphs) = within levels s.thresholds.maxExponentDepth parsed)
    (whenRead : parseSettled s.thresholds f.mode s.registry.names
      (Relabel.settle s.thresholds f.glyphs) = .ok parsed →
        Answer.of (s.submit index).2 ∈ answers) :
    Answer.of (s.submit index).2 ∈
      if s.thresholds.maxExponentDepth < levels then [.nestedExponent] else answers := by
  by_cases deep : s.thresholds.maxExponentDepth < levels
  · rw [within_of_lt deep] at read
    have asked := request_of_found found
    rw [read] at asked
    rw [if_pos deep, submit_of_fault asked]
    exact List.mem_singleton_self _
  · rw [if_neg deep]
    exact whenRead (read.trans (within_of_le (Nat.not_lt.mp deep)))

/-- The answer to a formula is one of those that its glyphs leave open. -/
theorem answer_mem (found : s.formulas[index]? = some f) :
    Answer.of (s.submit index).2 ∈
      f.answers s.thresholds (Region.levels (longestFirst s.registry.names)) := by
  rw [Formula.answers]
  cases malformed : isMalformed f.mode (Relabel.settle s.thresholds f.glyphs) with
  | true =>
    obtain ⟨fault, read, kind⟩ :=
      parseSettled_of_isMalformed s.thresholds s.registry.names malformed
    have asked := request_of_found found
    rw [read] at asked
    rw [submit_of_fault asked, Answer.of, kind]
    exact List.mem_singleton_self _
  | false =>
    rw [if_neg Bool.false_ne_true]
    rcases cases_of_not_isMalformed malformed with ⟨free, noEquals⟩ | ⟨equals, single, someLeft⟩
    · have answered := answer_of_within found (parseSettled_of_noEquals free noEquals)
        (answer_of_expression found free)
      rw [isEmpty_unlimited, Relabel.isEmpty_settle] at answered
      simpa [sides, hasRight, noEquals] using answered
    · have readLeft : Region.unlimited (longestFirst s.registry.names)
          (leftOf equals (Relabel.settle s.thresholds f.glyphs)) ≠ [] := by
        rwa [← List.isEmpty_eq_false_iff, isEmpty_unlimited, List.isEmpty_eq_false_iff]
      have answered := answer_of_within found (parseSettled_of_sides single someLeft)
        (answer_of_equation found readLeft)
      rw [isEmpty_unlimited] at answered
      have notEmpty : f.glyphs.isEmpty = false := by
        rw [← Relabel.isEmpty_settle s.thresholds, List.isEmpty_eq_false_iff]
        exact ne_nil_of_single single
      simpa [sides, hasRight, single, notEmpty] using answered

/-- The answers are the same for two ways to measure that agree on the lines of the formula. -/
theorem answers_congr {t : Thresholds} {deepest deepest' : List Glyph → Nat}
    (same : ∀ side ∈ sides (Relabel.settle t f.glyphs), deepest side = deepest' side) :
    f.answers t deepest = f.answers t deepest' := by
  have any : (sides (Relabel.settle t f.glyphs)).any (t.maxExponentDepth < deepest ·) =
      (sides (Relabel.settle t f.glyphs)).any (t.maxExponentDepth < deepest' ·) := by
    rw [Bool.eq_iff_iff, List.any_eq_true, List.any_eq_true]
    exact exists_congr fun side => and_congr_right fun mem => by rw [same side mem]
  rw [Formula.answers, Formula.answers, any]

/-- That an equation is needed has been found before anything is read. -/
theorem not_modeNeedsEquation_mem (f : Formula) (t : Thresholds) (deepest : List Glyph → Nat) :
    Answer.modeNeedsEquation ∉ f.answers t deepest := by
  have whenRead : ∀ mode empty right,
      Answer.modeNeedsEquation ∉ Answer.whenRead mode empty right := by
    intro mode empty right
    cases mode <;> cases empty <;> cases right <;> decide
  rw [Formula.answers]
  split
  next => decide
  next =>
    split
    next => decide
    next => exact whenRead _ _ _

/-- What a submitted formula is answered with is settled by its glyphs: the answer to an index
without formula is that there is none, and any other answer is one of `Formula.answers`, by the
levels of exponents that the lines take. These are the nesting of the exponents wherever that is
reached without a fraction in between. No formula that has been read turns out to be no equation. -/
theorem answer_is_settled_by_glyphs (s : Session) (index : Nat) :
    (s.formulas[index]? = none → (s.submit index).2 = .error (.unknownFormula index)) ∧
    (∀ f ∈ s.formulas[index]?,
      Answer.of (s.submit index).2 ∈
        f.answers s.thresholds (Region.levels (longestFirst s.registry.names)) ∧
      ((∀ side ∈ sides (Relabel.settle s.thresholds f.glyphs),
          Expression.IsStraight (Region.unlimited (longestFirst s.registry.names) side)) →
        Answer.of (s.submit index).2 ∈ f.answers s.thresholds fun side =>
          Expression.nesting (Region.unlimited (longestFirst s.registry.names) side))) ∧
    ∀ mode, (s.submit index).2 ≠ .error (.equationNeeded mode) := by
  have unknown : s.formulas[index]? = none →
      (s.submit index).2 = .error (.unknownFormula index) := by
    intro missing
    apply submit_of_fault
    rw [request, missing]
  refine ⟨unknown, ?_, ?_⟩
  · intro f found
    refine ⟨answer_mem found, ?_⟩
    intro straight
    rw [← answers_congr fun side mem => (Region.takes_levels _ side).eq_nesting (straight side mem)]
    exact answer_mem found
  · intro mode wrong
    cases found : s.formulas[index]? with
    | none =>
      rw [unknown found] at wrong
      cases wrong
    | some f =>
      have mem := answer_mem found
      rw [wrong] at mem
      exact not_modeNeedsEquation_mem _ _ _ mem

/-- A session with one formula to be evaluated. -/
def single (glyphs : List Glyph) : Session := ((start .standard).add ⟨.eval, glyphs⟩).1

/-- Of one formula there is no second, and the first is nested too deep. -/
theorem answer_to_raisedSquare :
    ((single Region.raisedSquare).submit 1).2 = .error (.unknownFormula 1) ∧
      Answer.of ((single Region.raisedSquare).submit 0).2 = .nestedExponent := by
  have answers : Formula.answers ⟨.eval, Region.raisedSquare⟩ .standard (fun side =>
      Expression.nesting (Region.unlimited (longestFirst Registry.empty.names) side)) =
      [.nestedExponent] := by decide +kernel
  have none := (answer_is_settled_by_glyphs (single Region.raisedSquare) 1).1 rfl
  have mem := ((answer_is_settled_by_glyphs (single Region.raisedSquare) 0).2.1 _ rfl).2
    (by decide +kernel)
  refine ⟨none, List.mem_singleton.mp ?_⟩
  rw [← answers]
  exact mem

/-- A square in a fraction in an exponent is nested twice, and is evaluated where one level is the
limit. -/
theorem raised_quotient_is_evaluated :
    Answer.of ((single Region.raisedQuotient).submit 0).2 = .evaluate ∧
      Formula.answers ⟨.eval, Region.raisedQuotient⟩ .standard (fun side =>
        Expression.nesting (Region.unlimited (longestFirst Registry.empty.names) side)) =
        [.nestedExponent] := by
  refine ⟨?_, ?_⟩ <;> decide +kernel

end Session

end PenMath
