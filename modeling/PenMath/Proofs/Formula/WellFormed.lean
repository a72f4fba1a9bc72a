import PenMath.Proofs.Declaration.Outcome
import PenMath.Proofs.Formula.Conservation
import PenMath.Proofs.Region.WellFormed
import PenMath.Proofs.Tree.Tokens

/-!
# A formula that is read is well formed, and its text has the tokens of its tree

Each side of a formula is read as a region of glyphs, all of them other than "=", with the same
names in another order (`exists_parseSide`). So what holds of regions holds of both sides, at every
depth.

What is well formed has a text that can be cut into numbers and words again without the tree: they
are those of the tree, in reading order. The names that the tree reads are therefore the words of
the text, and a declaration depends on the words of its body but for its own.
-/

namespace PenMath

/-! ## Well-formed sides -/

section

variable {t : Thresholds} {mode : Mode} {names : List String} {glyphs : List Glyph}
  {parsed : Parsed} {e : Expression}

/-- The expressions that a formula is made of. -/
def Parsed.sides : Parsed → List Expression
  | .expression e => [e]
  | .equation left right => [left, right]

/-- A side of a formula has been read from glyphs that are no "=". -/
theorem exists_parseSide (h : parseSettled t mode names glyphs = .ok parsed)
    (side : e ∈ parsed.sides) :
    ∃ drawn, (∀ g ∈ drawn, g.label ≠ '=') ∧ parseSide t names drawn = .ok e := by
  rcases parseSettled_eq_ok h with ⟨whole, rfl, noEquals, read⟩ |
    ⟨left, right, l, r, rfl, cut, readLeft, readRight⟩
  · rw [Parsed.sides, List.mem_singleton] at side
    rw [side]
    exact ⟨glyphs, noEquals, read⟩
  · obtain ⟨equals, -, rfl, rfl, -⟩ := splitAtEquals_eq_ok.mp cut
    have noEquals : ∀ g ∈ glyphs.filter (·.label ≠ '='), g.label ≠ '=' := by
      intro g mem
      simpa using (List.mem_filter.mp mem).2
    rw [Parsed.sides, List.mem_pair] at side
    rcases side with rfl | rfl
    · exact ⟨_, fun g mem => noEquals g (List.mem_filter.mp mem).1, readLeft⟩
    · exact ⟨_, fun g mem => noEquals g (List.mem_filter.mp mem).1, readRight⟩

theorem wellFormed_of_parseSide (h : parseSide t names glyphs = .ok e) : WellFormed names e := by
  have read := Region.wellFormed_of_parse h
  refine (read ?_).1.names_subset ?_
  · intro item mem
    obtain ⟨g, -, rfl⟩ := List.mem_map.mp mem
    exact .glyph
  · exact (sortByKey_perm _ names).subset

theorem wellFormed_of_mem_sides (h : parseFormula t mode names glyphs = .ok parsed)
    (side : e ∈ parsed.sides) : WellFormed names e := by
  obtain ⟨drawn, -, read⟩ := exists_parseSide h side
  exact wellFormed_of_parseSide read

/-- A formula that is read is well formed at every depth, and its only "=" is the one between its
sides. -/
theorem formula_is_wellFormed (t : Thresholds) (mode : Mode) (names : List String)
    (glyphs : List Glyph) (parsed : Parsed)
    (h : parseFormula t mode names glyphs = .ok parsed) :
    ∀ e ∈ parsed.sides, WellFormed names e ∧ ∀ r ∈ baseRuns e, r.isSymbol '=' = false := by
  intro e side
  refine ⟨wellFormed_of_mem_sides h side, ?_⟩
  intro r mem
  obtain ⟨drawn, noEquals, read⟩ := exists_parseSide h side
  -- the glyphs of a run are among those its side was read from
  have drawnWith : ∀ g ∈ r.members, g ∈ drawn := by
    intro g member
    refine (spends_of_parseSide read).subset ?_
    rw [baseInk, Multiset.mem_coe, baseGlyphs_eq_flatMap]
    exact List.mem_flatMap.mpr ⟨r, mem, member⟩
  rw [Run.isSymbol, decide_eq_false_iff_not]
  intro equals
  have label : '=' ∈ r.chars := by simp [equals]
  obtain ⟨g, member, isEquals⟩ := List.mem_map.mp label
  exact noEquals g (drawnWith g member) isEquals

/-- An equation with an exponent on its left and a fraction on its right. -/
theorem formula_is_wellFormed_of_quotient :
    ∃ parsed, parseFormula .standard .eval [] powerEqualsQuotient = .ok parsed ∧
      parsed.text = "A**(2)=(1)/(3)" ∧
      ∀ e ∈ parsed.sides, WellFormed [] e ∧ ∀ r ∈ baseRuns e, r.isSymbol '=' = false := by
  have read : (parseFormula .standard .eval [] powerEqualsQuotient).map Parsed.text =
      .ok "A**(2)=(1)/(3)" := by decide +kernel
  obtain ⟨parsed, read, text⟩ := map_eq_ok.mp read
  exact ⟨parsed, read, text, formula_is_wellFormed .standard .eval [] _ parsed read⟩

end

/-! ## Tokens of the text -/

section

variable {names : List String} {e : Expression}

/-- Tokens of the text are texts of runs. -/
theorem map_tokensOf {p : Char → Bool} {k : Kind} (cls : IsClass p k) (h : WellFormed names e) :
    (tokensOf p (Expression.text e).toList).map String.ofList =
      ((baseRuns e).filter (·.kind = k)).map Run.text := by
  rw [Expression.text, String.toList_ofList, Expression.chars, h.tokensOf_baseChars cls,
    List.map_map]
  rfl

/-- The words of an expression are the words of its text. -/
theorem WellFormed.words_eq (h : WellFormed names e) :
    Expression.words e = wordsIn (Expression.text e) := by
  rw [Expression.words_eq_map, wordsIn, map_tokensOf isClass_letter h]

/-- Cut into tokens, the text of a formula that is read has exactly the digit runs and letter runs
of the tree, so the names in an expression and the dependencies of a declaration can be read off the
text alone. -/
theorem formula_text_keeps_tokens (t : Thresholds) (mode : Mode) (names : List String)
    (glyphs : List Glyph) (parsed : Parsed)
    (h : parseFormula t mode names glyphs = .ok parsed) :
    (∀ e ∈ parsed.sides,
      numbersIn (Expression.text e) = ((baseRuns e).filter (·.kind = .digit)).map Run.text ∧
      wordsIn (Expression.text e) = ((baseRuns e).filter (·.kind = .letter)).map Run.text ∧
      ∀ name, name ∈ Expression.names e ↔ name ∈ wordsIn (Expression.text e)) ∧
    ∀ mode' d, Request.ofParsed mode' parsed = .ok (.declare d) →
      ∀ name, name ∈ d.dependencies ↔
        name ∈ wordsIn d.body ∧ name ≠ d.name ∧ some name ≠ d.parameter? := by
  constructor
  · intro e side
    have wellFormed := wellFormed_of_mem_sides h side
    refine ⟨map_tokensOf isClass_digit wellFormed, map_tokensOf isClass_letter wellFormed, ?_⟩
    intro name
    rw [Expression.names, NameSet.mem_ofList, wellFormed.words_eq]
  · intro mode' d declared name
    obtain ⟨-, left, right, rfl, -, s, -, rfl⟩ := Request.ofParsed_eq_declare.mp declared
    have wellFormed := wellFormed_of_mem_sides h (e := right) (by simp [Parsed.sides])
    rw [s.mem_dependencies_declare, s.body_declare, s.name_declare, s.parameter?_declare,
      wellFormed.words_eq]

/-- The function of X that is twice the square of A times X. -/
def functionOfX : List Glyph :=
  [.drawn 'F' 0 50 8 12, .drawn '(' 15 50 6 14, .drawn 'X' 30 50 8 12, .drawn ')' 45 50 6 14,
    .drawn '=' 70 50 10 6, .drawn '2' 85 50 8 12, .drawn 'A' 100 50 8 12, .drawn '2' 106 32 6 8,
    .drawn 'X' 120 50 8 12]

/-- A declared function whose body has two numbers and two names. -/
theorem formula_text_keeps_tokens_of_function :
    ∃ parsed, parseFormula .standard .declare [] functionOfX = .ok parsed ∧
      Request.ofParsed .declare parsed =
        .ok (.declare (.function "F" "X" "2*A**(2)*X" (.ofList ["A"]))) ∧
      (∀ e ∈ parsed.sides,
        numbersIn (Expression.text e) = ((baseRuns e).filter (·.kind = .digit)).map Run.text ∧
        wordsIn (Expression.text e) = ((baseRuns e).filter (·.kind = .letter)).map Run.text) ∧
      numbersIn "2*A**(2)*X" = ["2", "2"] ∧ wordsIn "2*A**(2)*X" = ["A", "X"] ∧
      ∀ name, name ∈ NameSet.ofList ["A"] ↔
        name ∈ wordsIn "2*A**(2)*X" ∧ name ≠ "F" ∧ some name ≠ some "X" := by
  have made : (parseFormula .standard .declare [] functionOfX >>= Request.ofParsed .declare) =
      .ok (.declare (.function "F" "X" "2*A**(2)*X" (.ofList ["A"]))) := by decide +kernel
  obtain ⟨parsed, read, declared⟩ := bind_eq_ok.mp made
  have keeps := formula_text_keeps_tokens .standard .declare [] functionOfX parsed read
  refine ⟨parsed, read, declared, ?_, by decide +kernel, by decide +kernel, ?_⟩
  · intro e side
    exact ⟨(keeps.1 e side).1, (keeps.1 e side).2.1⟩
  · exact keeps.2 .declare _ declared

end

end PenMath
