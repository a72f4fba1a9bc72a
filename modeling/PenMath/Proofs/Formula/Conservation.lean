import PenMath.Proofs.Formula.Sides
import PenMath.Proofs.Region.Conservation

/-!
# A formula has the glyphs it was drawn with

What is read from settled glyphs has all of them, at some depth of one of its sides, apart from the
"=" at which it was cut and from bars. Bars may stay as division signs, become fractions or be
dropped, but none is counted twice. Of an equation each side has the glyphs on that side of the "=".

`spends_of_parseSettled` adds up what the sides are drawn with, and `formula_conserves_glyphs` reads
the single counts off it.
-/

namespace PenMath

/-- The glyphs a formula is drawn with, those of the left side first. -/
def Parsed.glyphs : Parsed → List Glyph
  | .expression e => baseGlyphs e
  | .equation left right => baseGlyphs left ++ baseGlyphs right

/-- How many fractions a formula has, at any depth of its sides. -/
def Parsed.fractions : Parsed → Nat
  | .expression e => baseFractions e
  | .equation left right => baseFractions left + baseFractions right

/-- Whether the sides of a formula are the sides of the only "=" among glyphs; an expression has no
sides, and no "=". -/
def OnSides (glyphs : List Glyph) : Parsed → Prop
  | .expression _ => ∀ g ∈ glyphs, g.label ≠ '='
  | .equation left right => ∃ equals, glyphs.filter (·.label = '=') = [equals] ∧
      (∀ g ∈ baseGlyphs left, g.rect.x < equals.rect.x) ∧
      ∀ g ∈ baseGlyphs right, ¬g.rect.x < equals.rect.x

/-- How a formula and the glyphs it was read from are related. -/
structure Conserved (glyphs : List Glyph) (parsed : Parsed) : Prop where
  /-- Everything but "/" and the "=" between the sides is kept. -/
  others : (parsed.glyphs.filter (·.label ≠ '/')).Perm
    (glyphs.filter fun g => g.label ≠ '/' ∧ g.label ≠ '=')
  /-- No "/" is made up. -/
  bars : (parsed.glyphs.filter (·.label = '/')).Subperm (glyphs.filter (·.label = '/'))
  /-- No "/" is a division sign and a fraction, or two fractions. -/
  fractions : (parsed.glyphs.filter (·.label = '/')).length + parsed.fractions ≤
    (glyphs.filter (·.label = '/')).length
  sides : OnSides glyphs parsed

/-! ## What is spent -/

variable {glyphs left right : List Glyph} {equals : Glyph}

theorem Region.itemsInk_glyphs (glyphs : List Glyph) :
    itemsInk (glyphs.map .glyph) = (↑glyphs, 0) := by
  induction glyphs with
  | nil => rfl
  | cons g rest ih =>
    rw [List.map_cons, itemsInk_cons, ih, Node.ink_glyph, Glyph.ink, ← Multiset.cons_coe,
      ← Multiset.singleton_add]
    rfl

/-- A side is drawn with its glyphs, but for bars. -/
theorem spends_of_parseSide {t : Thresholds} {names : List String} {e : Expression}
    (h : parseSide t names glyphs = .ok e) : Spends (↑glyphs, 0) (baseInk e) := by
  rw [← Region.itemsInk_glyphs]
  exact Region.spends_of_parse h (Region.Bare.glyphs glyphs)

theorem leftOf_append_rightOf (equals : Glyph) (glyphs : List Glyph) :
    (leftOf equals glyphs ++ rightOf equals glyphs).Perm (glyphs.filter (·.label ≠ '=')) := by
  unfold leftOf rightOf
  convert List.filter_append_perm (fun g : Glyph => decide (g.rect.x < equals.rect.x)) _ using 3
  simp

/-- A formula is drawn with its glyphs, but for the "=" and for bars. -/
theorem spends_of_parseSettled {t : Thresholds} {mode : Mode} {names : List String}
    {parsed : Parsed} (h : parseSettled t mode names glyphs = .ok parsed) :
    Spends (↑(glyphs.filter (·.label ≠ '=')), 0) (↑parsed.glyphs, parsed.fractions) := by
  rcases parseSettled_eq_ok h with ⟨e, rfl, noEquals, read⟩ |
    ⟨left, right, l, r, rfl, cut, readL, readR⟩
  · rw [List.filter_eq_self.mpr (by simpa using noEquals)]
    exact spends_of_parseSide read
  · obtain ⟨equals, -, rfl, rfl, -⟩ := splitAtEquals_eq_ok.mp cut
    -- both sides together are everything but the "="
    have sum := (spends_of_parseSide readL).add (spends_of_parseSide readR)
    rw [← Multiset.coe_eq_coe.mpr (leftOf_append_rightOf equals glyphs), ← Multiset.coe_add]
    exact sum

/-- The sides of an equation are drawn apart, each with its own glyphs. -/
theorem onSides_of_parseSettled {t : Thresholds} {mode : Mode} {names : List String}
    {parsed : Parsed} (h : parseSettled t mode names glyphs = .ok parsed) :
    OnSides glyphs parsed := by
  rcases parseSettled_eq_ok h with ⟨e, rfl, noEquals, -⟩ |
    ⟨left, right, l, r, rfl, cut, readL, readR⟩
  · exact noEquals
  · obtain ⟨equals, single, rfl, rfl, -⟩ := splitAtEquals_eq_ok.mp cut
    refine ⟨equals, single, ?_, ?_⟩
    · -- a side has no glyphs but its own
      intro g mem
      have drawn : g ∈ leftOf equals glyphs := (spends_of_parseSide readL).subset mem
      simpa using (List.mem_filter.mp drawn).2
    · intro g mem
      have drawn : g ∈ rightOf equals glyphs := (spends_of_parseSide readR).subset mem
      simpa using (List.mem_filter.mp drawn).2

/-! ## The counts -/

/-- Each side conserves its glyphs, and the "=" between them is the one glyph left over. -/
theorem conserved_of_parseSettled {t : Thresholds} {mode : Mode} {names : List String}
    {parsed : Parsed} (h : parseSettled t mode names glyphs = .ok parsed) :
    Conserved glyphs parsed := by
  have spends := spends_of_parseSettled h
  have slashes : (glyphs.filter (·.label ≠ '=')).filter (·.label = '/') =
      glyphs.filter (·.label = '/') := by
    rw [List.filter_filter]
    refine List.filter_congr fun g _ => ?_
    by_cases label : g.label = '/' <;> simp [label]
  refine ⟨?_, ?_, ?_, onSides_of_parseSettled h⟩
  · have kept := Multiset.coe_eq_coe.mp spends.kept
    rw [List.filter_filter] at kept
    simpa only [Bool.decide_and] using kept
  · have bars := Multiset.coe_le.mp spends.bars_le
    rw [slashes] at bars
    exact bars
  · have fractions := spends.fractions_le
    rw [Multiset.filter_coe, Multiset.filter_coe, Multiset.coe_card, Multiset.coe_card, slashes]
      at fractions
    exact fractions

/-- A formula that is read has the glyphs it was drawn with: all but the "=" it is cut at and the
bars that became fractions or were dropped, on the side of the "=" where they are. A region without
bars has its glyphs from left to right, an exponent after what it belongs to. -/
theorem formula_conserves_glyphs (t : Thresholds) (names : List String) :
    (∀ (mode : Mode) (glyphs : List Glyph) (parsed : Parsed),
      parseFormula t mode names glyphs = .ok parsed →
      Conserved (Relabel.settle t glyphs) parsed) ∧
    (∀ (s : Region.Setting) (depth : Nat) (items : List Item) (e : Expression),
      Region.parse s depth items = .ok e → Region.Bare items → Region.barsOf items = [] →
      baseGlyphs e = Region.itemsGlyphs (Region.leftToRight items)) ∧
    (∀ (s : Region.Setting) (depth : Nat) (glyphs : List Glyph) (e : Expression),
      Region.parse s depth (glyphs.map .glyph) = .ok e → (∀ g ∈ glyphs, g.label ≠ '/') →
      baseGlyphs e = sortByKey (·.rect.x.place) glyphs) := by
  refine ⟨?_, ?_, ?_⟩
  · intro mode glyphs parsed h
    exact conserved_of_parseSettled h
  · intro s depth items e h bare noBars
    exact Region.glyphs_of_parse h bare noBars
  · intro s depth glyphs e h noBars
    have none : Region.barsOf (glyphs.map .glyph) = [] := by
      rw [Region.barsOf_map_glyph]
      simpa using noBars
    rw [Region.glyphs_of_parse h (Region.Bare.glyphs glyphs) none, Region.leftToRight,
      sortByKey_map _ (·.rect.x.place) Item.glyph (fun _ => rfl), Region.itemsGlyphs_map_glyph]

/-- A power on the left and a fraction on the right, drawn from right to left, its bar as "-". -/
def powerEqualsQuotient : List Glyph :=
  [.drawn '3' 60 70 8 12, .drawn '-' 60 50 30 2, .drawn '1' 60 30 8 12, .drawn '=' 30 50 10 6,
    .drawn '2' 10 30 6 8, .drawn 'A' 0 50 10 20]

/-- An equation with an exponent on its left and a fraction on its right. -/
theorem formula_conserves_glyphs_of_quotient :
    (∃ parsed, parseFormula .standard .eval [] powerEqualsQuotient = .ok parsed ∧
      parsed.text = "A**(2)=(1)/(3)" ∧
      Conserved (Relabel.settle .standard powerEqualsQuotient) parsed) ∧
    (∃ e, Region.parse (.of .standard []) 0 ((powerEqualsQuotient.drop 4).map .glyph) = .ok e ∧
      baseGlyphs e = Region.itemsGlyphs
        (Region.leftToRight ((powerEqualsQuotient.drop 4).map .glyph)) ∧
      baseGlyphs e = (powerEqualsQuotient.drop 4).reverse) := by
  have conserves := formula_conserves_glyphs .standard []
  refine ⟨?_, ?_⟩
  · have read : (parseFormula .standard .eval [] powerEqualsQuotient).map Parsed.text =
        .ok "A**(2)=(1)/(3)" := by decide +kernel
    obtain ⟨parsed, read, text⟩ := map_eq_ok.mp read
    exact ⟨parsed, read, text, conserves.1 .eval _ parsed read⟩
  · have read : (Region.parse (.of .standard []) 0
        ((powerEqualsQuotient.drop 4).map .glyph)).map Expression.text = .ok "A**(2)" := by
      decide +kernel
    obtain ⟨e, read, -⟩ := map_eq_ok.mp read
    have bare : Region.Bare ((powerEqualsQuotient.drop 4).map .glyph) := Region.Bare.glyphs _
    have noBars : Region.barsOf ((powerEqualsQuotient.drop 4).map .glyph) = [] := by
      decide +kernel
    have noSlash : ∀ g ∈ powerEqualsQuotient.drop 4, g.label ≠ '/' := by decide +kernel
    refine ⟨e, read, conserves.2.1 _ 0 _ e read bare noBars, ?_⟩
    rw [conserves.2.2 _ 0 _ e read noSlash]
    decide +kernel

end PenMath
