import PenMath.Session.Basic
import PenMath.Proofs.Relabel.NormalForm

/-!
# A formula drawn glyph by glyph

Each glyph that is drawn is held against the last one before it as that one has become, and this is
what the pass over neighbours does too: what has been drawn is what that pass makes of all the
glyphs at once (`glyphs_drawAll`). Where the bar pass finds nothing in the glyphs as they come, that
is one whole round of correction, and the rounds that are left lead to the same glyphs
(`settle_round`). What the bar pass finds later does not matter, since it then looks at the same
glyphs in both cases.
-/

namespace PenMath

namespace Formula

/-- The formula with more glyphs, drawn one after the other. -/
def drawAll (f : Formula) (t : Thresholds) (glyphs : List Glyph) : Formula :=
  glyphs.foldl (fun drawn g => drawn.push t g) f

variable {t : Thresholds} {mode : Mode} {glyphs : List Glyph}

/-- Of two or more glyphs only the last is held against a new one. -/
theorem extend_cons (first : Glyph) {rest : List Glyph} (others : rest ≠ []) (g : Glyph) :
    extend t (first :: rest) g = first :: extend t rest g := by
  cases rest with
  | nil => exact absurd rfl others
  | cons second rest => rfl

/-- A glyph drawn later only meets what the last one before it has become. -/
theorem extend_pairsAfter (previous : Glyph) (rest : List Glyph) (g : Glyph) :
    extend t (Relabel.pairsAfter t previous rest) g =
      Relabel.pairsAfter t previous (rest ++ [g]) := by
  induction rest generalizing previous with
  | nil => rfl
  | cons next rest ih =>
    rw [List.cons_append, Relabel.pairsAfter, Relabel.pairsAfter]
    split
    next merged _ => exact ih merged
    next kept next _ => rw [extend_cons kept (Relabel.pairsAfter_ne_nil next rest), ih]

/-- A glyph more in drawing order is a glyph more to be held against the last. -/
theorem extend_pairs (glyphs : List Glyph) (g : Glyph) :
    extend t (Relabel.pairs t glyphs) g = Relabel.pairs t (glyphs ++ [g]) := by
  cases glyphs with
  | nil => rfl
  | cons first rest => exact extend_pairsAfter first rest g

theorem mode_drawAll (f : Formula) (t : Thresholds) (glyphs : List Glyph) :
    (f.drawAll t glyphs).mode = f.mode := by
  induction glyphs generalizing f with
  | nil => rfl
  | cons g rest ih => exact ih (f.push t g)

/-- What has been drawn on top of the glyphs of one pass is what one pass makes of all. -/
theorem glyphs_drawAll_of_pairs {f : Formula} {before : List Glyph}
    (h : f.glyphs = Relabel.pairs t before) :
    (f.drawAll t glyphs).glyphs = Relabel.pairs t (before ++ glyphs) := by
  induction glyphs generalizing f before with
  | nil => rw [List.append_nil]; exact h
  | cons g rest ih =>
    have pushed : (f.push t g).glyphs = Relabel.pairs t (before ++ [g]) := by
      rw [← extend_pairs, ← h]
      rfl
    rw [List.append_cons]
    exact ih pushed

theorem glyphs_drawAll (t : Thresholds) (mode : Mode) (glyphs : List Glyph) :
    ((blank mode).drawAll t glyphs).glyphs = Relabel.pairs t glyphs := by
  have nothing : (blank mode).glyphs = Relabel.pairs t [] := rfl
  exact glyphs_drawAll_of_pairs nothing

/-- A formula drawn glyph by glyph reads like the formula of the same glyphs, recorded as they came,
if none of them is a bar before any label is corrected. -/
theorem live_drawing_agrees (t : Thresholds) (mode : Mode) (r : Registry) (glyphs : List Glyph)
    (noBar : Relabel.bars glyphs = glyphs) :
    ((blank mode).drawAll t glyphs).parse t r = parse ⟨mode, glyphs⟩ t r ∧
    Relabel.settle t ((blank mode).drawAll t glyphs).glyphs = Relabel.settle t glyphs := by
  have drawn : ((blank mode).drawAll t glyphs).glyphs = Relabel.round t glyphs := by
    rw [glyphs_drawAll, Relabel.round, noBar]
  have settled : Relabel.settle t ((blank mode).drawAll t glyphs).glyphs =
      Relabel.settle t glyphs := by
    rw [drawn, Relabel.settle_round]
  refine ⟨?_, settled⟩
  rw [parse, parse, parseFormula, parseFormula, settled, mode_drawAll]
  rfl

/-- A stroke under two others that make an "=" as soon as they are drawn, and a digit above these:
the "=" is too wide to be within the stroke, so the digit then makes the stroke a bar. -/
def strokesUnderDigit : List Glyph :=
  [.drawn '-' 55 40 12 2, .drawn '-' 40 20 6 2, .drawn '-' 55 24 6 2, .drawn '3' 55 5 7 8]

/-- Two of three strokes become an "=" as they are drawn, and the first one a bar in the end. -/
theorem live_drawing_agrees_of_strokes :
    Relabel.bars strokesUnderDigit = strokesUnderDigit ∧
    Relabel.labels ((blank .eval).drawAll .standard strokesUnderDigit).glyphs = ['-', '=', '3'] ∧
    Relabel.labels (Relabel.settle .standard
      ((blank .eval).drawAll .standard strokesUnderDigit).glyphs) = ['/', '=', '3'] ∧
    ((blank .eval).drawAll .standard strokesUnderDigit).parse .standard .empty =
      parse ⟨.eval, strokesUnderDigit⟩ .standard .empty := by
  have noBar : Relabel.bars strokesUnderDigit = strokesUnderDigit := by decide +kernel
  obtain ⟨alike, settled⟩ := live_drawing_agrees .standard .eval .empty strokesUnderDigit noBar
  refine ⟨noBar, by decide +kernel, ?_, alike⟩
  rw [settled]
  decide +kernel

end Formula

end PenMath
