import PenMath.Glyph

/-!
# Labels corrected by their places

A recognizer sees one stroke group at a time, so some labels come out right only once their
neighbours are known. A round has two passes. The bar pass judges all strokes at once, on the labels
as they stand before it: where the nearest glyph above a "-" is a digit or a letter, it is a
division bar. The pass over neighbours goes in drawing order and says what a glyph becomes when the
one drawn before it is known: two strokes of similar width are the two halves of an "="; a stroke
well below its predecessor is a division bar; a round digit after a letter is a letter.

Rounds are repeated until no label changes, since an "=" made of two strokes is wider than either
and may turn another stroke into a bar. The loop ends because each change uses up a "-", a "0" or a
"5" and none is ever made: `round_eq_or_lt` says that a round either changes nothing at all or
leaves fewer of them.
-/

namespace PenMath

/-- The constants of the parser. -/
structure Thresholds where
  /-- Two neighbouring "-" are an "=" when their widths differ by less than this part of the wider.
  -/
  equalsWidthTolerance : Coord
  /-- A "-" is a "/" when it sits lower than the symbol before it by more than this many heights of
  that symbol. -/
  fractionDropRatio : Coord
  /-- How deep exponents may stand inside exponents. -/
  maxExponentDepth : Nat
deriving DecidableEq

namespace Thresholds

/-- Two fifths of the width, half of the height, and no exponent inside an exponent. -/
def standard : Thresholds where
  equalsWidthTolerance := .ofBits 0x3ecccccd
  fractionDropRatio := .ofBits 0x3f000000
  maxExponentDepth := 1

instance : Inhabited Thresholds := ⟨standard⟩

end Thresholds

/-! ## Horizontal strokes under a digit or a letter -/

/-- The first element with the smallest key. -/
def firstLeast? {α : Type} (key : α → Int) : List α → Option α
  | [] => none
  | a :: rest =>
    match firstLeast? key rest with
    | none => some a
    | some b => if key a ≤ key b then some a else some b

namespace Glyph

/-- Whether a glyph lies above a stroke and within its width. -/
def isAbove (g bar : Glyph) : Bool := g.rect.y < bar.rect.y && bar.rect.spans g.rect

/-- The space between a stroke and a glyph above it. -/
def gapBelow (g bar : Glyph) : Coord := bar.rect.top - g.rect.bottom

/-- Of the glyphs above a stroke and within its width the nearest, the first of equally near ones. A
stroke is not above itself. -/
def nearestAbove? (glyphs : List Glyph) (bar : Glyph) : Option Glyph :=
  firstLeast? (fun g => (g.gapBelow bar).place) (glyphs.filter (·.isAbove bar))

/-- Whether a glyph is a "-" whose nearest glyph above is a digit or a letter. -/
def isBarUnder (glyphs : List Glyph) (g : Glyph) : Bool :=
  g.label = '-' && (nearestAbove? glyphs g).any fun above =>
    above.kind = .digit || above.kind = .letter

theorem label_of_isBarUnder {glyphs : List Glyph} {g : Glyph}
    (h : g.isBarUnder glyphs = true) : g.label = '-' := by
  simp only [isBarUnder, Bool.and_eq_true, decide_eq_true_eq] at h
  exact h.1

end Glyph

namespace Relabel

/-- Every "-" whose nearest glyph above is a digit or a letter becomes a "/". -/
def bars (glyphs : List Glyph) : List Glyph :=
  glyphs.map fun g => if g.isBarUnder glyphs then g.relabel '/' Kind.isSome_divide else g

@[simp] theorem length_bars (glyphs : List Glyph) : (bars glyphs).length = glyphs.length := by
  simp [bars]

/-! ## Neighbours in drawing order -/

/-- Whether the widths of two glyphs differ by less than the tolerated part of the wider one. -/
def similarWidths (t : Thresholds) (g h : Glyph) : Bool :=
  let widest := Coord.max g.rect.width h.rect.width
  widest ≤ 0 || (g.rect.width - h.rect.width).abs / widest < t.equalsWidthTolerance

/-- Whether two neighbouring strokes are the halves of an "=". -/
def areHalvesOfEquals (t : Thresholds) (previous next : Glyph) : Bool :=
  previous.label = '-' && next.label = '-' && similarWidths t previous next

/-- The "=" made of two strokes. -/
def equalsOf (previous next : Glyph) : Glyph :=
  ⟨'=', previous.rect.union next.rect, Kind.isSome_equals⟩

/-- Whether a stroke sits below its predecessor by more than the tolerated part of its height. -/
def hasDropped (t : Thresholds) (previous next : Glyph) : Bool :=
  next.label = '-' &&
    previous.rect.height * t.fractionDropRatio < next.rect.y - previous.rect.y

theorem label_of_hasDropped {t : Thresholds} {previous next : Glyph}
    (h : hasDropped t previous next = true) : next.label = '-' := by
  simp only [hasDropped, Bool.and_eq_true, decide_eq_true_eq] at h
  exact h.1

/-- A stroke that has dropped is a "/". -/
def afterDrop (t : Thresholds) (previous next : Glyph) : Glyph :=
  if hasDropped t previous next then next.relabel '/' Kind.isSome_divide else next

/-- After a letter a "0" is an "O" and a "5" is an "S". -/
def afterLetter (previous next : Glyph) : Glyph :=
  if previous.kind = .letter ∧ next.label = '0' then next.relabel 'O' Kind.isSome_O
  else if previous.kind = .letter ∧ next.label = '5' then next.relabel 'S' Kind.isSome_S
  else next

/-- What becomes of two neighbours: the first, and the second unless it went into the first. -/
def absorb (t : Thresholds) (previous next : Glyph) : Glyph × Option Glyph :=
  if areHalvesOfEquals t previous next then (equalsOf previous next, none)
  else (previous, some (afterLetter previous (afterDrop t previous next)))

/-- Every glyph against the one before it as it has become. -/
def pairsAfter (t : Thresholds) : Glyph → List Glyph → List Glyph
  | previous, [] => [previous]
  | previous, next :: rest =>
    match absorb t previous next with
    | (merged, none) => pairsAfter t merged rest
    | (kept, some next) => kept :: pairsAfter t next rest

/-- The pass over neighbours, from the first glyph drawn to the last. -/
def pairs (t : Thresholds) : List Glyph → List Glyph
  | [] => []
  | g :: rest => pairsAfter t g rest

/-! ## Labels that may still be corrected -/

/-- Whether a label may still be corrected. -/
def isOpen (g : Glyph) : Bool := g.label = '-' || g.label = '0' || g.label = '5'

/-- How many labels may still be corrected. -/
def openCount (glyphs : List Glyph) : Nat := glyphs.countP isOpen

@[simp] theorem openCount_nil : openCount [] = 0 := rfl

theorem openCount_cons (g : Glyph) (rest : List Glyph) :
    openCount (g :: rest) = openCount rest + if isOpen g then 1 else 0 := by
  simp [openCount, List.countP_cons]

/-! ## One pass

A correction either changes nothing or leaves fewer labels to correct. This goes through one
correction after another and through the glyphs of a list.
-/

section

variable {a b c : List Glyph}

theorem openCount_le (h : a = b ∨ openCount a < openCount b) : openCount a ≤ openCount b := by
  rcases h with rfl | less
  · exact Nat.le_refl _
  · exact Nat.le_of_lt less

/-- Of two corrections in turn, either neither changed anything or labels were closed. -/
theorem eq_or_lt_trans (h : a = b ∨ openCount a < openCount b)
    (h' : b = c ∨ openCount b < openCount c) : a = c ∨ openCount a < openCount c := by
  rcases h with rfl | less
  · exact h'
  · right
    rcases h' with rfl | less'
    · exact less
    · exact Nat.lt_trans less less'

theorem eq_or_lt_cons (g : Glyph) (h : a = b ∨ openCount a < openCount b) :
    g :: a = g :: b ∨ openCount (g :: a) < openCount (g :: b) := by
  rcases h with rfl | less
  · exact .inl rfl
  · right
    rw [openCount_cons, openCount_cons]
    omega

end

/-- A glyph that keeps its label or closes it leaves no more labels to correct. -/
theorem eq_or_lt_of_closes {g g' : Glyph} (closes : g' = g ∨ isOpen g = true ∧ isOpen g' = false)
    (rest : List Glyph) :
    g' :: rest = g :: rest ∨ openCount (g' :: rest) < openCount (g :: rest) := by
  rcases closes with rfl | ⟨before, after⟩
  · exact .inl rfl
  · right
    rw [openCount_cons, openCount_cons, before, after, if_pos rfl, if_neg Bool.false_ne_true]
    omega

/-- Changing open labels into closed ones changes nothing or leaves fewer open ones. -/
theorem map_eq_or_openCount_lt {f : Glyph → Glyph}
    (closes : ∀ g, f g = g ∨ isOpen g = true ∧ isOpen (f g) = false) (glyphs : List Glyph) :
    glyphs.map f = glyphs ∨ openCount (glyphs.map f) < openCount glyphs := by
  induction glyphs with
  | nil => exact .inl rfl
  | cons g rest ih =>
    exact eq_or_lt_trans (eq_or_lt_cons (f g) ih) (eq_or_lt_of_closes (closes g) rest)

/-- The bar pass changes nothing or leaves fewer labels to correct, since it closes each "-" that it
changes. -/
theorem bars_eq_or_lt (glyphs : List Glyph) :
    bars glyphs = glyphs ∨ openCount (bars glyphs) < openCount glyphs := by
  apply map_eq_or_openCount_lt
  intro g
  split
  next isBar =>
    right
    have dash := Glyph.label_of_isBarUnder isBar
    exact ⟨by simp [isOpen, dash], by simp [isOpen]⟩
  next => exact .inl rfl

/-- The second of two neighbours keeps its label or closes it. -/
theorem correct_eq_or_closes (t : Thresholds) (previous next : Glyph) :
    afterLetter previous (afterDrop t previous next) = next ∨
      isOpen next = true ∧ isOpen (afterLetter previous (afterDrop t previous next)) = false := by
  unfold afterDrop
  split
  next dropped =>
    have dash := label_of_hasDropped dropped
    right
    refine ⟨by simp [isOpen, dash], ?_⟩
    simp [afterLetter, isOpen]
  next =>
    unfold afterLetter
    split
    next zero =>
      right
      simp [isOpen, zero.2]
    next =>
      split
      next five =>
        right
        simp [isOpen, five.2]
      next => exact .inl rfl

/-- Two halves of an "=" are two open labels, and the "=" is none. -/
theorem openCount_equalsOf_lt {t : Thresholds} {previous next : Glyph}
    (halves : areHalvesOfEquals t previous next = true) (rest : List Glyph) :
    openCount (equalsOf previous next :: rest) < openCount (previous :: next :: rest) := by
  simp only [areHalvesOfEquals, Bool.and_eq_true, decide_eq_true_eq] at halves
  have dashes : isOpen previous = true ∧ isOpen next = true := by
    simp [isOpen, halves.1.1, halves.1.2]
  have closed : isOpen (equalsOf previous next) = false := by simp [isOpen, equalsOf]
  rw [openCount_cons, openCount_cons, openCount_cons, dashes.1, dashes.2, closed, if_pos rfl,
    if_neg Bool.false_ne_true]
  omega

/-- From a glyph on, the pass over neighbours changes nothing or leaves fewer labels to correct. -/
theorem pairsAfter_eq_or_lt (t : Thresholds) (previous : Glyph) (rest : List Glyph) :
    pairsAfter t previous rest = previous :: rest ∨
      openCount (pairsAfter t previous rest) < openCount (previous :: rest) := by
  induction rest generalizing previous with
  | nil => exact .inl rfl
  | cons next rest ih =>
    rw [pairsAfter]
    unfold absorb
    split
    next merged heq =>
      split at heq
      next halves =>
        -- two labels that are open become one that is not
        cases heq
        exact eq_or_lt_trans (ih (equalsOf previous next))
          (.inr (openCount_equalsOf_lt halves rest))
      next => cases heq
    next kept follower heq =>
      split at heq
      next => cases heq
      next =>
        cases heq
        exact eq_or_lt_cons previous
          (eq_or_lt_trans (ih _) (eq_or_lt_of_closes (correct_eq_or_closes t previous next) rest))

theorem pairs_eq_or_lt (t : Thresholds) (glyphs : List Glyph) :
    pairs t glyphs = glyphs ∨ openCount (pairs t glyphs) < openCount glyphs := by
  cases glyphs with
  | nil => exact .inl rfl
  | cons g rest => exact pairsAfter_eq_or_lt t g rest

/-! ## The loop -/

/-- One round: the bar pass, then the pass over neighbours. -/
def round (t : Thresholds) (glyphs : List Glyph) : List Glyph := pairs t (bars glyphs)

/-- The labels of a list of glyphs. -/
def labels (glyphs : List Glyph) : List Char := glyphs.map (·.label)

/-- A round changes nothing or leaves fewer labels to correct. -/
theorem round_eq_or_lt (t : Thresholds) (glyphs : List Glyph) :
    round t glyphs = glyphs ∨ openCount (round t glyphs) < openCount glyphs :=
  eq_or_lt_trans (pairs_eq_or_lt t (bars glyphs)) (bars_eq_or_lt glyphs)

/-- A round that changes a label leaves fewer to correct. -/
theorem openCount_round_lt {t : Thresholds} {glyphs : List Glyph}
    (changed : ¬labels (round t glyphs) = labels glyphs) :
    openCount (round t glyphs) < openCount glyphs := by
  rcases round_eq_or_lt t glyphs with same | less
  · exact absurd (congrArg labels same) changed
  · exact less

/-- The glyphs with their labels corrected: rounds until one changes no label. -/
def settle (t : Thresholds) (glyphs : List Glyph) : List Glyph :=
  if labels (round t glyphs) = labels glyphs then round t glyphs
  else settle t (round t glyphs)
termination_by openCount glyphs
decreasing_by
  next changed => exact openCount_round_lt changed

end Relabel

end PenMath
