import Mathlib.Data.List.Pairwise
import PenMath.Proofs.Formula.Sides
import PenMath.Proofs.Region.Bars
import PenMath.Proofs.Sort

/-!
# The order of drawing does not matter

Two lists of the same glyphs in two orders are read as one expression, as long as no two glyphs have
one center and no two bars one width. The lists that the rounds of bar resolution work on differ in
order all the way, and fractions come in that may well share a center with a glyph; but a line is
read from the sorted list only, and the sort is stable. So what is carried through the rounds is
that the two lists have the same columns, a column being the items with one center in order
(`SameColumns`): filters, concatenations and new items at the end keep that.

`stack_sameColumns` is the run of the rounds on both lists, `parse_sameColumns` the recursion over
regions. For an equation the two sides are taken apart in the same way, whatever the order
(`splitAtEquals_perm`).
-/

namespace PenMath

namespace Region

variable {items items' others : List Item} {bar : Glyph}

/-! ## Columns -/

/-- The items with one center, in order. -/
def column (x : Int) (items : List Item) : List Item := items.filter (·.rect.x.place = x)

/-- Whether two lists have the same items at every center, in the same order there. -/
def SameColumns (items items' : List Item) : Prop := ∀ x, column x items = column x items'

theorem sameColumns_iff : SameColumns items items' ↔ leftToRight items = leftToRight items' :=
  (sortByKey_eq_iff _).symm

theorem SameColumns.perm (h : SameColumns items items') : items.Perm items' := by
  have sorted := sortByKey_perm (·.rect.x.place) items
  rw [← leftToRight, sameColumns_iff.mp h] at sorted
  exact sorted.symm.trans (sortByKey_perm _ items')

theorem SameColumns.filter (h : SameColumns items items') (p : Item → Bool) :
    SameColumns (items.filter p) (items'.filter p) := by
  have swap : ∀ (x : Int) (l : List Item), column x (l.filter p) = (column x l).filter p := by
    intro x l
    rw [column, column, List.filter_filter, List.filter_filter]
    exact List.filter_congr fun item _ => Bool.and_comm ..
  intro x
  rw [swap, swap, h x]

theorem SameColumns.append {more more' : List Item} (h : SameColumns items items')
    (h' : SameColumns more more') : SameColumns (items ++ more) (items' ++ more') := by
  intro x
  simp only [column, List.filter_append]
  exact congrArg₂ _ (h x) (h' x)

/-- Items without a common center can stand in any order. -/
theorem sameColumns_of_perm (perm : items.Perm items')
    (apart : items.Pairwise fun a b => a.rect.x.place ≠ b.rect.x.place) :
    SameColumns items items' := by
  intro x
  have columns : (column x items).Perm (column x items') := perm.filter _
  have single : (column x items).length ≤ 1 := by
    have within : (column x items).Pairwise fun a b => a.rect.x.place ≠ b.rect.x.place :=
      apart.sublist List.filter_sublist
    have level : ∀ item ∈ column x items, item.rect.x.place = x := by
      intro item mem
      simpa using (List.mem_filter.mp mem).2
    match heq : column x items with
    | [] => exact Nat.zero_le _
    | [_] => exact Nat.le_refl _
    | a :: b :: rest =>
      -- two items in one column would share its center
      rw [heq] at within level
      exfalso
      apply (List.pairwise_cons.mp within).1 b (by simp)
      rw [level a (by simp), level b (by simp)]
  match heq : column x items with
  | [] =>
    rw [heq] at columns
    exact columns.nil_eq
  | [a] =>
    rw [heq] at columns
    exact (List.singleton_perm.mp columns)
  | a :: b :: rest =>
    rw [heq] at single
    simp at single

/-! ## Bars of different widths -/

/-- Whether one of two glyphs is wider than the other. -/
def WidthsDiffer (g h : Glyph) : Prop := g.rect.width < h.rect.width ∨ h.rect.width < g.rect.width

theorem WidthsDiffer.symm {g h : Glyph} (differ : WidthsDiffer g h) : WidthsDiffer h g :=
  Or.symm differ

theorem not_widthsDiffer_self (g : Glyph) : ¬WidthsDiffer g g :=
  fun differ => differ.elim (Coord.not_lt_self _) (Coord.not_lt_self _)

/-- Whether no two bars among items are equally wide, so that there is one widest. -/
def BarsDiffer (items : List Item) : Prop := (barsOf items).Pairwise WidthsDiffer

theorem BarsDiffer.perm (h : BarsDiffer items) (perm : items.Perm items') : BarsDiffer items' :=
  (perm.filterMap _).pairwise h WidthsDiffer.symm

theorem BarsDiffer.filter (h : BarsDiffer items) (p : Item → Bool) : BarsDiffer (items.filter p) :=
  h.sublist (List.filter_sublist.filterMap _)

theorem BarsDiffer.append_fraction (h : BarsDiffer items) (f : Fraction) :
    BarsDiffer (items ++ [.fraction f]) := by
  show (barsOf (items ++ [.fraction f])).Pairwise WidthsDiffer
  rw [barsOf_append, barsOf_fraction, List.append_nil]
  exact h

theorem BarsDiffer.eq_of_not (h : BarsDiffer items) {g g' : Glyph} (mem : g ∈ barsOf items)
    (mem' : g' ∈ barsOf items) (not : ¬WidthsDiffer g g') : g = g' := by
  by_contra ne
  have symm : Std.Symm WidthsDiffer := ⟨fun _ _ => WidthsDiffer.symm⟩
  exact not (h.forall mem mem' ne)

/-- With bars of different widths, what is left is everything but the bar taken. -/
theorem eq_filter_of_taken (differ : BarsDiffer items)
    (taken : takeWidestBar? items = some (bar, others)) :
    others = items.filter (· ≠ .glyph bar) := by
  obtain ⟨label, front, back, rfl, rfl, narrower, -⟩ := takeWidestBar?_split taken
  have notFront : .glyph bar ∉ front := by
    intro mem
    exact Coord.not_lt_self _ (narrower bar (mem_barsOf.mpr ⟨mem, label⟩))
  have notBack : .glyph bar ∉ back := by
    intro mem
    have pairs := differ.sublist ((List.sublist_append_right front _).filterMap _)
    rw [← barsOf, barsOf_bar_cons label] at pairs
    exact not_widthsDiffer_self bar
      ((List.pairwise_cons.mp pairs).1 bar (mem_barsOf.mpr ⟨mem, label⟩))
  rw [List.filter_append, List.filter_cons_of_neg (by simp)]
  congr 1
  · refine (List.filter_eq_self.mpr ?_).symm
    intro item mem
    simpa using fun same : item = .glyph bar => notFront (same ▸ mem)
  · refine (List.filter_eq_self.mpr ?_).symm
    intro item mem
    simpa using fun same : item = .glyph bar => notBack (same ▸ mem)

theorem BarsDiffer.of_taken (differ : BarsDiffer items)
    (taken : takeWidestBar? items = some (bar, others)) : BarsDiffer others := by
  rw [eq_filter_of_taken differ taken]
  exact differ.filter _

/-- Two lists with the same columns are both without a bar or neither is. -/
theorem notTaken_sameColumns (same : SameColumns items items')
    (notTaken : takeWidestBar? items = none) : takeWidestBar? items' = none := by
  have bars : (barsOf items).Perm (barsOf items') := same.perm.filterMap _
  rw [takeWidestBar?_eq_none.mp notTaken] at bars
  exact takeWidestBar?_eq_none.mpr bars.nil_eq.symm

/-- From two lists with the same columns the same bar is taken, and the columns stay the same. -/
theorem taken_sameColumns (same : SameColumns items items') (differ : BarsDiffer items)
    (taken : takeWidestBar? items = some (bar, others)) :
    ∃ others', takeWidestBar? items' = some (bar, others') ∧ SameColumns others others' := by
  have differ' := differ.perm same.perm
  have bars : (barsOf items).Perm (barsOf items') := same.perm.filterMap _
  have mem := mem_barsOf_of_taken taken
  cases taken' : takeWidestBar? items' with
  | none =>
    rw [notTaken_sameColumns (fun x => (same x).symm) taken'] at taken
    cases taken
  | some found =>
    obtain ⟨bar', others'⟩ := found
    have mem' := bars.mem_iff.mpr (mem_barsOf_of_taken taken')
    have notWider := width_le_of_taken taken mem'
    have notWider' := width_le_of_taken taken' (bars.mem_iff.mp mem)
    obtain rfl : bar = bar' := differ.eq_of_not mem mem' fun differs =>
      differs.elim (Coord.not_le_of_lt · notWider) (Coord.not_le_of_lt · notWider')
    refine ⟨others', rfl, ?_⟩
    rw [eq_filter_of_taken differ taken, eq_filter_of_taken differ' taken']
    exact same.filter _

theorem SameColumns.above (h : SameColumns items items') (bar : Glyph) :
    SameColumns (above bar items) (above bar items') := h.filter _

theorem SameColumns.below (h : SameColumns items items') (bar : Glyph) :
    SameColumns (below bar items) (below bar items') := h.filter _

theorem SameColumns.beside (h : SameColumns items items') (bar : Glyph) :
    SameColumns (beside bar items) (beside bar items') := h.filter _

/-! ## The rounds on two lists -/

section

variable {read : Reader} {n : Nat}

/-- Where regions of the same columns are read alike, bars are resolved alike: to the same fault, or
to lists with the same columns. Every round takes one bar on both lists, and what it filters and
appends keeps the columns. -/
theorem stack_sameColumns
    (alike : ∀ l l' : List Item, l.length < n → SameColumns l l' → BarsDiffer l → read l = read l')
    (inline : List Glyph) (short : items.length ≤ n) (same : SameColumns items items')
    (differ : BarsDiffer items) :
    (stack read inline items).map leftToRight = (stack read inline items').map leftToRight := by
  fun_induction stack read inline items generalizing items' with
  | case1 inline items notTaken =>
    rw [stack_of_none (notTaken_sameColumns same notTaken)]
    exact congrArg Except.ok (sameColumns_iff.mp (same.append fun _ => rfl))
  | case2 inline items bar others taken empty ih =>
    obtain ⟨others', taken', same'⟩ := taken_sameColumns same differ taken
    have fewer := length_beside_lt taken
    rw [(same'.above bar).perm.isEmpty_eq, (same'.below bar).perm.isEmpty_eq] at empty
    rw [stack_of_inline taken' empty]
    exact ih (by omega) (same'.beside bar) ((differ.of_taken taken).filter _)
  | case3 inline items bar others taken notEmpty oneSided ih =>
    obtain ⟨others', taken', same'⟩ := taken_sameColumns same differ taken
    have fewer := length_dropped_lt taken
    rw [(same'.above bar).perm.isEmpty_eq, (same'.below bar).perm.isEmpty_eq]
      at notEmpty oneSided
    rw [stack_of_oneSided taken' notEmpty oneSided]
    exact ih (by omega) (((same'.beside bar).append (same'.above bar)).append (same'.below bar))
      ((differ.of_taken taken).perm (around_perm bar others).symm)
  | case4 inline items bar others taken notEmpty twoSided ih =>
    obtain ⟨others', taken', same'⟩ := taken_sameColumns same differ taken
    have differ' := differ.of_taken taken
    have numerators := alike _ _ (Nat.lt_of_lt_of_le (length_above_lt taken) short)
      (same'.above bar) (differ'.filter _)
    have denominators := alike _ _ (Nat.lt_of_lt_of_le (length_below_lt taken) short)
      (same'.below bar) (differ'.filter _)
    have fewer := length_built_lt taken twoSided
    rw [(same'.above bar).perm.isEmpty_eq, (same'.below bar).perm.isEmpty_eq]
      at notEmpty twoSided
    rw [stack_of_twoSided taken' notEmpty twoSided, ← numerators, ← denominators]
    -- only where both sides are read do the rounds go on
    cases read (above bar others) with
    | error => rfl
    | ok numerator =>
      cases read (below bar others) with
      | error => rfl
      | ok denominator =>
        have fewer := fewer (.stacked numerator denominator)
        exact ih numerator denominator (by omega) ((same'.beside bar).append fun _ => rfl)
          ((differ'.filter _).append_fraction _)

end

theorem lineAt_eq_of_sameColumns (s : Setting) (depth : Nat) (same : SameColumns items items') :
    lineAt s depth items = lineAt s depth items' := by
  rw [lineAt, lineAt, line, line, sameColumns_iff.mp same]

/-- Regions with the same columns and bars of different widths are read alike. -/
theorem parse_sameColumns (s : Setting) (depth : Nat) (same : SameColumns items items')
    (differ : BarsDiffer items) : parse s depth items = parse s depth items' := by
  induction n : items.length using Nat.strongRecOn generalizing depth items items' with
  | ind n ih =>
    subst n
    have alike : ∀ l l' : List Item, l.length < items.length → SameColumns l l' →
        BarsDiffer l → parse s depth l = parse s depth l' := by
      intro l l' short same differ
      exact ih l.length short depth same differ rfl
    have built := stack_sameColumns alike [] (Nat.le_refl _) same differ
    rw [parse_eq, parse_eq]
    refine bind_eq_of_map_eq built ?_
    intro after after' sorted
    rw [lineAt_eq_of_sameColumns s depth (sameColumns_iff.mpr sorted)]

end Region

/-! ## Formulas -/

/-- Whether the order of drawing can be told from the drawing: no two glyphs have one center, and no
two "/" one width. -/
structure IsSpread (glyphs : List Glyph) : Prop where
  centers : glyphs.Pairwise fun g h => g.rect.x.place ≠ h.rect.x.place
  bars : (glyphs.filter (·.label = '/')).Pairwise Region.WidthsDiffer

variable {glyphs glyphs' : List Glyph}

theorem IsSpread.sublist {part : List Glyph} (h : IsSpread glyphs) (within : part.Sublist glyphs) :
    IsSpread part :=
  ⟨h.centers.sublist within, h.bars.sublist (within.filter _)⟩

/-- Glyphs with different centers and widths of bars are read alike in any order. -/
theorem parse_perm (perm : glyphs.Perm glyphs') (spread : IsSpread glyphs) (s : Region.Setting)
    (depth : Nat) :
    Region.parse s depth (glyphs.map .glyph) = Region.parse s depth (glyphs'.map .glyph) := by
  apply Region.parse_sameColumns
  · exact Region.sameColumns_of_perm (perm.map _) (List.pairwise_map.mpr spread.centers)
  · show (Region.barsOf (glyphs.map .glyph)).Pairwise Region.WidthsDiffer
    rw [Region.barsOf_map_glyph]
    exact spread.bars

/-- The same fault, or sides with the same glyphs. -/
def SameSides : Except Fault (List Glyph × List Glyph) → Except Fault (List Glyph × List Glyph) →
    Prop
  | .ok (left, right), .ok (left', right') => left.Perm left' ∧ right.Perm right'
  | .error fault, .error fault' => fault = fault'
  | _, _ => False

/-- The "=" is the same glyph, and its sides have the same glyphs in some order. -/
theorem splitAtEquals_perm (perm : glyphs.Perm glyphs') :
    SameSides (splitAtEquals glyphs) (splitAtEquals glyphs') := by
  have found : (glyphs.filter (·.label = '=')).Perm (glyphs'.filter (·.label = '=')) :=
    perm.filter _
  by_cases count : (glyphs.filter (·.label = '=')).length = 1
  · obtain ⟨equals, single⟩ := List.length_eq_one_iff.mp count
    have single' : glyphs'.filter (·.label = '=') = [equals] := by
      rw [single] at found
      exact (List.singleton_perm.mp found).symm
    have left : (leftOf equals glyphs).Perm (leftOf equals glyphs') := (perm.filter _).filter _
    rw [splitAtEquals_of_single single, splitAtEquals_of_single single', left.isEmpty_eq]
    split
    next => rfl
    next => exact ⟨left, (perm.filter _).filter _⟩
  · have count' := found.length_eq ▸ count
    rw [splitAtEquals_of_count count, splitAtEquals_of_count count', found.length_eq]
    rfl

/-- Equations are read alike if the order of drawing does not matter on either side. -/
theorem parseSettled_perm (perm : glyphs.Perm glyphs') {t : Thresholds} {mode : Mode}
    {names : List String} (equation : (glyphs.any (·.label = '=') || mode.needsEquation) = true)
    (spread : ∀ left right, splitAtEquals glyphs = .ok (left, right) →
      IsSpread left ∧ IsSpread right) :
    parseSettled t mode names glyphs = parseSettled t mode names glyphs' := by
  have equation' := equation
  rw [perm.any_eq] at equation'
  rw [parseSettled_of_equation equation, parseSettled_of_equation equation', perm.isEmpty_eq]
  have sides := splitAtEquals_perm perm
  -- the cuts fail alike, or give sides that are read alike
  cases cut : splitAtEquals glyphs with
  | error fault =>
    cases cut' : splitAtEquals glyphs' with
    | error fault' =>
      rw [cut, cut'] at sides
      obtain rfl : fault = fault' := sides
      rfl
    | ok sides' =>
      rw [cut, cut'] at sides
      exact sides.elim
  | ok cutSides =>
    obtain ⟨left, right⟩ := cutSides
    cases cut' : splitAtEquals glyphs' with
    | error fault' =>
      rw [cut, cut'] at sides
      exact sides.elim
    | ok cutSides' =>
      obtain ⟨left', right'⟩ := cutSides'
      rw [cut, cut'] at sides
      obtain ⟨leftPerm, rightPerm⟩ := sides
      obtain ⟨leftSpread, rightSpread⟩ := spread left right cut
      have readLeft : parseSide t names left = parseSide t names left' :=
        parse_perm leftPerm leftSpread _ 0
      have readRight : parseSide t names right = parseSide t names right' :=
        parse_perm rightPerm rightSpread _ 0
      simp only [bind, Except.bind]
      rw [readLeft, readRight]

/-- The order in which settled glyphs were drawn does not matter where the drawing shows it: regions
are read alike, equations are cut alike, and so equations are read alike if it does not matter on
either side. -/
theorem drawingOrder_irrelevant (perm : glyphs.Perm glyphs') :
    (IsSpread glyphs → ∀ (s : Region.Setting) (depth : Nat),
      Region.parse s depth (glyphs.map .glyph) = Region.parse s depth (glyphs'.map .glyph)) ∧
    SameSides (splitAtEquals glyphs) (splitAtEquals glyphs') ∧
    ∀ (t : Thresholds) (mode : Mode) (names : List String),
      (glyphs.any (·.label = '=') || mode.needsEquation) = true →
      (∀ left right, splitAtEquals glyphs = .ok (left, right) → IsSpread left ∧ IsSpread right) →
      parseSettled t mode names glyphs = parseSettled t mode names glyphs' := by
  refine ⟨?_, splitAtEquals_perm perm, ?_⟩
  · intro spread s depth
    exact parse_perm perm spread s depth
  · intro t mode names equation spread
    exact parseSettled_perm perm equation spread

/-- A quotient of quotients on the right, with no two centers in one column. -/
def quotientOfQuotients : List Glyph :=
  [.drawn 'A' 0 50 10 20, .drawn '=' 20 50 10 6, .drawn '/' 60 50 50 2, .drawn '/' 61 30 20 2,
    .drawn '1' 62 20 6 10, .drawn '2' 63 40 6 10, .drawn '3' 64 70 6 10]

/-- A quotient of quotients, drawn from its last glyph to its first. -/
theorem drawingOrder_irrelevant_of_reverse :
    Region.parse (.of .standard []) 0 (quotientOfQuotients.map .glyph) =
      Region.parse (.of .standard []) 0 (quotientOfQuotients.reverse.map .glyph) ∧
    SameSides (splitAtEquals quotientOfQuotients) (splitAtEquals quotientOfQuotients.reverse) ∧
    parseSettled .standard .solve [] quotientOfQuotients =
      parseSettled .standard .solve [] quotientOfQuotients.reverse := by
  have perm : quotientOfQuotients.Perm quotientOfQuotients.reverse :=
    (List.reverse_perm _).symm
  have spread : IsSpread quotientOfQuotients :=
    ⟨by decide +kernel, by unfold Region.WidthsDiffer; decide +kernel⟩
  obtain ⟨regions, sides, equations⟩ := drawingOrder_irrelevant perm
  refine ⟨regions spread _ 0, sides, equations .standard .solve [] rfl ?_⟩
  intro left right cut
  obtain ⟨equals, -, rfl, rfl, -⟩ := splitAtEquals_eq_ok.mp cut
  exact ⟨spread.sublist (List.filter_sublist.trans List.filter_sublist),
    spread.sublist (List.filter_sublist.trans List.filter_sublist)⟩

end PenMath
