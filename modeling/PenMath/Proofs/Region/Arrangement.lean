import PenMath.Proofs.Region.DrawingOrder

/-!
# Fractions drawn over one another

An arrangement is what someone has in mind who draws nested fractions: symbols side by side, or one
arrangement above a bar and another one below. In whatever order the glyphs of an arrangement are
listed, the region is read as that arrangement: every bar becomes a fraction of what was drawn above
it over what was drawn below it (`arrangement_is_recovered`).

The bar between the two sides is the widest, so the first round takes it. All the rest lies across
it, so that round leaves a single fraction, and neither the scan of the line nor the cut into words
has anything to do with a line of one fraction (`parse_of_across`).
-/

namespace PenMath

/-- Symbols side by side, or one arrangement over another with a bar between them. -/
inductive Arrangement where
  | leaf (glyphs : List Glyph)
  | stacked (upper : Arrangement) (bar : Glyph) (lower : Arrangement)

namespace Arrangement

/-- All glyphs, from top to bottom. -/
def glyphs : Arrangement → List Glyph
  | leaf glyphs => glyphs
  | stacked upper bar lower => upper.glyphs ++ bar :: lower.glyphs

/-- The symbols that stand side by side, from top to bottom. -/
def leaves : Arrangement → List (List Glyph)
  | leaf glyphs => [glyphs]
  | stacked upper _ lower => upper.leaves ++ lower.leaves

/-- The expression that an arrangement is: a fraction for every bar, and for symbols side by side
what they are read as by themselves. -/
def read (s : Region.Setting) (depth : Nat) : Arrangement → Except Fault Expression
  | leaf glyphs => Region.parse s depth (glyphs.map .glyph)
  | stacked upper _ lower => do
    let numerator ← upper.read s depth
    let denominator ← lower.read s depth
    return [(Fraction.stacked numerator denominator).toNode]

/-- Whether glyphs lie across a bar, some not below its center and the others below it. -/
structure IsAround (bar : Glyph) (upper lower : List Glyph) : Prop where
  across : ∀ g ∈ upper ++ lower, g.rect.overlapsAcross bar.rect = true
  notBelow : ∀ g ∈ upper, g.rect.y ≤ bar.rect.y
  below : ∀ g ∈ lower, ¬g.rect.y ≤ bar.rect.y

/-- Whether the glyphs of an arrangement are where the arrangement says. -/
inductive IsDrawn : Arrangement → Prop
  | leaf {glyphs} (notEmpty : glyphs ≠ []) (noBar : ∀ g ∈ glyphs, g.label ≠ '/') :
      IsDrawn (leaf glyphs)
  /-- Both sides lie around the bar, which is wider than any bar in them. -/
  | stacked {upper bar lower} (isBar : bar.label = '/') (upperDrawn : IsDrawn upper)
      (lowerDrawn : IsDrawn lower) (around : IsAround bar upper.glyphs lower.glyphs)
      (widest : ∀ g ∈ upper.glyphs ++ lower.glyphs, g.label = '/' →
        g.rect.width < bar.rect.width) :
      IsDrawn (stacked upper bar lower)

theorem IsDrawn.glyphs_ne_nil {a : Arrangement} (drawn : a.IsDrawn) : a.glyphs ≠ [] := by
  cases drawn with
  | leaf notEmpty _ => exact notEmpty
  | stacked => exact List.append_ne_nil_of_right_ne_nil _ (List.cons_ne_nil _ _)

/-- An arrangement is an expression if all symbols side by side are. -/
theorem exists_read_eq_ok {s : Region.Setting} {depth : Nat} {a : Arrangement}
    (leaves : ∀ l ∈ a.leaves, ∃ e, Region.parse s depth (l.map .glyph) = .ok e) :
    ∃ e, a.read s depth = .ok e := by
  induction a with
  | leaf glyphs => exact leaves glyphs (List.mem_singleton_self _)
  | stacked upper bar lower ihUpper ihLower =>
    obtain ⟨numerator, upperRead⟩ := ihUpper fun l mem => leaves l (List.mem_append_left _ mem)
    obtain ⟨denominator, lowerRead⟩ := ihLower fun l mem => leaves l (List.mem_append_right _ mem)
    exact ⟨_, bind_eq_ok.mpr ⟨_, upperRead, bind_eq_ok.mpr ⟨_, lowerRead, rfl⟩⟩⟩

end Arrangement

namespace Region

/-! ## A region that lies across its widest bar -/

/-- A list of one fraction has all its bars resolved. -/
theorem stack_fraction (read : Reader) (f : Fraction) :
    stack read [] [.fraction f] = .ok [.fraction f] :=
  stack_of_none (takeWidestBar?_eq_none.mpr (barsOf_fraction f))

/-- A region of which everything lies above or below its widest bar is a single fraction. -/
theorem parse_of_across {s : Setting} {depth : Nat} {items others : List Item} {bar : Glyph}
    (taken : takeWidestBar? items = some (bar, others)) (someAbove : above bar others ≠ [])
    (someBelow : below bar others ≠ []) (noneBeside : beside bar others = []) :
    parse s depth items = (do
      let numerator ← parse s depth (above bar others)
      let denominator ← parse s depth (below bar others)
      return [(Fraction.stacked numerator denominator).toNode]) := by
  rw [parse_eq, fractionsAt, fractions,
    stack_of_twoSided taken (by simp [someAbove]) (by simp [someAbove, someBelow]), noneBeside]
  cases parse s depth (above bar others) with
  | error => rfl
  | ok numerator =>
    cases parse s depth (below bar others) with
    | error => rfl
    | ok denominator =>
      -- the line is that fraction alone, and there are no letters to cut
      simp only [bind, Except.bind, List.nil_append, stack_fraction]
      rfl

/-- Of glyphs with one bar that is wider than all others this bar is taken, and the other glyphs are
left. -/
theorem taken_of_widest {glyphs rest : List Glyph} {bar : Glyph} (isBar : bar.label = '/')
    (perm : glyphs.Perm (bar :: rest))
    (widest : ∀ g ∈ rest, g.label = '/' → g.rect.width < bar.rect.width) :
    ∃ others : List Glyph, takeWidestBar? (glyphs.map .glyph) = some (bar, others.map .glyph) ∧
      others.Perm rest := by
  have mem : bar ∈ barsOf (glyphs.map .glyph) := by
    rw [barsOf_map_glyph]
    exact List.mem_filter.mpr ⟨perm.mem_iff.mpr List.mem_cons_self, by simpa using isBar⟩
  cases taken : takeWidestBar? (glyphs.map .glyph) with
  | none =>
    rw [takeWidestBar?_eq_none.mp taken] at mem
    cases mem
  | some found =>
    obtain ⟨other, others⟩ := found
    obtain ⟨label, front, back, split, rfl, -, -⟩ := takeWidestBar?_split taken
    obtain ⟨before, after, rfl, rfl, mapped⟩ := List.map_eq_append_iff.mp split
    obtain ⟨_, after, rfl, ⟨⟩, rfl⟩ := List.map_eq_cons_iff.mp mapped
    -- a bar among the rest would be narrower than one that was there to be taken
    obtain rfl : other = bar := by
      have among : other ∈ bar :: rest := perm.mem_iff.mp (by simp)
      rcases List.mem_cons.mp among with same | inRest
      · exact same
      · exact absurd (width_le_of_taken taken mem)
          (Coord.not_le_of_lt (widest other inRest label))
    refine ⟨before ++ after, by rw [List.map_append], ?_⟩
    exact (List.perm_middle.symm.trans perm).cons_inv

/-- A test that the first of two lists passes and the second fails gives back the first. -/
theorem filter_perm_of_append {glyphs front back : List Glyph} {p : Item → Bool}
    (perm : glyphs.Perm (front ++ back)) (passes : ∀ g ∈ front, (p ∘ .glyph) g = true)
    (fails : ∀ g ∈ back, ¬(p ∘ .glyph) g = true) :
    ∃ kept : List Glyph, (glyphs.map .glyph).filter p = kept.map .glyph ∧ kept.Perm front := by
  refine ⟨glyphs.filter (p ∘ .glyph), List.filter_map, ?_⟩
  have kept := perm.filter (p ∘ .glyph)
  rw [List.filter_append, List.filter_eq_self.mpr passes, List.filter_eq_nil_iff.mpr fails,
    List.append_nil] at kept
  exact kept

section

variable {others upper lower : List Glyph} {bar : Glyph}

/-- What was drawn above the bar is what lies above it. -/
theorem above_of_isAround (around : Arrangement.IsAround bar upper lower)
    (perm : others.Perm (upper ++ lower)) :
    ∃ l : List Glyph, above bar (others.map .glyph) = l.map .glyph ∧ l.Perm upper := by
  refine filter_perm_of_append perm ?_ ?_
  · intro g mem
    have lies := around.across g (List.mem_append_left _ mem)
    simp [isOver, isUpper, Item.rect, lies, around.notBelow g mem]
  · intro g mem
    simp [isUpper, Item.rect, around.below g mem]

/-- What was drawn below the bar is what lies below it. -/
theorem below_of_isAround (around : Arrangement.IsAround bar upper lower)
    (perm : others.Perm (upper ++ lower)) :
    ∃ l : List Glyph, below bar (others.map .glyph) = l.map .glyph ∧ l.Perm lower := by
  refine filter_perm_of_append (perm.trans List.perm_append_comm) ?_ ?_
  · intro g mem
    have lies := around.across g (List.mem_append_right _ mem)
    simp [isOver, isUpper, Item.rect, lies, around.below g mem]
  · intro g mem
    simp [isUpper, Item.rect, around.notBelow g mem]

theorem beside_of_isAround (around : Arrangement.IsAround bar upper lower)
    (perm : others.Perm (upper ++ lower)) : beside bar (others.map .glyph) = [] := by
  refine List.filter_eq_nil_iff.mpr ?_
  intro item mem
  obtain ⟨g, inOthers, rfl⟩ := List.mem_map.mp mem
  simpa [isOver, Item.rect] using around.across g (perm.mem_iff.mp inOthers)

end

end Region

/-! ## Arrangements -/

namespace Arrangement

/-- The widest bar is the outermost one, so reading takes an arrangement apart from the outside. -/
theorem parse_of_isDrawn {s : Region.Setting} {depth : Nat} {a : Arrangement}
    (drawn : a.IsDrawn)
    (apart : a.glyphs.Pairwise fun g h => g.rect.x.place ≠ h.rect.x.place)
    {glyphs : List Glyph} (perm : glyphs.Perm a.glyphs) :
    Region.parse s depth (glyphs.map .glyph) = a.read s depth := by
  induction drawn generalizing glyphs with
  | @leaf symbols _ noBar =>
    have noBars : symbols.filter (·.label = '/') = [] :=
      List.filter_eq_nil_iff.mpr fun g mem => by simpa using noBar g mem
    exact (parse_perm perm.symm ⟨apart, noBars ▸ .nil⟩ s depth).symm
  | @stacked upper bar lower isBar upperDrawn lowerDrawn around widest ihUpper ihLower =>
    obtain ⟨others, taken, rest⟩ :=
      Region.taken_of_widest isBar (perm.trans List.perm_middle) widest
    obtain ⟨above, isAbove, abovePerm⟩ := Region.above_of_isAround around rest
    obtain ⟨below, isBelow, belowPerm⟩ := Region.below_of_isAround around rest
    -- neither side is empty, so the bar makes a fraction
    have someAbove : above.map Item.glyph ≠ [] := by
      simpa using fun none => upperDrawn.glyphs_ne_nil (none ▸ abovePerm).nil_eq.symm
    have someBelow : below.map Item.glyph ≠ [] := by
      simpa using fun none => lowerDrawn.glyphs_ne_nil (none ▸ belowPerm).nil_eq.symm
    obtain ⟨upperApart, lowerSide, -⟩ := List.pairwise_append.mp apart
    rw [Region.parse_of_across taken (isAbove ▸ someAbove) (isBelow ▸ someBelow)
      (Region.beside_of_isAround around rest), isAbove, isBelow, ihUpper upperApart abovePerm,
      ihLower lowerSide.of_cons belowPerm, read]

/-- Glyphs with different centers that are arranged in some way are read, in whatever order they are
listed, as fractions nested in that way over what the symbols side by side are read as by
themselves. They are read whenever these are. -/
theorem arrangement_is_recovered (s : Region.Setting) (depth : Nat) (a : Arrangement)
    (drawn : a.IsDrawn)
    (apart : a.glyphs.Pairwise fun g h => g.rect.x.place ≠ h.rect.x.place)
    (glyphs : List Glyph) (perm : glyphs.Perm a.glyphs) :
    Region.parse s depth (glyphs.map .glyph) = a.read s depth ∧
      ((∀ leaf ∈ a.leaves, ∃ e, Region.parse s depth (leaf.map .glyph) = .ok e) →
        ∃ e, Region.parse s depth (glyphs.map .glyph) = .ok e) := by
  have same : Region.parse s depth (glyphs.map .glyph) = a.read s depth :=
    parse_of_isDrawn drawn apart perm
  refine ⟨same, ?_⟩
  intro leaves
  rw [same]
  exact exists_read_eq_ok leaves

/-- One over two, both over three times A. -/
def quotientOverProduct : Arrangement :=
  .stacked (.stacked (.leaf [.drawn '1' 62 20 6 10]) (.drawn '/' 61 30 20 2)
      (.leaf [.drawn '2' 63 40 6 10]))
    (.drawn '/' 60 50 50 2)
    (.leaf [.drawn '3' 55 70 6 10, .drawn 'A' 65 70 6 10])

theorem isDrawn_quotientOverProduct : quotientOverProduct.IsDrawn := by
  refine .stacked (by decide +kernel) ?_ ?_ ⟨?_, ?_, ?_⟩ ?_
  · refine .stacked (by decide +kernel) ?_ ?_ ⟨?_, ?_, ?_⟩ ?_
    · exact .leaf (by decide +kernel) (by decide +kernel)
    · exact .leaf (by decide +kernel) (by decide +kernel)
    all_goals decide +kernel
  · exact .leaf (by decide +kernel) (by decide +kernel)
  all_goals decide +kernel

/-- A quotient over a product, listed from its last glyph to its first. -/
theorem arrangement_is_recovered_of_reverse :
    (∃ e, Region.parse (.of .standard []) 0 (quotientOverProduct.glyphs.reverse.map .glyph) =
      .ok e) ∧
    Region.parse (.of .standard []) 0 (quotientOverProduct.glyphs.reverse.map .glyph) =
      quotientOverProduct.read (.of .standard []) 0 := by
  have recovers := arrangement_is_recovered (.of .standard []) 0 quotientOverProduct
    isDrawn_quotientOverProduct (by decide +kernel) _ (List.reverse_perm _)
  refine ⟨recovers.2 ?_, recovers.1⟩
  have read : ∀ leaf ∈ quotientOverProduct.leaves,
      (Region.parse (.of .standard []) 0 (leaf.map .glyph)).isOk = true := by decide +kernel
  intro leaf mem
  have isRead := read leaf mem
  cases reads : Region.parse (.of .standard []) 0 (leaf.map .glyph) with
  | error fault =>
    rw [reads] at isRead
    cases isRead
  | ok e => exact ⟨e, rfl⟩

end Arrangement

end PenMath
