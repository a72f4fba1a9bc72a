import PenMath.Region.Stack

/-!
# Division bars of a region

Which bar a round takes, what it leaves, and what the round does with them. `takeWidestBar?_split`
says where the bar stood: every bar before it is narrower and no bar after it is wider. What is left
is the same list without that place.

The loop is opened here once, in four equations for the four things that a round can do, and later
proofs go by these.
-/

namespace PenMath.Region

variable {items others : List Item} {bar : Glyph}

/-! ## The bars of a list -/

/-- An item is a glyph with a label if it is a glyph and its label is that. -/
theorem glyphWith?_eq_some {item : Item} {label : Char} {g : Glyph} :
    item.glyphWith? label = some g ↔ item = .glyph g ∧ g.label = label := by
  cases item with
  | glyph h =>
    rw [Item.glyphWith?]
    constructor
    · intro some
      split at some
      next label =>
        cases some
        exact ⟨rfl, label⟩
      next => cases some
    · intro h
      obtain ⟨⟨⟩, label⟩ := h
      rw [if_pos label]
  | fraction f =>
    constructor
    · intro some
      cases some
    · intro h
      obtain ⟨⟨⟩, _⟩ := h

/-- The "/" of a list of items, in order. -/
def barsOf (items : List Item) : List Glyph := items.filterMap (·.glyphWith? '/')

@[simp] theorem barsOf_nil : barsOf [] = [] := rfl

@[simp] theorem barsOf_append (front back : List Item) :
    barsOf (front ++ back) = barsOf front ++ barsOf back := List.filterMap_append

theorem barsOf_cons (item : Item) (rest : List Item) :
    barsOf (item :: rest) = (item.glyphWith? '/').toList ++ barsOf rest := by
  cases h : item.glyphWith? '/' <;> simp [barsOf, h]

theorem barsOf_bar_cons (label : bar.label = '/') (rest : List Item) :
    barsOf (.glyph bar :: rest) = bar :: barsOf rest :=
  List.filterMap_cons_some (glyphWith?_eq_some.mpr ⟨rfl, label⟩)

@[simp] theorem barsOf_fraction (f : Fraction) : barsOf [.fraction f] = [] := rfl

/-- Bars are the glyphs among the items that are divisions. -/
theorem mem_barsOf {g : Glyph} : g ∈ barsOf items ↔ .glyph g ∈ items ∧ g.label = '/' := by
  rw [barsOf, List.mem_filterMap]
  constructor
  · intro h
    obtain ⟨item, mem, some⟩ := h
    obtain ⟨rfl, label⟩ := glyphWith?_eq_some.mp some
    exact ⟨mem, label⟩
  · intro h
    exact ⟨_, h.1, glyphWith?_eq_some.mpr ⟨rfl, h.2⟩⟩

theorem barsOf_map_glyph (glyphs : List Glyph) :
    barsOf (glyphs.map .glyph) = glyphs.filter (·.label = '/') := by
  induction glyphs with
  | nil => rfl
  | cons g rest ih =>
    rw [List.map_cons, barsOf_cons, ih, Item.glyphWith?]
    by_cases label : g.label = '/' <;> simp [label]

/-! ## The widest bar -/

theorem takeWidestBar?_eq_none : takeWidestBar? items = none ↔ barsOf items = [] := by
  induction items with
  | nil => simp [takeWidestBar?]
  | cons item rest ih =>
    rw [takeWidestBar?, barsOf_cons, List.append_eq_nil_iff, ← ih]
    cases item.glyphWith? '/' <;> cases takeWidestBar? rest <;> simp
    split <;> simp

/-- A bar that is wider than the bars before it and not narrower than those after it is not narrower
than any. -/
theorem width_le_of_split {front back : List Item} {g : Glyph} (label : bar.label = '/')
    (narrower : ∀ g ∈ barsOf front, g.rect.width < bar.rect.width)
    (notWider : ∀ g ∈ barsOf back, g.rect.width ≤ bar.rect.width)
    (mem : g ∈ barsOf (front ++ .glyph bar :: back)) : g.rect.width ≤ bar.rect.width := by
  rw [barsOf_append, barsOf_bar_cons label] at mem
  rcases List.mem_append.mp mem with inFront | rest
  · exact Coord.le_of_lt (narrower g inFront)
  · rcases List.mem_cons.mp rest with same | inBack
    · rw [same]
      exact Coord.le_refl_of_isNaN bar.rect.width_isNaN
    · exact notWider g inBack

/-- The bar taken is wider than every bar before it and as wide as every bar after it; the items
left are the others in order. -/
theorem takeWidestBar?_split (h : takeWidestBar? items = some (bar, others)) :
    bar.label = '/' ∧ ∃ front back, items = front ++ .glyph bar :: back ∧ others = front ++ back ∧
      (∀ g ∈ barsOf front, g.rect.width < bar.rect.width) ∧
      ∀ g ∈ barsOf back, g.rect.width ≤ bar.rect.width := by
  induction items generalizing bar others with
  | nil => cases h
  | cons item rest ih =>
    rw [takeWidestBar?] at h
    split at h
    next => cases h
    next wider left noBar taken =>
      -- the first item is no bar, and the bar is the one taken from the rest
      cases h
      obtain ⟨label, front, back, rfl, rfl, narrower, notWider⟩ := ih taken
      refine ⟨label, item :: front, back, rfl, rfl, ?_, notWider⟩
      rw [barsOf_cons, noBar]
      exact narrower
    next candidate isBar notTaken =>
      -- the first item is the only bar
      cases h
      obtain ⟨rfl, label⟩ := glyphWith?_eq_some.mp isBar
      refine ⟨label, [], rest, rfl, rfl, by simp, ?_⟩
      rw [takeWidestBar?_eq_none.mp notTaken]
      simp
    next candidate wider left isBar taken =>
      -- the first item is a bar, and the wider of the two is taken
      obtain ⟨rfl, label⟩ := glyphWith?_eq_some.mp isBar
      obtain ⟨label', front, back, rfl, rfl, narrower, notWider⟩ := ih taken
      split at h
      next le =>
        cases h
        refine ⟨label, [], _, rfl, rfl, by simp, ?_⟩
        intro g mem
        exact Coord.le_trans (width_le_of_split label' narrower notWider mem) le
      next notLe =>
        cases h
        have lt := Coord.lt_of_not_le candidate.rect.width_isNaN bar.rect.width_isNaN notLe
        refine ⟨label', .glyph candidate :: front, back, rfl, rfl, ?_, notWider⟩
        rw [barsOf_bar_cons label]
        exact List.forall_mem_cons.mpr ⟨lt, narrower⟩

/-- The bar and what is left are what there was. -/
theorem takeWidestBar?_perm (h : takeWidestBar? items = some (bar, others)) :
    (.glyph bar :: others).Perm items := by
  obtain ⟨-, front, back, rfl, rfl, -, -⟩ := takeWidestBar?_split h
  exact List.perm_middle.symm

theorem mem_of_taken (h : takeWidestBar? items = some (bar, others)) {item : Item}
    (mem : item ∈ others) : item ∈ items :=
  (takeWidestBar?_perm h).mem_iff.mp (List.mem_cons_of_mem _ mem)

/-- The bar taken is a widest one. -/
theorem width_le_of_taken (taken : takeWidestBar? items = some (bar, others)) {g : Glyph}
    (mem : g ∈ barsOf items) : g.rect.width ≤ bar.rect.width := by
  obtain ⟨label, front, back, rfl, rfl, narrower, notWider⟩ := takeWidestBar?_split taken
  exact width_le_of_split label narrower notWider mem

theorem mem_barsOf_of_taken (taken : takeWidestBar? items = some (bar, others)) :
    bar ∈ barsOf items := by
  obtain ⟨label, front, back, rfl, -, -, -⟩ := takeWidestBar?_split taken
  exact mem_barsOf.mpr ⟨by simp, label⟩

/-! ## Around a bar -/

/-- Every item is beside, above or below a bar. -/
theorem around_perm (bar : Glyph) (items : List Item) :
    (beside bar items ++ above bar items ++ below bar items).Perm items := by
  have across : (above bar items ++ below bar items).Perm (items.filter (isOver bar)) := by
    have upper : above bar items = (items.filter (isOver bar)).filter (isUpper bar) := by
      rw [List.filter_filter, above]
      exact List.filter_congr fun item _ => Bool.and_comm ..
    have lower : below bar items = (items.filter (isOver bar)).filter fun item =>
        !isUpper bar item := by
      rw [List.filter_filter, below]
      exact List.filter_congr fun item _ => Bool.and_comm ..
    rw [upper, lower]
    exact List.filter_append_perm _ _
  rw [List.append_assoc]
  exact (across.append_left _).trans
    (List.perm_append_comm.trans (List.filter_append_perm (isOver bar) items))

end PenMath.Region
