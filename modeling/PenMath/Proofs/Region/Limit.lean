import PenMath.Proofs.Region.Levels
import PenMath.Tree.Linear

/-!
# The limit on exponents is a threshold

Every region has one expression and one number of levels. Under a limit it is read as that
expression if the limit leaves room for the levels above the depth the region stands at, and else it
is an exponent too deep; nothing else can happen (`exponent_limit_is_threshold`).

The levels are not quite the nesting of the expression. Bars are resolved before the line is
scanned, so the sides of a fraction are read at the depth of the region they are found in, also when
the scan then finds the fraction in an exponent. What such a side holds goes over the limit unseen
(`limit_passes_over_raised_quotient`). The levels are at most the nesting and at least what every
line within the expression rises by itself, and they are the nesting if one line rises so high.
-/

namespace PenMath

/-- Whether the exponents that stand deepest in one another do so without a fraction in between. -/
def Expression.IsStraight (e : Expression) : Prop :=
  ∃ line ∈ e :: baseLines e, nesting e ≤ rise line

instance (e : Expression) : Decidable e.IsStraight :=
  inferInstanceAs
    (Decidable (∃ line ∈ e :: baseLines e, Expression.nesting e ≤ Expression.rise line))

namespace Region

variable {R : Reading} {limit room : Nat} {items : List Item}

/-! ## Lines under a limit -/

/-- Whether an entry has no exponent yet and no line within it rises above a limit. -/
structure IsLow (limit : Nat) (node : Node) : Prop where
  bare : node.power = none
  lines : ∀ line ∈ node.lines, Expression.rise line ≤ limit

/-- A fraction is as low as its two sides, which rise by themselves. -/
theorem isLow_stacked {n d : Expression}
    (upper : ∀ line ∈ n :: baseLines n, Expression.rise line ≤ limit)
    (lower : ∀ line ∈ d :: baseLines d, Expression.rise line ≤ limit) :
    IsLow limit (Fraction.stacked n d).toNode := by
  refine ⟨rfl, ?_⟩
  intro line mem
  rcases List.mem_append.mp mem with above | below
  · exact upper line above
  · exact lower line (by simpa [Fraction.stacked, powerLines] using below)

/-- What reading a smaller region gives where there is some room for exponents left. -/
abbrev ReadsLow (limit room : Nat) : Reading := fun l e =>
  (∀ item ∈ l, IsLow limit item.toNode) →
    Expression.rise e ≤ room ∧ ∀ line ∈ baseLines e, Expression.rise line ≤ limit

/-- The bars of a region leave items that are as low as those they found. -/
theorem Stacked.isLow {signs : List Glyph} {out : List Item}
    (reads : ∀ l e, R l e → ReadsLow limit room l e) (le : room ≤ limit)
    (h : Stacked R signs items out) (low : ∀ item ∈ items, IsLow limit item.toNode) :
    ∀ item ∈ out, IsLow limit item.toNode := by
  refine h.forall_items (fun g => ⟨rfl, List.forall_mem_nil _⟩) ?_ low
  intro upper lower n d _ _ lowUpper lowLower readsUpper readsLower
  obtain ⟨riseUpper, linesUpper⟩ := reads _ _ readsUpper lowUpper
  obtain ⟨riseLower, linesLower⟩ := reads _ _ readsLower lowLower
  exact isLow_stacked (List.forall_mem_cons.mpr ⟨Nat.le_trans riseUpper le, linesUpper⟩)
    (List.forall_mem_cons.mpr ⟨Nat.le_trans riseLower le, linesLower⟩)

/-- An exponent takes one level of the room. -/
theorem Attached.rises {base closed : Node} {power : List Item}
    (reads : ∀ l e, R l e → ReadsLow limit (room - 1) l e) (le : room ≤ limit)
    (h : Attached R base power closed) (lowBase : IsLow limit base)
    (shallow : power ≠ [] → 0 < room) (low : ∀ item ∈ power, IsLow limit item.toNode) :
    closed.depth false ≤ room ∧ ∀ line ∈ closed.lines, Expression.rise line ≤ limit := by
  cases h with
  | bare =>
    rw [Node.depth_of_bare lowBase.bare]
    exact ⟨Nat.zero_le _, lowBase.lines⟩
  | @raised _ e notEmpty read =>
    obtain ⟨rise, lines⟩ := reads _ _ read low
    have some := shallow notEmpty
    rw [Node.depth_withPower lowBase.bare, Node.depth_of_bare lowBase.bare, Nat.zero_max,
      Node.lines_withPower lowBase.bare]
    rw [Expression.rise] at rise
    refine ⟨by omega, ?_⟩
    intro line mem
    rcases List.mem_append.mp mem with old | new
    · exact lowBase.lines line old
    · rcases List.mem_cons.mp new with rfl | inner
      · rw [Expression.rise]
        omega
      · exact lines line inner

/-- The scan goes up one level for an exponent, and only if the limit leaves room for it. -/
theorem Scanned.rises {deepest : Bool} {current : Node} {power rest : List Item}
    {nodes : List Node} (reads : ∀ l e, R l e → ReadsLow limit (room - 1) l e)
    (le : room ≤ limit) (isDeepest : deepest = false → 0 < room)
    (h : Scanned R deepest current power rest nodes) (lowCurrent : IsLow limit current)
    (shallow : power ≠ [] → 0 < room) (lowPower : ∀ item ∈ power, IsLow limit item.toNode)
    (lowRest : ∀ item ∈ rest, IsLow limit item.toNode) :
    Expression.rise nodes ≤ room ∧ ∀ line ∈ baseLines nodes, Expression.rise line ≤ limit := by
  induction h with
  | last closing =>
    obtain ⟨rise, lines⟩ := closing.rises reads le lowCurrent shallow lowPower
    rw [baseLines, baseLines, List.append_nil]
    exact ⟨Nat.max_le.mpr ⟨rise, Nat.zero_le _⟩, lines⟩
  | @raise current power item rest nodes _ notDeepest _ ih =>
    obtain ⟨lowItem, lowRest⟩ := List.forall_mem_cons.mp lowRest
    refine ih lowCurrent (fun _ => isDeepest notDeepest) ?_ lowRest
    exact List.forall_mem_append.mpr ⟨lowPower, List.forall_mem_singleton.mpr lowItem⟩
  | @grow current item grown rest nodes _ joined _ ih =>
    obtain ⟨-, lowRest⟩ := List.forall_mem_cons.mp lowRest
    have bare := power_of_join joined
    obtain ⟨g, -, -, rfl⟩ := join?_eq_some joined
    refine ih ⟨bare, ?_⟩ shallow lowPower lowRest
    rw [Node.lines_append]
    exact lowCurrent.lines
  | @close current power item closed rest nodes _ _ closing _ ih =>
    obtain ⟨lowItem, lowRest⟩ := List.forall_mem_cons.mp lowRest
    obtain ⟨riseFirst, linesFirst⟩ := closing.rises reads le lowCurrent shallow lowPower
    obtain ⟨rise, lines⟩ :=
      ih lowItem (fun some => absurd rfl some) (List.forall_mem_nil _) lowRest
    rw [baseLines]
    exact ⟨Nat.max_le.mpr ⟨riseFirst, rise⟩, List.forall_mem_append.mpr ⟨linesFirst, lines⟩⟩

/-- A line that is read under a limit rises no higher than the limit leaves room for, and no line
within rises above the limit. -/
theorem rises_of_parse {s : Setting} {depth : Nat} {e : Expression}
    (h : parse s depth items = .ok e) : ReadsLow s.maxDepth (s.maxDepth - depth) items e := by
  refine parse_induction s (P := fun depth => ReadsLow s.maxDepth (s.maxDepth - depth)) ?_ h
  intro depth items built entries stacked lined low
  have le : s.maxDepth - depth ≤ s.maxDepth := Nat.sub_le _ _
  have lowBuilt := stacked.isLow (fun l e read => read.2) le low
  rw [Expression.rise, baseDepth_cutWords, baseLines_cutWords]
  cases lined with
  | empty none => exact ⟨Nat.zero_le _, List.forall_mem_nil _⟩
  | @scan first rest nodes sorted scanned =>
    have perm := sortByKey_perm (·.rect.x.place) built
    rw [← leftToRight, sorted] at perm
    have lowSorted : ∀ item ∈ first :: rest, IsLow s.maxDepth item.toNode :=
      fun item mem => lowBuilt item (perm.mem_iff.mp mem)
    obtain ⟨lowFirst, lowRest⟩ := List.forall_mem_cons.mp lowSorted
    refine scanned.rises (fun l e read => read.2) le ?_ lowFirst (fun some => absurd rfl some)
      (List.forall_mem_nil _) lowRest
    intro notDeepest
    have shallow : ¬s.maxDepth ≤ depth := by simpa using notDeepest
    omega

/-! ## The threshold -/

theorem within_eq_ite {α : Type} (levels limit depth : Nat) (a : α) :
    within levels (limit - depth) a =
      if levels = 0 ∨ depth + levels ≤ limit then .ok a else .error .nestedExponent := by
  unfold within
  congr 1
  simp only [eq_iff_iff]
  omega

section

variable {names : List String} {levels : Nat} {e : Expression} {glyphs : List Glyph}

/-- The levels of a region are enough for every line of its expression. -/
theorem Takes.rises (takes : Takes names (glyphs.map .glyph) levels e) :
    ∀ line ∈ e :: baseLines e, Expression.rise line ≤ levels := by
  have read := (takes.reads levels 0).trans (within_of_le (Nat.le_refl _))
  obtain ⟨rise, lines⟩ := rises_of_parse read (by
    intro item mem
    obtain ⟨g, -, rfl⟩ := List.mem_map.mp mem
    exact ⟨rfl, List.forall_mem_nil _⟩)
  exact List.forall_mem_cons.mpr ⟨rise, lines⟩

theorem Takes.eq_nesting (takes : Takes names (glyphs.map .glyph) levels e)
    (straight : Expression.IsStraight e) : levels = Expression.nesting e := by
  obtain ⟨line, mem, high⟩ := straight
  exact Nat.le_antisymm takes.nested (Nat.le_trans high (takes.rises line mem))

end

/-- Glyphs are read as one expression at every depth and under every limit that leaves room for
their levels, and else an exponent is too deep. There is room if the limit is as far above the depth
as there are glyphs. The levels lie between what the lines of the expression rise and its nesting.
Where exponents stand deepest in one another without a fraction in between, they are the nesting. -/
theorem exponent_limit_is_threshold (names : List String) (glyphs : List Glyph) :
    ∃ levels e,
      (∀ limit depth, parse ⟨names, limit⟩ depth (glyphs.map .glyph) =
        if levels = 0 ∨ depth + levels ≤ limit then .ok e else .error .nestedExponent) ∧
      (∀ limit depth, depth + glyphs.length ≤ limit →
        parse ⟨names, limit⟩ depth (glyphs.map .glyph) = .ok e) ∧
      (∀ line ∈ e :: baseLines e, Expression.rise line ≤ levels) ∧
      levels ≤ Expression.nesting e ∧
      (Expression.IsStraight e → ∀ limit depth,
        parse ⟨names, limit⟩ depth (glyphs.map .glyph) =
          if Expression.nesting e = 0 ∨ depth + Expression.nesting e ≤ limit then .ok e
          else .error .nestedExponent) := by
  obtain ⟨levels, e, takes⟩ := exists_takes names (Bare.glyphs glyphs)
  have short : levels ≤ glyphs.length := by simpa using takes.short
  refine ⟨levels, e, ?_, ?_, takes.rises, takes.nested, ?_⟩
  · intro limit depth
    rw [takes.reads, within_eq_ite]
  · intro limit depth room
    rw [takes.reads, within_of_le (by omega)]
  · intro straight limit depth
    rw [takes.reads, within_eq_ite, takes.eq_nesting straight]

/-- A to the power of one squared. -/
def raisedSquare : List Glyph :=
  [.drawn 'A' 0 50 10 20, .drawn '1' 10 30 6 8, .drawn '2' 16 20 4 6]

/-- A power with a square as its exponent needs a limit of two. -/
theorem exponent_limit_of_raisedSquare :
    ∃ e, Expression.text e = "A**(1**(2))" ∧ Expression.IsStraight e ∧
      Expression.nesting e = 2 ∧
      parse ⟨[], 2⟩ 0 (raisedSquare.map .glyph) = .ok e ∧
      parse ⟨[], 1⟩ 0 (raisedSquare.map .glyph) = .error .nestedExponent := by
  obtain ⟨levels, e, -, roomy, -, -, straight⟩ := exponent_limit_is_threshold [] raisedSquare
  have read : (parse ⟨[], 3⟩ 0 (raisedSquare.map .glyph)).map
      (fun e => (Expression.text e, decide (Expression.IsStraight e), Expression.nesting e)) =
      .ok ("A**(1**(2))", true, 2) := by decide +kernel
  rw [roomy 3 0 (by decide)] at read
  obtain ⟨text, isStraight, nesting⟩ : Expression.text e = "A**(1**(2))" ∧
      Expression.IsStraight e ∧ Expression.nesting e = 2 := by
    simpa [Except.map] using read
  have threshold := straight isStraight
  rw [nesting] at threshold
  exact ⟨e, text, isStraight, nesting, threshold 2 0, threshold 1 0⟩

/-- One over three, the one squared, drawn as the exponent of A. -/
def raisedQuotient : List Glyph :=
  [.drawn 'A' 0 50 10 20, .drawn '1' 35 15 6 8, .drawn '2' 42 7 4 6, .drawn '/' 40 25 30 2,
    .drawn '3' 40 32 6 8]

/-- The square is nested twice and read under a limit of one: the threshold is not the nesting. -/
theorem limit_passes_over_raised_quotient :
    ∃ e, parse ⟨[], 1⟩ 0 (raisedQuotient.map .glyph) = .ok e ∧
      Expression.text e = "A**((1**(2))/(3))" ∧ Expression.nesting e = 2 ∧
      ¬∃ e', ∀ limit depth, parse ⟨[], limit⟩ depth (raisedQuotient.map .glyph) =
        if Expression.nesting e' = 0 ∨ depth + Expression.nesting e' ≤ limit then .ok e'
        else .error .nestedExponent := by
  have read : (parse ⟨[], 1⟩ 0 (raisedQuotient.map .glyph)).map
      (fun e => (Expression.text e, Expression.nesting e)) = .ok ("A**((1**(2))/(3))", 2) := by
    decide +kernel
  obtain ⟨e, read, measured⟩ := map_eq_ok.mp read
  obtain ⟨text, nesting⟩ := Prod.mk.inj measured
  refine ⟨e, read, text, nesting, ?_⟩
  intro threshold
  obtain ⟨e', threshold⟩ := threshold
  have claimed := threshold 1 0
  rw [read] at claimed
  split at claimed
  next room =>
    cases claimed
    omega
  next => cases claimed

end Region

end PenMath
