import PenMath.Tree.Basic

/-!
# Fractions of a region

Division bars are resolved from the widest to the narrowest. What overlaps a bar horizontally lies
above or below it. With something on both sides the bar becomes a fraction of two smaller regions;
with nothing on either side it is a division sign in the line, kept for later; with one side empty
it is dropped and its neighbours stay.

Every round uses up one bar, so the list gets shorter and the loop ends. How a smaller region is
read is a parameter, and `stack_congr` says that only regions shorter than the list are ever asked
for.
-/

namespace PenMath.Region

/-- A way to read the items of a smaller region. -/
abbrev Reader := List Item → Except Fault Expression

/-! ## The widest bar -/

/-- The widest "/" of a list, the first of equally wide ones, and the list without it. -/
def takeWidestBar? : List Item → Option (Glyph × List Item)
  | [] => none
  | item :: rest =>
    match item.glyphWith? '/', takeWidestBar? rest with
    | none, none => none
    | none, some (bar, others) => some (bar, item :: others)
    | some bar, none => some (bar, rest)
    | some bar, some (wider, others) =>
      if wider.rect.width ≤ bar.rect.width then some (bar, rest) else some (wider, item :: others)

/-- Taking a bar makes a list shorter by one. -/
theorem length_takeWidestBar? {items : List Item} {bar : Glyph} {others : List Item}
    (h : takeWidestBar? items = some (bar, others)) : others.length + 1 = items.length := by
  induction items generalizing bar others with
  | nil => cases h
  | cons item rest ih =>
    rw [takeWidestBar?] at h
    split at h
    next => cases h
    next heq =>
      cases h
      rw [List.length_cons, List.length_cons, ih heq]
    next => cases h; rfl
    next heq =>
      split at h
      · cases h; rfl
      · cases h
        rw [List.length_cons, List.length_cons, ih heq]

/-! ## Around a bar -/

/-- Whether an item overlaps a bar horizontally. -/
def isOver (bar : Glyph) (item : Item) : Bool := item.rect.overlapsAcross bar.rect

/-- Whether an item is not lower than a bar. -/
def isUpper (bar : Glyph) (item : Item) : Bool := item.rect.y ≤ bar.rect.y

/-- The items above a bar. -/
def above (bar : Glyph) (items : List Item) : List Item :=
  items.filter fun item => isOver bar item && isUpper bar item

/-- The items below a bar. -/
def below (bar : Glyph) (items : List Item) : List Item :=
  items.filter fun item => isOver bar item && !isUpper bar item

/-- The items beside a bar. -/
def beside (bar : Glyph) (items : List Item) : List Item :=
  items.filter fun item => !isOver bar item

/-- Every item is above, below or beside a bar. -/
theorem length_around (bar : Glyph) (items : List Item) :
    (above bar items).length + (below bar items).length + (beside bar items).length =
      items.length := by
  induction items with
  | nil => rfl
  | cons item rest ih =>
    simp only [above, below, beside] at ih ⊢
    cases isOnto : isOver bar item <;> cases upper : isUpper bar item <;>
      simp [isOnto, upper] <;> omega

/-- A bar with two sides has something on each. -/
theorem length_sides_pos {bar : Glyph} {items : List Item}
    (twoSided : ¬((above bar items).isEmpty || (below bar items).isEmpty) = true) :
    0 < (above bar items).length ∧ 0 < (below bar items).length := by
  rw [Bool.or_eq_true, not_or, List.isEmpty_iff_length_eq_zero, List.isEmpty_iff_length_eq_zero]
    at twoSided
  omega

/-! ## What a round leaves

Taking a bar makes a list shorter, and so is everything that is made of the rest: its parts, and the
list that the next round begins with.
-/

section

variable {items others : List Item} {bar : Glyph}

theorem length_above_lt (taken : takeWidestBar? items = some (bar, others)) :
    (above bar others).length < items.length := by
  have count := length_takeWidestBar? taken
  have around := length_around bar others
  omega

theorem length_below_lt (taken : takeWidestBar? items = some (bar, others)) :
    (below bar others).length < items.length := by
  have count := length_takeWidestBar? taken
  have around := length_around bar others
  omega

theorem length_beside_lt (taken : takeWidestBar? items = some (bar, others)) :
    (beside bar others).length < items.length := by
  have count := length_takeWidestBar? taken
  have around := length_around bar others
  omega

/-- A bar that is dropped leaves the things around it. -/
theorem length_dropped_lt (taken : takeWidestBar? items = some (bar, others)) :
    (beside bar others ++ above bar others ++ below bar others).length < items.length := by
  have count := length_takeWidestBar? taken
  have around := length_around bar others
  rw [List.length_append, List.length_append]
  omega

/-- A fraction takes the place of the bar and at least two other items. -/
theorem length_built_lt (taken : takeWidestBar? items = some (bar, others))
    (twoSided : ¬((above bar others).isEmpty || (below bar others).isEmpty) = true) (f : Fraction) :
    (beside bar others ++ [Item.fraction f]).length < items.length := by
  have count := length_takeWidestBar? taken
  have around := length_around bar others
  have sides := length_sides_pos twoSided
  rw [List.length_append, List.length_singleton]
  omega

end

/-! ## The loop -/

/-- The items with every bar resolved; `inline` holds the division signs met so far. -/
def stack (read : Reader) (inline : List Glyph) (items : List Item) :
    Except Fault (List Item) :=
  match _taken : takeWidestBar? items with
  | none => .ok (items ++ inline.map .glyph)
  | some (bar, others) =>
    if (above bar others).isEmpty && (below bar others).isEmpty then
      stack read (inline ++ [bar]) (beside bar others)
    else if _oneSided : (above bar others).isEmpty || (below bar others).isEmpty then
      stack read inline (beside bar others ++ above bar others ++ below bar others)
    else do
      let numerator ← read (above bar others)
      let denominator ← read (below bar others)
      stack read inline (beside bar others ++ [.fraction (.stacked numerator denominator)])
termination_by items.length
decreasing_by
  · exact length_beside_lt _taken
  · exact length_dropped_lt _taken
  · exact length_built_lt _taken _oneSided _

/-- The items of a region with every bar resolved: fractions take the place of their parts, and
division signs in the line go to the end. -/
def fractions (read : Reader) (items : List Item) : Except Fault (List Item) := stack read [] items

/-! ## One round

What a round does is settled by the bar taken and by what lies above and below it. The loop is
opened here once, in four equations for the four things that a round can do, and later proofs go by
these.
-/

section

variable {read : Reader} {inline : List Glyph} {items others : List Item} {bar : Glyph}

/-- Without a bar the signs found before go to the end. -/
theorem stack_of_none (none : takeWidestBar? items = none) :
    stack read inline items = .ok (items ++ inline.map .glyph) := by
  rw [stack]
  split
  next => rfl
  next some =>
    rw [none] at some
    cases some

/-- A bar with nothing above and below it is a sign. -/
theorem stack_of_inline (taken : takeWidestBar? items = some (bar, others))
    (empty : ((above bar others).isEmpty && (below bar others).isEmpty) = true) :
    stack read inline items = stack read (inline ++ [bar]) (beside bar others) := by
  conv => lhs; rw [stack]
  split
  next none =>
    rw [taken] at none
    cases none
  next some =>
    rw [taken] at some
    cases some
    rw [if_pos empty]

/-- A bar with one side empty is dropped. -/
theorem stack_of_oneSided (taken : takeWidestBar? items = some (bar, others))
    (notEmpty : ¬((above bar others).isEmpty && (below bar others).isEmpty) = true)
    (oneSided : ((above bar others).isEmpty || (below bar others).isEmpty) = true) :
    stack read inline items =
      stack read inline (beside bar others ++ above bar others ++ below bar others) := by
  conv => lhs; rw [stack]
  split
  next none =>
    rw [taken] at none
    cases none
  next some =>
    rw [taken] at some
    cases some
    rw [if_neg notEmpty, dif_pos oneSided]

/-- A bar with two sides is a fraction of what is read from them. -/
theorem stack_of_twoSided (taken : takeWidestBar? items = some (bar, others))
    (notEmpty : ¬((above bar others).isEmpty && (below bar others).isEmpty) = true)
    (twoSided : ¬((above bar others).isEmpty || (below bar others).isEmpty) = true) :
    stack read inline items = (do
      let numerator ← read (above bar others)
      let denominator ← read (below bar others)
      stack read inline (beside bar others ++ [.fraction (.stacked numerator denominator)])) := by
  conv => lhs; rw [stack]
  split
  next none =>
    rw [taken] at none
    cases none
  next some =>
    rw [taken] at some
    cases some
    rw [if_neg notEmpty, dif_neg twoSided]

end

/-! ## Whole runs -/

/-- Only regions shorter than the list are read. -/
theorem stack_congr {read read' : Reader} {n : Nat}
    (agree : ∀ l : List Item, l.length < n → read l = read' l) (inline : List Glyph)
    (items : List Item) (short : items.length ≤ n) :
    stack read inline items = stack read' inline items := by
  fun_induction stack read inline items with
  | case1 inline items notTaken => rw [stack_of_none notTaken]
  | case2 inline items bar others taken empty ih =>
    have fewer := length_beside_lt taken
    rw [stack_of_inline taken empty]
    exact ih (by omega)
  | case3 inline items bar others taken notEmpty oneSided ih =>
    have fewer := length_dropped_lt taken
    rw [stack_of_oneSided taken notEmpty oneSided]
    exact ih (by omega)
  | case4 inline items bar others taken notEmpty twoSided ih =>
    rw [stack_of_twoSided taken notEmpty twoSided,
      ← agree _ (Nat.lt_of_lt_of_le (length_above_lt taken) short),
      ← agree _ (Nat.lt_of_lt_of_le (length_below_lt taken) short)]
    -- only where both sides are read do the rounds go on
    cases read (above bar others) with
    | error => rfl
    | ok numerator =>
      cases read (below bar others) with
      | error => rfl
      | ok denominator =>
        have fewer := length_built_lt taken twoSided (.stacked numerator denominator)
        exact ih numerator denominator (by omega)

/-- Resolving bars makes no list longer. -/
theorem length_stack_le {read : Reader} {inline : List Glyph} {items out : List Item}
    (h : stack read inline items = .ok out) : out.length ≤ items.length + inline.length := by
  fun_induction stack read inline items generalizing out with
  | case1 inline items notTaken =>
    cases h
    simp
  | case2 inline items bar others taken empty ih =>
    have fewer := length_beside_lt taken
    have le := ih h
    rw [List.length_append, List.length_singleton] at le
    omega
  | case3 inline items bar others taken notEmpty oneSided ih =>
    have fewer := length_dropped_lt taken
    have le := ih h
    omega
  | case4 inline items bar others taken notEmpty twoSided ih =>
    cases readUpper : read (above bar others) with
    | error => rw [readUpper] at h; cases h
    | ok numerator =>
      cases readLower : read (below bar others) with
      | error => rw [readUpper, readLower] at h; cases h
      | ok denominator =>
        rw [readUpper, readLower] at h
        have fewer := length_built_lt taken twoSided (.stacked numerator denominator)
        have le := ih numerator denominator h
        omega

end PenMath.Region
