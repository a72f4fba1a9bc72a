import PenMath.Region.Stack

/-!
# The base line of a region

The items of a region are read from left to right. Glyphs of one kind join into runs. An item that
lies entirely above the entry read last is part of its exponent; the items of an exponent are
collected until the line comes down again and are then read as a region of their own.

How an exponent is read is a parameter, and `scan_congr` says that only regions shorter than the
line are ever asked for.

Sorting is by insertion of every element before the first one that has a key at least as large, so
items with equal keys keep their order.
-/

namespace PenMath

/-! ## Sorting by an integer key -/

section

variable {α : Type}

/-- Insertion before the first element whose key is at least as large. -/
def insertByKey (key : α → Int) (a : α) : List α → List α
  | [] => [a]
  | b :: rest => if key a ≤ key b then a :: b :: rest else b :: insertByKey key a rest

/-- The elements by ascending key; equal keys keep their order. -/
def sortByKey (key : α → Int) (l : List α) : List α := l.foldr (insertByKey key) []

@[simp] theorem sortByKey_nil (key : α → Int) : sortByKey key [] = [] := rfl

@[simp] theorem sortByKey_cons (key : α → Int) (a : α) (l : List α) :
    sortByKey key (a :: l) = insertByKey key a (sortByKey key l) := rfl

/-- An element is put somewhere into a list. -/
theorem insertByKey_perm (key : α → Int) (a : α) (l : List α) :
    (insertByKey key a l).Perm (a :: l) := by
  induction l with
  | nil => exact .refl _
  | cons b rest ih =>
    rw [insertByKey]
    split
    · exact .refl _
    · exact (ih.cons b).trans (.swap ..)

/-- Sorting loses and adds nothing. -/
theorem sortByKey_perm (key : α → Int) (l : List α) : (sortByKey key l).Perm l := by
  induction l with
  | nil => exact .refl _
  | cons a rest ih => exact (insertByKey_perm key a _).trans (ih.cons a)

@[simp] theorem length_sortByKey (key : α → Int) (l : List α) :
    (sortByKey key l).length = l.length := (sortByKey_perm key l).length_eq

end

/-! ## Entries of a base line -/

namespace Region

/-- Whether an item belongs to the exponent of an entry; operators carry none. -/
def takesAsPower (base : Node) (item : Item) : Bool :=
  base.kind ≠ .operator && item.rect.bottom ≤ base.rect.top

/-- The entry with the exponent that these items are, if there are any. -/
def attach (read : Reader) (base : Node) (power : List Item) : Except Fault Node :=
  if power.isEmpty then .ok base else (read power).map base.withPower

/-- The entry grown by an item, if the item continues it. -/
def join? (base : Node) : Item → Option Node
  | .glyph g => if base.accepts g then some (base.append g) else none
  | .fraction _ => none

/-- The entries from the current one on; `power` holds the items of its exponent met so far, and no
exponent may begin where `deepest` holds. -/
def scan (read : Reader) (deepest : Bool) :
    Node → List Item → List Item → Except Fault (List Node)
  | current, power, [] => do
    let last ← attach read current power
    return [last]
  | current, power, item :: rest =>
    if takesAsPower current item then
      if deepest then .error .nestedExponent
      else scan read deepest current (power ++ [item]) rest
    else if power.isEmpty then
      match join? current item with
      | some grown => scan read deepest grown [] rest
      | none => do
        let following ← scan read deepest item.toNode [] rest
        return current :: following
    else do
      let closed ← attach read current power
      let following ← scan read deepest item.toNode [] rest
      return closed :: following

/-- The items from left to right; of items with one center the earlier stays first. -/
def leftToRight (items : List Item) : List Item := sortByKey (·.rect.x.place) items

/-- The entries of a base line. -/
def line (read : Reader) (deepest : Bool) (items : List Item) : Except Fault (List Node) :=
  match leftToRight items with
  | [] => .ok []
  | first :: rest => scan read deepest first.toNode [] rest

/-! ## One item

What a scan does with an item is settled by the current entry and by the part of its exponent met so
far. The scan is opened here once, in three equations, and later proofs go by these.
-/

section

variable {read : Reader} {deepest : Bool} {current grown : Node} {item : Item}
  {power rest : List Item}

/-- An item above the current entry goes into its exponent, where one is allowed. -/
theorem scan_of_raised (raised : takesAsPower current item = true) :
    scan read deepest current power (item :: rest) =
      if deepest then .error .nestedExponent
      else scan read deepest current (power ++ [item]) rest := by
  rw [scan, if_pos raised]

/-- A glyph that continues the current entry grows it, unless the exponent has begun. -/
theorem scan_of_joined (level : takesAsPower current item = false)
    (joined : join? current item = some grown) :
    scan read deepest current [] (item :: rest) = scan read deepest grown [] rest := by
  rw [scan, level, if_neg Bool.false_ne_true, joined]
  rfl

/-- An item that starts the next entry closes the current one. -/
theorem scan_of_apart (level : takesAsPower current item = false)
    (apart : power ≠ [] ∨ join? current item = none) :
    scan read deepest current power (item :: rest) = (do
      let closed ← attach read current power
      let following ← scan read deepest item.toNode [] rest
      return closed :: following) := by
  rw [scan, level, if_neg Bool.false_ne_true]
  cases power with
  | nil =>
    rw [apart.resolve_left (fun some => some rfl)]
    rfl
  | cons => rfl

/-- An item starts the next entry or continues the current one. -/
theorem apart_or_joined (current : Node) (power : List Item) (item : Item) :
    (power ≠ [] ∨ join? current item = none) ∨
      power = [] ∧ ∃ grown, join? current item = some grown := by
  cases power with
  | nil =>
    cases joined : join? current item with
    | none => exact .inl (.inr rfl)
    | some grown => exact .inr ⟨rfl, grown, rfl⟩
  | cons first others => exact .inl (.inl (List.cons_ne_nil first others))

end

/-! ## Whole lines -/

theorem attach_congr {read read' : Reader} (base : Node) {power : List Item}
    (agree : read power = read' power) : attach read base power = attach read' base power := by
  rw [attach, attach, agree]

/-- Only regions shorter than the line are read. -/
theorem scan_congr {read read' : Reader} {n : Nat}
    (agree : ∀ l : List Item, l.length < n → read l = read' l) (deepest : Bool) (current : Node)
    (power rest : List Item) (short : power.length + rest.length < n) :
    scan read deepest current power rest = scan read' deepest current power rest := by
  induction rest generalizing current power with
  | nil =>
    rw [scan, scan, attach_congr current (agree power (by simpa using short))]
  | cons item rest ih =>
    rw [List.length_cons] at short
    have onward : ∀ base, scan read deepest base [] rest = scan read' deepest base [] rest :=
      fun base => ih base [] (by rw [List.length_nil]; omega)
    cases level : takesAsPower current item with
    | true =>
      have shortPower : (power ++ [item]).length + rest.length < n := by
        rw [List.length_append, List.length_singleton]
        omega
      rw [scan_of_raised level, scan_of_raised level, ih current (power ++ [item]) shortPower]
    | false =>
      rcases apart_or_joined current power item with apart | ⟨rfl, grown, joined⟩
      · rw [scan_of_apart level apart, scan_of_apart level apart, onward,
          attach_congr current (agree power (by omega))]
      · rw [scan_of_joined level joined, scan_of_joined level joined, onward]

/-- Only regions shorter than the line are read. -/
theorem line_congr {read read' : Reader} {n : Nat}
    (agree : ∀ l : List Item, l.length < n → read l = read' l) (deepest : Bool)
    (items : List Item) (short : items.length ≤ n) :
    line read deepest items = line read' deepest items := by
  unfold line
  split
  · rfl
  next first rest sorted =>
    have count := length_sortByKey (·.rect.x.place) items
    rw [← leftToRight, sorted, List.length_cons] at count
    exact scan_congr agree deepest _ [] rest (by rw [List.length_nil]; omega)

end Region

end PenMath
