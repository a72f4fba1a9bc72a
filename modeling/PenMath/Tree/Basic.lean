import PenMath.Glyph

/-!
# Expression trees

An expression is a base line: entries from left to right. An entry is a run of glyphs that is read
as one token, or a fraction with an expression above and one below its bar; either may carry an
exponent, which is an expression again. Entries keep the rectangle they cover.
-/

namespace PenMath

/-! ## Runs -/

/-- Adjacent glyphs read as one token. -/
structure Run where
  members : List Glyph
  kind : Kind
  rect : Rect
deriving DecidableEq

namespace Run

/-- The run of a single glyph. -/
def single (g : Glyph) : Run := ⟨[g], g.kind, g.rect⟩

/-- The run of a list of glyphs: the kind of the first and the rectangle around all. -/
def ofMembers? : List Glyph → Option Run
  | [] => none
  | g :: rest => some ⟨g :: rest, g.kind, (rest.map (·.rect)).foldl Rect.union g.rect⟩

/-- The run with one more glyph at its end. -/
def append (r : Run) (g : Glyph) : Run := ⟨r.members ++ [g], r.kind, r.rect.union g.rect⟩

/-- Whether a glyph continues the run: runs of digits and of letters grow, and keep their kind. -/
def accepts (r : Run) (g : Glyph) : Bool := r.kind.merges && g.kind = r.kind

/-- The labels in order. -/
def chars (r : Run) : List Char := r.members.map (·.label)

/-- The labels in order, as text. -/
def text (r : Run) : String := String.ofList r.chars

/-- Whether a run is exactly one glyph with this label. -/
def isSymbol (r : Run) (label : Char) : Bool := r.chars = [label]

end Run

/-! ## Entries and expressions -/

/-- An entry of a base line. -/
inductive Node where
  /-- A token with its exponent. -/
  | run (run : Run) (power : Option (List Node))
  /-- A fraction with the rectangle it covers and its exponent. -/
  | fraction (numerator denominator : List Node) (rect : Rect) (power : Option (List Node))

/-- The entries of a base line, from left to right. -/
abbrev Expression := List Node

namespace Node

/-- The kind of an entry. -/
def kind : Node → Kind
  | run r _ => r.kind
  | fraction .. => .fraction

/-- The rectangle an entry covers, its exponent left out. -/
def rect : Node → Rect
  | run r _ => r.rect
  | fraction _ _ rect _ => rect

/-- The exponent. -/
def power : Node → Option Expression
  | run _ power => power
  | fraction _ _ _ power => power

/-- The entry with another exponent. -/
def withPower : Node → Expression → Node
  | run r _, power => run r (some power)
  | fraction n d rect _, power => fraction n d rect (some power)

/-- Whether an entry is exactly one glyph with this label. -/
def isSymbol : Node → Char → Bool
  | run r _, label => r.isSymbol label
  | fraction .., _ => false

/-- Whether a glyph continues the entry; an exponent closes it. -/
def accepts : Node → Glyph → Bool
  | run r none, g => r.accepts g
  | _, _ => false

/-- The entry with one more glyph; a fraction stays as it is. -/
def append : Node → Glyph → Node
  | run r power, g => run (r.append g) power
  | node, _ => node

@[simp] theorem kind_run (r : Run) (power : Option Expression) : (run r power).kind = r.kind := rfl

@[simp] theorem rect_run (r : Run) (power : Option Expression) : (run r power).rect = r.rect := rfl

@[simp] theorem power_run (r : Run) (power : Option Expression) : (run r power).power = power := rfl

@[simp] theorem power_withPower (node : Node) (power : Expression) :
    (node.withPower power).power = some power := by
  cases node <;> rfl

@[simp] theorem rect_withPower (node : Node) (power : Expression) :
    (node.withPower power).rect = node.rect := by
  cases node <;> rfl

@[simp] theorem kind_withPower (node : Node) (power : Expression) :
    (node.withPower power).kind = node.kind := by
  cases node <;> rfl

end Node

/-! Equality of entries is decided entry by entry. -/

mutual

/-- Decides whether two entries are equal. -/
def decEqNode : (a b : Node) → Decidable (a = b)
  | .run r p, .run s q =>
    if runs : r = s then
      match decEqPower p q with
      | isTrue powers => isTrue (by rw [runs, powers])
      | isFalse powers => isFalse (by rintro ⟨⟩; exact powers rfl)
    else isFalse (by rintro ⟨⟩; exact runs rfl)
  | .fraction n d r p, .fraction m e s q =>
    if rects : r = s then
      match decEqBase n m, decEqBase d e, decEqPower p q with
      | isTrue above, isTrue below, isTrue powers => isTrue (by rw [above, below, rects, powers])
      | isFalse above, _, _ => isFalse (by rintro ⟨⟩; exact above rfl)
      | _, isFalse below, _ => isFalse (by rintro ⟨⟩; exact below rfl)
      | _, _, isFalse powers => isFalse (by rintro ⟨⟩; exact powers rfl)
    else isFalse (by rintro ⟨⟩; exact rects rfl)
  | .run .., .fraction .. => isFalse (by rintro ⟨⟩)
  | .fraction .., .run .. => isFalse (by rintro ⟨⟩)

/-- Decides whether two base lines are equal. -/
def decEqBase : (a b : List Node) → Decidable (a = b)
  | [], [] => isTrue rfl
  | [], _ :: _ => isFalse (by rintro ⟨⟩)
  | _ :: _, [] => isFalse (by rintro ⟨⟩)
  | a :: as, b :: bs =>
    match decEqNode a b, decEqBase as bs with
    | isTrue first, isTrue rest => isTrue (by rw [first, rest])
    | isFalse first, _ => isFalse (by rintro ⟨⟩; exact first rfl)
    | _, isFalse rest => isFalse (by rintro ⟨⟩; exact rest rfl)

/-- Decides whether two exponents are equal. -/
def decEqPower : (a b : Option (List Node)) → Decidable (a = b)
  | none, none => isTrue rfl
  | none, some _ => isFalse (by rintro ⟨⟩)
  | some _, none => isFalse (by rintro ⟨⟩)
  | some a, some b =>
    match decEqBase a b with
    | isTrue same => isTrue (by rw [same])
    | isFalse differ => isFalse (by rintro ⟨⟩; exact differ rfl)

end

instance : DecidableEq Node := decEqNode

/-- The rectangle around the entries of an expression, none if there are none. -/
def Expression.rect? (e : Expression) : Option Rect := Rect.bounding? (e.map Node.rect)

/-! ## Fractions -/

/-- An expression over another one, not yet an entry of a base line. -/
structure Fraction where
  numerator : Expression
  denominator : Expression
  rect : Rect
  power : Option Expression
deriving DecidableEq

namespace Fraction

/-- The rectangle around the two sides of a fraction; an empty side covers nothing. -/
def cover (numerator denominator : Expression) : Rect :=
  match Expression.rect? numerator, Expression.rect? denominator with
  | some above, some below => above.union below
  | some only, none => only
  | none, some only => only
  | none, none => .zero

/-- One expression over another, without exponent. -/
def stacked (numerator denominator : Expression) : Fraction :=
  ⟨numerator, denominator, cover numerator denominator, none⟩

/-- The entry that is this fraction. -/
def toNode (f : Fraction) : Node := .fraction f.numerator f.denominator f.rect f.power

end Fraction

/-! ## Items -/

/-- What a region holds before its base line is read: glyphs, and fractions already built. -/
inductive Item where
  | glyph (glyph : Glyph)
  | fraction (fraction : Fraction)
deriving DecidableEq

namespace Item

/-- The rectangle an item covers. -/
def rect : Item → Rect
  | glyph g => g.rect
  | fraction f => f.rect

/-- The entry that an item starts. -/
def toNode : Item → Node
  | glyph g => .run (.single g) none
  | fraction f => f.toNode

/-- The glyph, if an item is one and carries this label. -/
def glyphWith? : Item → Char → Option Glyph
  | glyph g, label => if g.label = label then some g else none
  | fraction _, _ => none

@[simp] theorem rect_toNode (item : Item) : item.toNode.rect = item.rect := by
  cases item <;> rfl

end Item

end PenMath
