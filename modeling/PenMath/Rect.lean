import PenMath.Coord

/-!
# Rectangles

A rectangle with sides along the axes, held by its center and its size. The y axis points down, so
the top is the smaller y and "above" means a smaller y. Sizes are never negative and always numbers:
the two proof fields say so, and `make` keeps them by cutting every other size down to zero.
-/

namespace PenMath

/-- A rectangle given by its center and its size. -/
structure Rect where
  x : Coord
  y : Coord
  width : Coord
  height : Coord
  width_nonneg : 0 ≤ width
  height_nonneg : 0 ≤ height
deriving DecidableEq

namespace Rect

/-- The rectangle with this center and size; a size that is not above zero is zero. -/
def make (x y width height : Coord) : Rect where
  x := x
  y := y
  width := width.toSize
  height := height.toSize
  width_nonneg := width.zero_le_toSize
  height_nonneg := height.zero_le_toSize

/-- The empty rectangle at the origin. -/
def zero : Rect := make 0 0 0 0

instance : Inhabited Rect := ⟨zero⟩

/-- The rectangle between two opposite corners, given in any order. -/
def ofCorners (x₁ y₁ x₂ y₂ : Coord) : Rect :=
  let left := Coord.min x₁ x₂
  let right := Coord.max x₁ x₂
  let top := Coord.min y₁ y₂
  let bottom := Coord.max y₁ y₂
  make (left + right).half (top + bottom).half (right - left) (bottom - top)

/-- The x of the left side. -/
def left (r : Rect) : Coord := r.x - r.width.half

/-- The x of the right side. -/
def right (r : Rect) : Coord := r.x + r.width.half

/-- The y of the upper side, the smaller one. -/
def top (r : Rect) : Coord := r.y - r.height.half

/-- The y of the lower side. -/
def bottom (r : Rect) : Coord := r.y + r.height.half

/-- The smallest rectangle that covers both. -/
def union (r s : Rect) : Rect :=
  ofCorners (Coord.min r.left s.left) (Coord.min r.top s.top)
    (Coord.max r.right s.right) (Coord.max r.bottom s.bottom)

/-- The rectangle around a sequence, each in turn joined to the union so far. -/
def bounding? : List Rect → Option Rect
  | [] => none
  | r :: rest => some (rest.foldl union r)

/-- Whether the projections on the x axis overlap; touching ones do not. -/
def overlapsAcross (r s : Rect) : Bool := (r.x - s.x).abs.twice < r.width + s.width

/-- Whether the projections on the y axis overlap; touching ones do not. -/
def overlapsDown (r s : Rect) : Bool := (r.y - s.y).abs.twice < r.height + s.height

/-- Whether the rectangles overlap on both axes. -/
def intersects (r s : Rect) : Bool := r.overlapsAcross s && r.overlapsDown s

/-- Whether the x projection of the second lies within that of the first. -/
def spans (r s : Rect) : Bool := r.left ≤ s.left && s.right ≤ r.right

theorem width_isNaN (r : Rect) : r.width.isNaN = false := Coord.isNaN_of_zero_le r.width_nonneg

theorem height_isNaN (r : Rect) : r.height.isNaN = false := Coord.isNaN_of_zero_le r.height_nonneg

@[simp] theorem bounding?_nil : bounding? [] = none := rfl

@[simp] theorem bounding?_cons (r : Rect) (rest : List Rect) :
    bounding? (r :: rest) = some (rest.foldl union r) := rfl

end Rect

end PenMath
