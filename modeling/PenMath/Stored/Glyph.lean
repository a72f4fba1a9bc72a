import PenMath.Glyph
import PenMath.Json.Record
import PenMath.Json.Value

/-!
# Stored glyphs

A rectangle is stored by its center and its size. A number that is not finite is a flaw, judged once
the whole rectangle has been read; a negative size becomes zero.

A glyph is stored as its label and its rectangle. Whether the label is a symbol is judged once the
whole glyph has been read, so a bad rectangle is found first.
-/

namespace PenMath

open Json

namespace Rect

/-- A rectangle to be stored. -/
def stored (r : Rect) : Value :=
  .record [("center", .record [("x", .coord r.x), ("y", .coord r.y)]), ("width", .coord r.width),
    ("height", .coord r.height)]

/-- The fields of a point. -/
def pointFields : Fields (Option Coord × Option Coord) :=
  (Fields.single "x" Reader.coord).both (.single "y" Reader.coord)

/-- Reads a point. -/
def pointOfStored : Reader (Coord × Coord) := pointFields.read fun (x, y) => do
  return (← required x, ← required y)

/-- The rectangle with these numbers, if all are finite. -/
def ofFinite (x y width height : Coord) : Except Flaw Rect :=
  if x.isFinite && y.isFinite && width.isFinite && height.isFinite then
    .ok (make x y width height)
  else .error (.notFinite x y width height)

/-- The fields of a rectangle. -/
def fields : Fields (Option (Coord × Coord) × Option Coord × Option Coord) :=
  (Fields.single "center" pointOfStored).both
    ((Fields.single "width" Reader.coord).both (.single "height" Reader.coord))

/-- Reads a rectangle. -/
def ofStored : Reader Rect := fields.read fun (center, width, height) => do
  let (x, y) ← required center
  ofFinite x y (← required width) (← required height)

end Rect

namespace Kind

/-- The name under which a kind is stored. -/
def name : Kind → String
  | digit => "Digit"
  | letter => "Letter"
  | operator => "MathOperator"
  | parenthesis => "Parenthesis"
  | fraction => "Fraction"

/-- All kinds. -/
def all : List Kind := [digit, letter, operator, parenthesis, fraction]

/-- A kind to be stored. -/
def stored (k : Kind) : Value := .text k.name

/-- Reads a kind. -/
def ofStored : Reader Kind := .choice (all.map fun k => (k.name, k))

end Kind

namespace Glyph

/-- A glyph to be stored. -/
def stored (g : Glyph) : Value :=
  .record [("label", .text (.singleton g.label)), ("rect", g.rect.stored)]

/-- The glyph with this label, if the label is a symbol. -/
def ofLabel (label : Char) (rect : Rect) : Except Flaw Glyph :=
  (make label rect).mapError fun _ => .unknownSymbol label

/-- The fields of a glyph. -/
def fields : Fields (Option Char × Option Rect) :=
  (Fields.single "label" Reader.char).both (.single "rect" Rect.ofStored)

/-- Reads a glyph. -/
def ofStored : Reader Glyph := fields.read fun (label, rect) => do
  ofLabel (← required label) (← required rect)

end Glyph

end PenMath
