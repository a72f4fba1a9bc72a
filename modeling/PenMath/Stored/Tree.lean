import PenMath.Formula.Parsed
import PenMath.Stored.Glyph

/-!
# Stored trees

Runs and fractions are stored with all they hold. Their kinds and rectangles are read as they stand,
and a missing exponent is none. An expression inside an expression stands in four more containers,
so the limit on containers also limits how many expressions can be read inside each other.
-/

namespace PenMath

open Json

/-! ## Writing -/

/-- The record of an expression with these entries. -/
def Expression.record (entries : List Value) : Value := .record [("base", .list entries)]

/-- The record of a run with this exponent. -/
def Run.record (r : Run) (power : Value) : Value :=
  .record [("members", .list (r.members.map Glyph.stored)), ("kind", r.kind.stored),
    ("rect", r.rect.stored), ("power", power)]

/-- The record of a fraction with these entries above and below its bar. -/
def Fraction.record (numerator denominator : List Value) (rect : Rect) (power : Value) : Value :=
  .record [("numerator", Expression.record numerator),
    ("denominator", Expression.record denominator), ("rect", rect.stored), ("power", power)]

mutual

/-- An entry to be stored. -/
def Node.stored : Node → Value
  | .run r power => .record [("Group", r.record (storedPower power))]
  | .fraction n d rect power =>
    .record [("Fraction",
      Fraction.record (storedBase n) (storedBase d) rect (storedPower power))]

/-- The entries of a base line to be stored. -/
def storedBase : List Node → List Value
  | [] => []
  | node :: rest => node.stored :: storedBase rest

/-- An exponent to be stored. -/
def storedPower : Option (List Node) → Value
  | none => .null
  | some p => Expression.record (storedBase p)

end

/-- An expression to be stored. -/
def Expression.stored (e : Expression) : Value := record (storedBase e)

/-- A run with its exponent to be stored. -/
def Run.stored (r : Run) (power : Option Expression) : Value := r.record (storedPower power)

/-- A fraction to be stored. -/
def Fraction.stored (f : Fraction) : Value :=
  record (storedBase f.numerator) (storedBase f.denominator) f.rect (storedPower f.power)

/-- A formula that has been read, to be stored. -/
def Parsed.stored : Parsed → Value
  | expression e => .record [("Expression", Expression.stored e)]
  | equation left right =>
    .record [("Equation",
      .record [("left", Expression.stored left), ("right", Expression.stored right)])]

/-! ## Reading -/

namespace Run

/-- The fields of a run with its exponent. -/
def fields (expression : Reader Expression) :
    Fields (Option (List Glyph) × Option Kind × Option Rect × Option (Option Expression)) :=
  (Fields.single "members" (Reader.list Glyph.ofStored)).both
    ((Fields.single "kind" Kind.ofStored).both
      ((Fields.single "rect" Rect.ofStored).both (.single "power" (Reader.option expression))))

/-- Reads a run with its exponent. -/
def ofStored (expression : Reader Expression) : Reader (Run × Option Expression) :=
  (fields expression).read fun (members, kind, rect, power) => do
    return (⟨← required members, ← required kind, ← required rect⟩, power.join)

end Run

namespace Fraction

/-- The fields of a fraction. -/
def fields (expression : Reader Expression) :
    Fields (Option Expression × Option Expression × Option Rect × Option (Option Expression)) :=
  (Fields.single "numerator" expression).both
    ((Fields.single "denominator" expression).both
      ((Fields.single "rect" Rect.ofStored).both (.single "power" (Reader.option expression))))

/-- Reads a fraction. -/
def ofStored (expression : Reader Expression) : Reader Fraction :=
  (fields expression).read fun (numerator, denominator, rect, power) => do
    return ⟨← required numerator, ← required denominator, ← required rect, power.join⟩

end Fraction

/-- Reads an entry of a base line. -/
def Node.ofStored (expression : Reader Expression) : Reader Node :=
  .variant [("Group", fun document => do
      let (r, power) ← Run.ofStored expression document
      return .run r power),
    ("Fraction", fun document => (Fraction.ofStored expression document).map Fraction.toNode)]

namespace Expression

/-- Reads an expression with at most this many expressions inside each other. -/
def ofStoredWithin : Nat → Reader Expression
  | 0 => fun _ => .error .malformed
  | n + 1 =>
    (Fields.single "base" (Reader.list (Node.ofStored (ofStoredWithin n)))).read required

/-- How many expressions fit inside each other in a document. -/
def mostInside : Nat := 32

/-- Reads an expression. -/
def ofStored : Reader Expression := ofStoredWithin mostInside

end Expression

namespace Parsed

/-- The fields of an equation. -/
def fields : Fields (Option Expression × Option Expression) :=
  (Fields.single "left" Expression.ofStored).both (.single "right" Expression.ofStored)

/-- Reads a formula that has been read before. -/
def ofStored : Reader Parsed :=
  .variant [("Expression", fun document => (Expression.ofStored document).map expression),
    ("Equation", fields.read fun (left, right) => do
      return equation (← required left) (← required right))]

end Parsed

end PenMath
