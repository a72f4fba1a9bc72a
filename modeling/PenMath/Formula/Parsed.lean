import PenMath.Region.Parse
import PenMath.Relabel
import PenMath.Tree.Linear

/-!
# Reading a formula

The glyphs of a formula have their labels corrected first. What contains an "=" is an equation and
is cut at its only one; every side is then read as a region. Which side a glyph is on follows from
where it was drawn, not from when. Formulas to be declared or solved must be equations.
-/

namespace PenMath

/-- The glyphs left of the only "=" and the ones that are not. -/
def splitAtEquals (glyphs : List Glyph) : Except Fault (List Glyph × List Glyph) :=
  match glyphs.filter (·.label = '=') with
  | [equals] =>
    let others := glyphs.filter (·.label ≠ '=')
    let left := others.filter (·.rect.x < equals.rect.x)
    let right := others.filter (¬·.rect.x < equals.rect.x)
    if left.isEmpty then .error .leftSideMissing else .ok (left, right)
  | found => .error (.equalsCount found.length)

/-- A formula that has been read. -/
inductive Parsed where
  | expression (expression : Expression)
  | equation (left right : Expression)
deriving DecidableEq

namespace Parsed

/-- The linear text of an equation. -/
def equationChars (left right : Expression) : List Char :=
  Expression.chars left ++ '=' :: Expression.chars right

/-- The linear text. -/
def text : Parsed → String
  | expression e => Expression.text e
  | equation left right => String.ofList (equationChars left right)

end Parsed

/-- Names by descending length in bytes; names of one length keep their order. -/
def longestFirst (names : List String) : List String :=
  sortByKey (fun name => -(name.utf8ByteSize : Int)) names

/-- How regions are read with these thresholds and these known names. -/
def Region.Setting.of (t : Thresholds) (names : List String) : Region.Setting :=
  ⟨longestFirst names, t.maxExponentDepth⟩

/-- Glyphs read as a region. -/
def parseSide (t : Thresholds) (names : List String) (glyphs : List Glyph) :
    Except Fault Expression :=
  Region.parse (.of t names) 0 (glyphs.map .glyph)

/-- Glyphs with corrected labels read as an expression, whatever they are. -/
def parseExpression (t : Thresholds) (names : List String) (glyphs : List Glyph) :
    Except Fault Expression :=
  parseSide t names (Relabel.settle t glyphs)

/-- Glyphs whose labels are settled read as a formula. -/
def parseSettled (t : Thresholds) (mode : Mode) (names : List String) (glyphs : List Glyph) :
    Except Fault Parsed :=
  if !glyphs.any (·.label = '=') && !mode.needsEquation then
    (parseSide t names glyphs).map .expression
  else if glyphs.isEmpty then .error .noSymbols
  else do
    let (left, right) ← splitAtEquals glyphs
    let left ← parseSide t names left
    let right ← parseSide t names right
    return .equation left right

/-- The formula that these glyphs are, drawn in this order. -/
def parseFormula (t : Thresholds) (mode : Mode) (names : List String) (glyphs : List Glyph) :
    Except Fault Parsed :=
  parseSettled t mode names (Relabel.settle t glyphs)

end PenMath
