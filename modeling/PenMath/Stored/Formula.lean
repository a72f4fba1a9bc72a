import PenMath.Session.Basic
import PenMath.Stored.Glyph

/-!
# Stored formulas

A formula is stored as its mode and its glyphs, and a recording is a list of formulas, which is
added to a session as a whole or not at all. The constants of the parser are stored as a record;
what is left out of it keeps its standard value.
-/

namespace PenMath

open Json

namespace Thresholds

/-- Thresholds to be stored. -/
def stored (t : Thresholds) : Value :=
  .record [("equals_width_tolerance", .coord t.equalsWidthTolerance),
    ("fraction_drop_ratio", .coord t.fractionDropRatio),
    ("max_exponent_depth", .natural t.maxExponentDepth)]

/-- The fields of thresholds. -/
def fields : Fields (Option Coord × Option Coord × Option Nat) :=
  (Fields.singleOrEnd "equals_width_tolerance" Reader.coord).both
    ((Fields.singleOrEnd "fraction_drop_ratio" Reader.coord).both
      (.singleOrEnd "max_exponent_depth" Reader.natural))

/-- Reads thresholds. -/
def ofStored : Reader Thresholds := fields.read fun (tolerance, ratio, depth) =>
  .ok {
    equalsWidthTolerance := tolerance.getD standard.equalsWidthTolerance
    fractionDropRatio := ratio.getD standard.fractionDropRatio
    maxExponentDepth := depth.getD standard.maxExponentDepth }

end Thresholds

namespace Mode

/-- A mode to be stored. -/
def stored (m : Mode) : Value := .text m.name

/-- Reads a mode. -/
def ofStored : Reader Mode := .choice (all.map fun m => (m.name, m))

end Mode

namespace Formula

/-- A formula to be stored. -/
def stored (f : Formula) : Value :=
  .record [("mode", f.mode.stored), ("boxes", .list (f.glyphs.map Glyph.stored))]

/-- The fields of a formula. -/
def fields : Fields (Option Mode × Option (List Glyph)) :=
  (Fields.single "mode" Mode.ofStored).both (.single "boxes" (Reader.list Glyph.ofStored))

/-- Reads a formula. -/
def ofStored : Reader Formula := fields.read fun (mode, glyphs) => do
  return ⟨← required mode, ← required glyphs⟩

/-- Reads a recording. -/
def recording (text : String) : Except Flaw (List Formula) := (Reader.list ofStored).readText text

end Formula

/-! ## Loading a recording -/

/-- Why a recording is not loaded. -/
inductive LoadFault where
  /-- There is no such text. -/
  | unreadable
  /-- The text is no recording. -/
  | flawed (flaw : Json.Flaw)
deriving DecidableEq

/-- The formulas of a recording, given its text if there is one. -/
def loadFormulas : Option String → Except LoadFault (List Formula)
  | none => .error .unreadable
  | some text => (Formula.recording text).mapError .flawed

/-- The thresholds that a text gives. -/
def loadThresholds (text : String) : Except Json.Flaw Thresholds :=
  Thresholds.ofStored.readText text

/-- Adds all formulas of a recording to a session, and gives their indices. -/
def Session.load (s : Session) (text : Option String) : Session × Except LoadFault (List Nat) :=
  match loadFormulas text with
  | .ok formulas => ((s.addAll formulas).1, .ok (s.addAll formulas).2)
  | .error fault => (s, .error fault)

end PenMath
