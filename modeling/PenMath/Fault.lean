import PenMath.Text.Quoted

/-!
# Modes and faults

What a formula is written for, and everything that can be wrong with a formula or with a step of a
session: one constructor for each cause. The wording is in `message`, and nowhere else.
-/

namespace PenMath

/-- What a formula is written for. -/
inductive Mode where
  /-- To be evaluated; an "=" at its end is allowed. -/
  | eval
  /-- To declare a constant or a function. -/
  | declare
  /-- To be solved for its unknown. -/
  | solve
deriving DecidableEq, Inhabited

namespace Mode

/-- Whether formulas of this mode must be equations. -/
def needsEquation : Mode → Bool
  | eval => false
  | declare | solve => true

/-- The name under which messages and stored formulas know a mode. -/
def name : Mode → String
  | eval => "Eval"
  | declare => "Declare"
  | solve => "Solve"

/-- All modes. -/
def all : List Mode := [eval, declare, solve]

end Mode

/-! ## Faults -/

/-- Why a formula or a step is rejected. -/
inductive Fault where
  /-- A label is no symbol. -/
  | unknownSymbol (label : Char)
  /-- A formula that must be an equation has no symbols. -/
  | noSymbols
  /-- The number of "=" is not one. -/
  | equalsCount (found : Nat)
  /-- No symbol is left of the "=". -/
  | leftSideMissing
  /-- The mode asks for an equation and there is none. -/
  | equationNeeded (mode : Mode)
  /-- An exponent stands deeper inside other exponents than allowed. -/
  | nestedExponent
  /-- The left side of a declaration is neither a name nor a function with its parameter, or nothing
  is on the right. -/
  | invalidDeclaration (leftSide : String)
  /-- The name declared is that of a function that is always known. -/
  | builtinDeclared (name : String)
  /-- A correction by hand does not give one label for each symbol. -/
  | labelCount (expected found : Nat)
  /-- The step needs at least one symbol. -/
  | emptyFormula
  /-- No formula has this index. -/
  | unknownFormula (index : Nat)
deriving DecidableEq

namespace Fault

/-- What is said about a formula that is no proper equation. -/
def malformedEquation (detail : String) : String := "Malformed equation: " ++ detail

/-- What is said about a declaration that cannot be made. -/
def improperDeclaration (detail : String) : String := "Invalid declaration: " ++ detail

/-- The text of a fault. -/
def message : Fault → String
  | unknownSymbol label => "Unknown symbol: " ++ Text.quoted label
  | noSymbols => malformedEquation "empty formula"
  | equalsCount found =>
    malformedEquation ("expected exactly one '=', found " ++ toString found)
  | leftSideMissing => malformedEquation "nothing on the left of '='"
  | equationNeeded mode => malformedEquation (mode.name ++ " mode needs an equation")
  | nestedExponent => "Nested exponents are not supported"
  | invalidDeclaration leftSide => improperDeclaration leftSide
  | builtinDeclared name => improperDeclaration (name ++ " is a built-in function")
  | labelCount expected found =>
    "Expected " ++ toString expected ++ " labels, got " ++ toString found
  | emptyFormula => "Formula has no symbols"
  | unknownFormula index => "No formula at index " ++ toString index

end Fault

end PenMath
