import PenMath.Formula.Parsed

/-!
# Requests to a solver

What a formula asks for, as text the solver reads: the value of an expression, the execution of a
statement, the roots of a difference, or the record of a constant or a function.

A declaration's left side is a name, or a name with one letter in parentheses. The name may have
been cut into single letters, which are joined again.
-/

namespace PenMath

/-! ## Declarations -/

/-- A named constant or function of one parameter. -/
inductive Declaration where
  | constant (name body : String) (dependencies : NameSet)
  | function (name parameter body : String) (dependencies : NameSet)
deriving DecidableEq

namespace Declaration

/-- The name declared. -/
def name : Declaration → String
  | constant name _ _ | function name _ _ _ => name

/-- The text the name stands for. -/
def body : Declaration → String
  | constant _ body _ | function _ _ body _ => body

/-- The parameter of a function. -/
def parameter? : Declaration → Option String
  | constant .. => none
  | function _ parameter _ _ => some parameter

/-- The names the body reads, apart from the name declared and the parameter. -/
def dependencies : Declaration → NameSet
  | constant _ _ dependencies | function _ _ _ dependencies => dependencies

/-- Whether a function is declared. -/
def isFunction (d : Declaration) : Bool := d.parameter?.isSome

/-- A declaration as an equation. -/
def text : Declaration → String
  | constant name body _ => name ++ "=" ++ body
  | function name parameter body _ => name ++ "(" ++ parameter ++ ")=" ++ body

end Declaration

/-! ## The left side of a declaration -/

/-- The text of an entry that is a letter run without exponent. -/
def Node.word? : Node → Option String
  | .run r none => if r.kind = .letter then some r.text else none
  | _ => none

/-- What is declared: a name, and the parameter if it is a function. -/
structure Signature where
  name : String
  parameter? : Option String
deriving DecidableEq

namespace Signature

/-- The parameter in what follows a name: none in nothing, a letter between parentheses. -/
def parameterOf? : Expression → Option (Option String)
  | [] => some none
  | [opening, letter, closing] =>
    if opening.isSymbol '(' && closing.isSymbol ')' then
      match letter.word? with
      | some word => if word.toList.length = 1 then some (some word) else none
      | none => none
    else none
  | _ => none

/-- The signature that a left side is, if it is one. -/
def ofLeft? (left : Expression) : Option Signature :=
  let named := left.takeWhile (·.word?.isSome)
  if named.isEmpty then none
  else (parameterOf? (left.dropWhile (·.word?.isSome))).map fun parameter? =>
    ⟨String.join (named.filterMap Node.word?), parameter?⟩

/-- The declaration of this signature with a right side. -/
def declare (s : Signature) (right : Expression) : Declaration :=
  let dependencies := (Expression.names right).erase s.name
  match s.parameter? with
  | none => .constant s.name (Expression.text right) dependencies
  | some parameter =>
    .function s.name parameter (Expression.text right) (dependencies.erase parameter)

end Signature

/-- The declaration that an equation is. -/
def Declaration.ofEquation (left right : Expression) : Except Fault Declaration :=
  if right.isEmpty then .error (.invalidDeclaration (Expression.text left))
  else
    match Signature.ofLeft? left with
    | some signature => .ok (signature.declare right)
    | none => .error (.invalidDeclaration (Expression.text left))

/-! ## Requests -/

/-- Work for the solver. -/
inductive Request where
  /-- Find the value of an expression. -/
  | evaluate (expression : String)
  /-- Run a statement. -/
  | execute (statement : String)
  /-- Record a constant or a function. -/
  | declare (declaration : Declaration)
  /-- Find where the residual is zero. -/
  | solve (unknown residual : String)
deriving DecidableEq

namespace Request

/-- The name that equations are solved for. -/
def unknown : String := "X"

/-- A request in one line. -/
def text : Request → String
  | evaluate expression => "eval " ++ expression
  | execute statement => "exec " ++ statement
  | declare declaration => "declare " ++ declaration.text
  | solve unknown residual => "solve " ++ residual ++ "=0 for " ++ unknown

/-- The request to evaluate an expression, which must not be empty. -/
def ofExpression (e : Expression) : Except Fault Request :=
  if e.isEmpty then .error .emptyFormula else .ok (evaluate (Expression.text e))

/-- What is zero where an equation holds: its left side less its right side, if there is one. -/
def residual (left right : Expression) : String :=
  if right.isEmpty then Expression.text left
  else String.ofList (Expression.chars left ++ '-' :: parenthesized (Expression.chars right))

/-- What a formula asks for in a mode. -/
def ofParsed (mode : Mode) : Parsed → Except Fault Request
  | .expression e =>
    match mode with
    | .eval => ofExpression e
    | .declare | .solve => .error (.equationNeeded mode)
  | .equation left right =>
    match mode with
    | .eval =>
      if right.isEmpty then ofExpression left
      else .ok (execute (Parsed.text (.equation left right)))
    | .declare => (Declaration.ofEquation left right).map declare
    | .solve => .ok (solve unknown (residual left right))

end Request

end PenMath
