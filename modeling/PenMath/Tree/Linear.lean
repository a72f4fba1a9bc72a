import Std.Data.ExtTreeSet
import PenMath.Tree.Basic

/-!
# Linear text of an expression, and the names in it

An expression as text that a solver can evaluate: "*" for a product that is written without a sign,
"**(...)" for an exponent, "(...)/(...)" for a fraction, and one more pair of parentheses around a
fraction that carries an exponent.

The names an expression reads are the texts of its letter runs, those inside fractions and exponents
included. They are a set, listed in the order of their characters' code points; two sets with the
same members are equal.
-/

namespace PenMath

namespace Node

/-- Whether a "*" stands between two neighbouring entries. -/
def needsTimes (left right : Node) : Bool :=
  match left.kind, right.kind with
  | .digit, .letter | .letter, .digit | .letter, .letter => true
  | .digit, .fraction | .letter, .fraction | .fraction, .fraction => true
  | .fraction, .digit | .fraction, .letter => true
  | .parenthesis, .parenthesis => left.isSymbol ')' && right.isSymbol '('
  -- an exponent ends the token on the left
  | _, .digit | _, .letter | _, .fraction => left.power.isSome
  | _, .parenthesis => left.power.isSome && right.isSymbol '('
  | _, .operator => false

/-- The sign between two neighbouring entries. -/
def times (left right : Node) : List Char := if needsTimes left right then ['*'] else []

end Node

/-- A text between parentheses. -/
def parenthesized (text : List Char) : List Char := '(' :: (text ++ [')'])

mutual

/-- The text of an entry. -/
def Node.chars : Node → List Char
  | .run r power => r.chars ++ powerChars power
  | .fraction n d _ none => parenthesized (baseChars n) ++ '/' :: parenthesized (baseChars d)
  | .fraction n d _ (some p) =>
    parenthesized (parenthesized (baseChars n) ++ '/' :: parenthesized (baseChars d)) ++
      '*' :: '*' :: parenthesized (baseChars p)

/-- The text of a base line. -/
def baseChars : List Node → List Char
  | [] => []
  | [node] => node.chars
  | node :: next :: rest => node.chars ++ (Node.times node next ++ baseChars (next :: rest))

/-- The text of an exponent. -/
def powerChars : Option (List Node) → List Char
  | none => []
  | some p => '*' :: '*' :: parenthesized (baseChars p)

end

namespace Expression

/-- The characters of the linear text. -/
def chars (e : Expression) : List Char := baseChars e

/-- The linear text. -/
def text (e : Expression) : String := String.ofList (chars e)

end Expression

/-! ## Sets of names -/

theorem mem_erase_iff {α : Type} [Ord α] [Std.TransOrd α] [Std.LawfulEqOrd α] {a b : α}
    {values : Std.ExtTreeSet α} : b ∈ values.erase a ↔ b ∈ values ∧ b ≠ a := by
  rw [Std.ExtTreeSet.mem_erase, Ne, Std.LawfulEqCmp.compare_eq_iff_eq, and_comm, eq_comm (a := a)]

/-- A finite set of names. -/
abbrev NameSet := Std.ExtTreeSet String

namespace NameSet

/-- The set of the names in a list. -/
def ofList (names : List String) : NameSet := Std.ExtTreeSet.ofList names compare

@[simp] theorem mem_ofList {names : List String} {name : String} :
    name ∈ ofList names ↔ name ∈ names := by
  simp [ofList]

/-- The set of the names that a set lists is the set. -/
@[simp] theorem ofList_toList (s : NameSet) : ofList s.toList = s := by
  apply Std.ExtTreeSet.ext_mem
  simp

theorem toList_inj {s t : NameSet} (h : s.toList = t.toList) : s = t := by
  rw [← ofList_toList s, ← ofList_toList t, h]

instance : DecidableEq NameSet := fun s t =>
  if h : s.toList = t.toList then isTrue (toList_inj h) else isFalse fun same => h (same ▸ rfl)

end NameSet

/-! ## Names in an expression -/

mutual

/-- The letter runs of an entry in reading order: the run, then its exponent; the numerator, the
denominator, then the exponent. -/
def Node.words : Node → List String
  | .run r power => (if r.kind = .letter then [r.text] else []) ++ powerWords power
  | .fraction n d _ power => baseWords n ++ (baseWords d ++ powerWords power)

/-- The letter runs of a base line in reading order. -/
def baseWords : List Node → List String
  | [] => []
  | node :: rest => node.words ++ baseWords rest

/-- The letter runs of an exponent in reading order. -/
def powerWords : Option (List Node) → List String
  | none => []
  | some p => baseWords p

end

namespace Expression

/-- The letter runs in reading order. -/
def words (e : Expression) : List String := baseWords e

/-- The names an expression reads. -/
def names (e : Expression) : NameSet := .ofList (words e)

end Expression

end PenMath
