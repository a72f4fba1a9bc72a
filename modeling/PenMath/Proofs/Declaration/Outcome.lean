import PenMath.Proofs.Except
import PenMath.Request

/-!
# When a declaration is made, and what it says

`Request.ofParsed_eq_declare` opens the making of a declaration once: it takes an equation whose
right side is not empty and whose left side is a signature, and the declaration is that signature
with that right side. The lemmas on `Signature.declare` give its parts for constants and functions
alike.
-/

namespace PenMath

variable {left right : Expression} {d : Declaration}

/-- A declaration needs a right side, and a left side that is a signature. -/
theorem Declaration.ofEquation_eq_ok : ofEquation left right = .ok d ↔
    right ≠ [] ∧ ∃ s, Signature.ofLeft? left = some s ∧ s.declare right = d := by
  constructor
  · intro made
    rw [ofEquation] at made
    split at made
    next => cases made
    next some =>
      split at made
      next s read =>
        cases made
        exact ⟨by simpa using some, s, read, rfl⟩
      next => cases made
  · intro h
    obtain ⟨some, s, read, rfl⟩ := h
    rw [ofEquation, if_neg (by rwa [List.isEmpty_iff]), read]

namespace Request

theorem ofExpression_ne_declare (e : Expression) : ofExpression e ≠ .ok (.declare d) := by
  rw [ofExpression]
  split <;> simp

/-- Nothing but an equation in the mode for declarations becomes one. -/
theorem ofParsed_eq_declare {mode : Mode} {parsed : Parsed} :
    ofParsed mode parsed = .ok (.declare d) ↔
      mode = .declare ∧ ∃ left right, parsed = .equation left right ∧ right ≠ [] ∧
        ∃ s, Signature.ofLeft? left = some s ∧ s.declare right = d := by
  constructor
  · intro made
    cases parsed with
    | expression e =>
      cases mode with
      | eval => exact absurd made (ofExpression_ne_declare e)
      | declare | solve => cases made
    | equation left right =>
      cases mode with
      | eval =>
        -- An equation without right side is evaluated like an expression.
        rw [ofParsed] at made
        split at made
        · exact absurd made (ofExpression_ne_declare left)
        · cases made
      | solve => cases made
      | declare =>
        obtain ⟨d', made, same⟩ := map_eq_ok.mp made
        cases same
        exact ⟨rfl, left, right, rfl, Declaration.ofEquation_eq_ok.mp made⟩
  · intro h
    obtain ⟨rfl, left, right, rfl, made⟩ := h
    exact map_eq_ok.mpr ⟨d, Declaration.ofEquation_eq_ok.mpr made, rfl⟩

/-- Whether an equation is accepted as a declaration does not depend on what it would declare. -/
theorem isOk_declare : (ofParsed .declare (.equation left right)).isOk = true ↔
    right ≠ [] ∧ ∃ s, Signature.ofLeft? left = some s := by
  have isDeclared : (ofParsed .declare (.equation left right)).isOk = true ↔
      ∃ d, Declaration.ofEquation left right = .ok d := by
    rw [ofParsed]
    cases Declaration.ofEquation left right with
    | error fault => simp [Except.map, Except.isOk, Except.toBool]
    | ok d => simp [Except.map, Except.isOk, Except.toBool]
  rw [isDeclared]
  constructor
  · intro h
    obtain ⟨d, made⟩ := h
    obtain ⟨some, s, read, -⟩ := Declaration.ofEquation_eq_ok.mp made
    exact ⟨some, s, read⟩
  · intro h
    obtain ⟨some, s, read⟩ := h
    exact ⟨s.declare right, Declaration.ofEquation_eq_ok.mpr ⟨some, s, read, rfl⟩⟩

end Request

namespace Signature

variable (s : Signature) (right : Expression)

@[simp] theorem name_declare : (s.declare right).name = s.name := by
  rw [declare]
  split <;> rfl

@[simp] theorem parameter?_declare : (s.declare right).parameter? = s.parameter? := by
  rw [declare]
  split
  next none => exact none.symm
  next parameter some => exact some.symm

@[simp] theorem body_declare : (s.declare right).body = Expression.text right := by
  rw [declare]
  split <;> rfl

/-- A declaration depends on the names that its right side reads, less its own name and its
parameter. -/
theorem mem_dependencies_declare {name : String} : name ∈ (s.declare right).dependencies ↔
    name ∈ Expression.words right ∧ name ≠ s.name ∧ some name ≠ s.parameter? := by
  rw [declare]
  split
  next none =>
    rw [none, Declaration.dependencies, mem_erase_iff, Expression.names, NameSet.mem_ofList]
    simp
  next parameter some =>
    rw [some, Declaration.dependencies, mem_erase_iff, mem_erase_iff, Expression.names,
      NameSet.mem_ofList]
    simp [and_assoc]

end Signature

end PenMath
