import PenMath.Proofs.Tree.Ink
import PenMath.Proofs.Tree.WellFormed

/-!
# Exponents inside of exponents

How many exponents of a tree stand in one another. The sides of a fraction stand where the fraction
stands, so an exponent in a side of a fraction in an exponent is nested twice. Beside this nesting
stands the rise of a line, which is the same count with the sides of fractions left out.

Both are one count with a flag. It is a maximum over the entries of a line, and cutting letters into
words does not change it.
-/

namespace PenMath

variable {sides : Bool}

mutual

/-- How many exponents stand in one another within an entry; the flag says whether the sides of
fractions are looked into. -/
def Node.depth (sides : Bool) : Node → Nat
  | .run _ power => powerDepth sides power
  | .fraction n d _ power =>
    max (if sides then max (baseDepth sides n) (baseDepth sides d) else 0) (powerDepth sides power)

/-- The greatest depth of an entry of a base line; that of an empty line is zero. -/
def baseDepth (sides : Bool) : List Node → Nat
  | [] => 0
  | node :: rest => max (node.depth sides) (baseDepth sides rest)

/-- The depth of an exponent: one more than that of its line, and zero if there is none. -/
def powerDepth (sides : Bool) : Option (List Node) → Nat
  | none => 0
  | some p => baseDepth sides p + 1

end

namespace Expression

/-- How many exponents stand in one another. -/
def nesting (e : Expression) : Nat := baseDepth true e

/-- How many exponents stand in one another if the sides of fractions are left out. -/
def rise (e : Expression) : Nat := baseDepth false e

end Expression

/-! ## Lines -/

theorem baseDepth_le_iff {nodes : List Node} {n : Nat} :
    baseDepth sides nodes ≤ n ↔ ∀ node ∈ nodes, node.depth sides ≤ n := by
  induction nodes with
  | nil => simp [baseDepth]
  | cons node rest ih => rw [baseDepth, Nat.max_le, ih, List.forall_mem_cons]

theorem baseDepth_append (front back : List Node) :
    baseDepth sides (front ++ back) = max (baseDepth sides front) (baseDepth sides back) := by
  induction front with
  | nil => simp [baseDepth]
  | cons node rest ih => rw [List.cons_append, baseDepth, baseDepth, ih, Nat.max_assoc]

/-- The order of a line is of no account. -/
theorem baseDepth_perm {nodes nodes' : List Node} (perm : nodes.Perm nodes') :
    baseDepth sides nodes = baseDepth sides nodes' :=
  Nat.le_antisymm
    (baseDepth_le_iff.mpr fun _ mem => baseDepth_le_iff.mp (Nat.le_refl _) _ (perm.mem_iff.mp mem))
    (baseDepth_le_iff.mpr fun _ mem => baseDepth_le_iff.mp (Nat.le_refl _) _ (perm.mem_iff.mpr mem))

/-! ## Entries -/

theorem Node.depth_withPower {base : Node} (bare : base.power = none) (e : Expression) :
    (base.withPower e).depth sides = max (base.depth sides) (baseDepth sides e + 1) := by
  cases base <;> cases bare <;> simp [Node.withPower, Node.depth, powerDepth]

theorem Node.depth_append (base : Node) (g : Glyph) :
    (base.append g).depth sides = base.depth sides := by
  cases base <;> rfl

/-- Without looking into fractions, an entry without exponent is level. -/
theorem Node.depth_of_bare {base : Node} (bare : base.power = none) : base.depth false = 0 := by
  cases base <;> cases bare <;> rfl

/-! ## Cutting words -/

namespace Region

/-- Runs are as deep as the exponent at their end. -/
theorem baseDepth_withLastPower {runs : List Run} (some : runs ≠ []) (power : Option Expression) :
    baseDepth sides (withLastPower runs power) = powerDepth sides power := by
  induction runs with
  | nil => exact absurd rfl some
  | cons r rest ih =>
    cases rest with
    | nil => simp [withLastPower, baseDepth, Node.depth]
    | cons next rest =>
      rw [withLastPower, baseDepth, ih (List.cons_ne_nil _ _), Node.depth, powerDepth,
        Nat.zero_max]

/-- A cut word is as deep as the word. -/
theorem baseDepth_cutNode (names : List String) (node : Node) :
    baseDepth sides (cutNode names node) = node.depth sides := by
  cases node with
  | fraction n d rect power => simp [cutNode, baseDepth]
  | run r power =>
    rw [cutNode, cutRun]
    split
    next cuts =>
      have some := List.ne_nil_of_length_pos (Nat.lt_trans Nat.zero_lt_one cuts.2)
      rw [baseDepth_withLastPower (cut_runs_ne_nil names some), Node.depth]
    next => simp [baseDepth]

theorem baseDepth_cutWords (names : List String) (nodes : List Node) :
    baseDepth sides (cutWords names nodes) = baseDepth sides nodes := by
  induction nodes with
  | nil => rfl
  | cons node rest ih =>
    rw [cutWords, List.flatMap_cons, baseDepth_append, baseDepth_cutNode, ← cutWords, ih,
      baseDepth]

end Region

end PenMath
