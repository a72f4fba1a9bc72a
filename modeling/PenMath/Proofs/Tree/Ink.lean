import Mathlib.Algebra.Group.Prod
import Mathlib.Algebra.GroupWithZero.Nat
import Mathlib.Algebra.Order.Group.Multiset
import PenMath.Region.Parse

/-!
# What a tree is drawn with

The glyphs of a tree at every depth, in reading order: those of a run before those of its exponent,
a numerator before its denominator. Beside them stands the number of fractions, because the bar of
a fraction is in none of its glyphs. Both together, the glyphs in no order, are the ink of a tree.

Ink adds up over the entries of a base line, so its order is of no account (`baseInk_perm`), and
`Spends` says that one drawing became another at the cost of bars only, with at most one new
fraction for each.
-/

namespace PenMath

/-! ## Glyphs and fractions -/

mutual

/-- The glyphs of an entry and of everything in it. -/
def Node.glyphs : Node → List Glyph
  | .run r power => r.members ++ powerGlyphs power
  | .fraction n d _ power => baseGlyphs n ++ baseGlyphs d ++ powerGlyphs power

/-- The glyphs of a base line in reading order. -/
def baseGlyphs : List Node → List Glyph
  | [] => []
  | node :: rest => node.glyphs ++ baseGlyphs rest

/-- The glyphs of an exponent in reading order, none if there is no exponent. -/
def powerGlyphs : Option (List Node) → List Glyph
  | none => []
  | some p => baseGlyphs p

end

mutual

/-- How many fractions an entry is and has in it. -/
def Node.fractions : Node → Nat
  | .run _ power => powerFractions power
  | .fraction n d _ power => baseFractions n + baseFractions d + powerFractions power + 1

/-- How many fractions a base line has, those inside of others included. -/
def baseFractions : List Node → Nat
  | [] => 0
  | node :: rest => node.fractions + baseFractions rest

/-- How many fractions an exponent has. -/
def powerFractions : Option (List Node) → Nat
  | none => 0
  | some p => baseFractions p

end

theorem baseGlyphs_append (front back : List Node) :
    baseGlyphs (front ++ back) = baseGlyphs front ++ baseGlyphs back := by
  induction front with
  | nil => simp [baseGlyphs]
  | cons node rest ih => rw [List.cons_append, baseGlyphs, baseGlyphs, ih, List.append_assoc]

theorem baseFractions_append (front back : List Node) :
    baseFractions (front ++ back) = baseFractions front + baseFractions back := by
  induction front with
  | nil => simp [baseFractions]
  | cons node rest ih => rw [List.cons_append, baseFractions, baseFractions, ih, Nat.add_assoc]

@[simp] theorem Node.glyphs_glyph (g : Glyph) : (Item.glyph g).toNode.glyphs = [g] := by
  simp [Item.toNode, Node.glyphs, powerGlyphs, Run.single]

/-- The exponent of an entry that had none comes after everything else. -/
theorem Node.glyphs_withPower {base : Node} (bare : base.power = none) (e : Expression) :
    (base.withPower e).glyphs = base.glyphs ++ baseGlyphs e := by
  cases base <;> cases bare <;> simp [Node.withPower, Node.glyphs, powerGlyphs]

/-- An exponent brings its own fractions along. -/
theorem Node.fractions_withPower {base : Node} (bare : base.power = none) (e : Expression) :
    (base.withPower e).fractions = base.fractions + baseFractions e := by
  cases base with
  | run r power =>
    cases bare
    rw [Node.withPower, Node.fractions, Node.fractions, powerFractions, powerFractions,
      Nat.zero_add]
  | fraction n d rect power =>
    cases bare
    rw [Node.withPower, Node.fractions, Node.fractions, powerFractions, powerFractions]
    omega

theorem Node.glyphs_append {base : Node} {g : Glyph} (accepted : base.accepts g = true) :
    (base.append g).glyphs = base.glyphs ++ [g] := by
  cases base with
  | run r power =>
    cases power with
    | none => simp [Node.append, Node.glyphs, powerGlyphs, Run.append]
    | some p => cases accepted
  | fraction n d rect power => cases accepted

theorem Node.fractions_append {base : Node} (g : Glyph) :
    (base.append g).fractions = base.fractions := by
  cases base <;> rfl

/-! ## Cutting words -/

namespace Region

/-- Runs with one exponent at the end are drawn as the runs and then the exponent. -/
theorem baseGlyphs_withLastPower {runs : List Run} (some : runs ≠ []) (power : Option Expression) :
    baseGlyphs (withLastPower runs power) =
      runs.flatMap (·.members) ++ powerGlyphs power := by
  induction runs with
  | nil => exact absurd rfl some
  | cons r rest ih =>
    cases rest with
    | nil => simp [withLastPower, baseGlyphs, Node.glyphs]
    | cons next rest =>
      rw [withLastPower, baseGlyphs, ih (List.cons_ne_nil _ _), Node.glyphs, powerGlyphs,
        List.append_nil]
      simp only [List.flatMap_cons, List.append_assoc]

/-- Runs are no fractions, but their exponent may have some. -/
theorem baseFractions_withLastPower {runs : List Run} (some : runs ≠ [])
    (power : Option Expression) :
    baseFractions (withLastPower runs power) = powerFractions power := by
  induction runs with
  | nil => exact absurd rfl some
  | cons r rest ih =>
    cases rest with
    | nil => simp [withLastPower, baseFractions, Node.fractions]
    | cons next rest =>
      rw [withLastPower, baseFractions, ih (List.cons_ne_nil _ _), Node.fractions, powerFractions,
        Nat.zero_add]

/-- Runs made of pieces have the pieces as members; an empty piece makes none. -/
theorem flatMap_members (pieces : List (List Glyph)) :
    (pieces.filterMap Run.ofMembers?).flatMap (·.members) = pieces.flatten := by
  induction pieces with
  | nil => rfl
  | cons piece rest ih =>
    cases piece with
    | nil => rw [List.filterMap_cons_none (by rfl), ih, List.flatten_cons, List.nil_append]
    | cons g others =>
      rw [List.filterMap_cons_some (by rfl), List.flatMap_cons, ih, List.flatten_cons]

/-- A letter run that is cut leaves at least one piece. -/
theorem cut_runs_ne_nil (names : List String) {members : List Glyph} (some : members ≠ []) :
    (cut names members).filterMap Run.ofMembers? ≠ [] := by
  intro empty
  have members := flatMap_members (cut names members)
  rw [empty, flatten_cut] at members
  exact some members.symm

/-- A cut word is drawn with the glyphs of the word. -/
theorem baseGlyphs_cutNode (names : List String) (node : Node) :
    baseGlyphs (cutNode names node) = node.glyphs := by
  cases node with
  | run r power =>
    rw [cutNode, cutRun]
    split
    next cuts =>
      -- there is a last piece to carry the exponent
      have some := List.ne_nil_of_length_pos (Nat.lt_trans Nat.zero_lt_one cuts.2)
      rw [baseGlyphs_withLastPower (cut_runs_ne_nil names some), flatMap_members, flatten_cut,
        Node.glyphs]
    next => simp [baseGlyphs]
  | fraction n d rect power => simp [cutNode, baseGlyphs]

/-- A cut word has the fractions of the word. -/
theorem baseFractions_cutNode (names : List String) (node : Node) :
    baseFractions (cutNode names node) = node.fractions := by
  cases node with
  | run r power =>
    rw [cutNode, cutRun]
    split
    next cuts =>
      have some := List.ne_nil_of_length_pos (Nat.lt_trans Nat.zero_lt_one cuts.2)
      rw [baseFractions_withLastPower (cut_runs_ne_nil names some), Node.fractions]
    next => simp [baseFractions]
  | fraction n d rect power => simp [cutNode, baseFractions]

theorem baseGlyphs_cutWords (names : List String) (nodes : List Node) :
    baseGlyphs (cutWords names nodes) = baseGlyphs nodes := by
  induction nodes with
  | nil => rfl
  | cons node rest ih =>
    rw [cutWords, List.flatMap_cons, baseGlyphs_append, baseGlyphs_cutNode, ← cutWords, ih,
      baseGlyphs]

theorem baseFractions_cutWords (names : List String) (nodes : List Node) :
    baseFractions (cutWords names nodes) = baseFractions nodes := by
  induction nodes with
  | nil => rfl
  | cons node rest ih =>
    rw [cutWords, List.flatMap_cons, baseFractions_append, baseFractions_cutNode, ← cutWords, ih,
      baseFractions]

end Region

/-! ## Ink -/

/-- What something is drawn with: its glyphs, in no order, and how many fractions it has. -/
abbrev Ink := Multiset Glyph × ℕ

/-- The ink of a glyph: itself, and no fraction. -/
def Glyph.ink (g : Glyph) : Ink := ({g}, 0)

/-- The ink of an entry, everything in it included. -/
def Node.ink (node : Node) : Ink := (node.glyphs, node.fractions)

/-- The ink of a base line. -/
def baseInk (nodes : List Node) : Ink := (baseGlyphs nodes, baseFractions nodes)

@[simp] theorem baseInk_nil : baseInk [] = 0 := rfl

@[simp] theorem baseInk_cons (node : Node) (rest : List Node) :
    baseInk (node :: rest) = node.ink + baseInk rest := by
  rw [baseInk, baseGlyphs, baseFractions, ← Multiset.coe_add]
  rfl

@[simp] theorem baseInk_append (front back : List Node) :
    baseInk (front ++ back) = baseInk front + baseInk back := by
  rw [baseInk, baseGlyphs_append, baseFractions_append, ← Multiset.coe_add]
  rfl

theorem baseInk_perm {nodes nodes' : List Node} (perm : nodes.Perm nodes') :
    baseInk nodes = baseInk nodes' := by
  induction perm with
  | nil => rfl
  | cons node _ ih => rw [baseInk_cons, baseInk_cons, ih]
  | swap a b rest => simp only [baseInk_cons, add_left_comm]
  | trans _ _ first second => rw [first, second]

@[simp] theorem Node.ink_glyph (g : Glyph) : (Item.glyph g).toNode.ink = g.ink := by
  rw [Node.ink, Node.glyphs_glyph]
  rfl

/-- A fraction is drawn with its two sides, and counts once. -/
theorem Node.ink_stacked (n d : Expression) :
    (Item.fraction (.stacked n d)).toNode.ink = baseInk n + baseInk d + (0, 1) := by
  simp [Node.ink, baseInk, Item.toNode, Fraction.toNode, Fraction.stacked, Node.glyphs,
    Node.fractions, powerGlyphs, powerFractions]

theorem Node.ink_withPower {base : Node} (bare : base.power = none) (e : Expression) :
    (base.withPower e).ink = base.ink + baseInk e := by
  rw [Node.ink, Node.glyphs_withPower bare, Node.fractions_withPower bare, ← Multiset.coe_add]
  rfl

theorem Node.ink_append {base : Node} {g : Glyph} (accepted : base.accepts g = true) :
    (base.append g).ink = base.ink + g.ink := by
  rw [Node.ink, Node.glyphs_append accepted, Node.fractions_append, ← Multiset.coe_add]
  rfl

theorem Region.baseInk_cutWords (names : List String) (nodes : List Node) :
    baseInk (cutWords names nodes) = baseInk nodes := by
  rw [baseInk, baseGlyphs_cutWords, baseFractions_cutWords, baseInk]

/-- One drawing is another but for bars, and each of these bars is a fraction at most once. -/
def Spends (before after : Ink) : Prop :=
  ∃ bars : Multiset Glyph, (∀ g ∈ bars, g.label = '/') ∧ before.1 = after.1 + bars ∧
    after.2 ≤ before.2 + bars.card

namespace Spends

variable {a b c a' b' : Ink}

theorem refl (a : Ink) : Spends a a := ⟨0, by simp, by simp, by simp⟩

theorem trans (first : Spends a b) (second : Spends b c) : Spends a c := by
  obtain ⟨bars, labels, glyphs, fractions⟩ := first
  obtain ⟨bars', labels', glyphs', fractions'⟩ := second
  refine ⟨bars' + bars, ?_, ?_, ?_⟩
  · intro g mem
    exact (Multiset.mem_add.mp mem).elim (labels' g) (labels g)
  · rw [glyphs, glyphs', add_assoc]
  · rw [Multiset.card_add]
    omega

theorem add (first : Spends a b) (second : Spends a' b') : Spends (a + a') (b + b') := by
  obtain ⟨bars, labels, glyphs, fractions⟩ := first
  obtain ⟨bars', labels', glyphs', fractions'⟩ := second
  refine ⟨bars + bars', ?_, ?_, ?_⟩
  · intro g mem
    exact (Multiset.mem_add.mp mem).elim (labels g) (labels' g)
  · rw [Prod.fst_add, Prod.fst_add, glyphs, glyphs', add_add_add_comm]
  · rw [Prod.snd_add, Prod.snd_add, Multiset.card_add]
    omega

theorem drop {g : Glyph} (label : g.label = '/') : Spends g.ink 0 :=
  ⟨{g}, by simpa using label, by simp [Glyph.ink], by simp⟩

theorem divide {g : Glyph} (label : g.label = '/') : Spends g.ink (0, 1) :=
  ⟨{g}, by simpa using label, by simp [Glyph.ink], by simp⟩

theorem subset (h : Spends a b) : b.1 ⊆ a.1 := by
  obtain ⟨bars, -, glyphs, -⟩ := h
  rw [glyphs]
  exact Multiset.subset_of_le (Multiset.le_add_right _ _)

theorem kept (h : Spends a b) : b.1.filter (·.label ≠ '/') = a.1.filter (·.label ≠ '/') := by
  obtain ⟨bars, labels, glyphs, -⟩ := h
  have none : bars.filter (·.label ≠ '/') = 0 := by simpa using labels
  rw [glyphs, Multiset.filter_add, none, add_zero]

/-- The bars that are left were there before. -/
theorem bars_le (h : Spends a b) : b.1.filter (·.label = '/') ≤ a.1.filter (·.label = '/') := by
  obtain ⟨bars, -, glyphs, -⟩ := h
  rw [glyphs, Multiset.filter_add]
  exact Multiset.le_add_right _ _

/-- The bars that are left and the new fractions are no more than there were bars. -/
theorem fractions_le (h : Spends a b) :
    (b.1.filter (·.label = '/')).card + b.2 ≤ (a.1.filter (·.label = '/')).card + a.2 := by
  obtain ⟨bars, labels, glyphs, fractions⟩ := h
  rw [glyphs, Multiset.filter_add, Multiset.card_add, Multiset.filter_eq_self.mpr labels]
  omega

end Spends

end PenMath
