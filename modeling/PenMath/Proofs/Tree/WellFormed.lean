import Mathlib.Data.List.Chain
import PenMath.Tree.Basic

/-!
# Well-formed trees

What a tree has to be like so that it can be the reading of a drawing: a run has glyphs of one kind
only and covers exactly these, operators and parentheses stand alone, an operator carries no
exponent, two numbers stand side by side only if an exponent ends the first, and nothing inside of
an entry is empty.

`WellFormed` asks this of the base line of an expression and of every base line within it. Whether
letters make up known names is a parameter of the conditions on one line, since letters are cut into
names only after a line has been read.
-/

namespace PenMath

/-! ## The lines of a tree -/

mutual

/-- The base lines within an entry, at every depth: sides of fractions, and exponents. -/
def Node.lines : Node → List Expression
  | .run _ power => powerLines power
  | .fraction n d _ power => (n :: baseLines n) ++ ((d :: baseLines d) ++ powerLines power)

/-- The base lines within the entries of a base line. -/
def baseLines : List Node → List Expression
  | [] => []
  | node :: rest => node.lines ++ baseLines rest

/-- The base line of an exponent, and those within it. -/
def powerLines : Option (List Node) → List Expression
  | none => []
  | some p => p :: baseLines p

end

theorem baseLines_append (front back : List Node) :
    baseLines (front ++ back) = baseLines front ++ baseLines back := by
  induction front with
  | nil => simp [baseLines]
  | cons node rest ih => rw [List.cons_append, baseLines, baseLines, ih, List.append_assoc]

theorem Node.lines_withPower {base : Node} (bare : base.power = none) (e : Expression) :
    (base.withPower e).lines = base.lines ++ e :: baseLines e := by
  cases base <;> cases bare <;> simp [Node.withPower, Node.lines, powerLines]

theorem Node.lines_append (base : Node) (g : Glyph) : (base.append g).lines = base.lines := by
  cases base <;> rfl

/-! ## Runs -/

namespace Run

/-- Whether a run is one token: it has glyphs, all of its kind, and more than one only if they are
digits or letters. -/
structure IsToken (r : Run) : Prop where
  notEmpty : r.members ≠ []
  kinds : ∀ g ∈ r.members, Kind.ofLabel? g.label = some r.kind
  alone : r.kind = .operator ∨ r.kind = .parenthesis → r.members.length = 1
  bounds : Rect.bounding? (r.members.map (·.rect)) = some r.rect

/-- Whether the letters of a run are a single one, or a known name. -/
def IsWord (names : List String) (r : Run) : Prop := r.members.length = 1 ∨ r.text ∈ names

variable {r : Run} {g : Glyph}

theorem isToken_single (g : Glyph) : (single g).IsToken where
  notEmpty := List.cons_ne_nil _ _
  kinds := by
    intro h mem
    rw [List.mem_singleton.mp mem]
    exact g.ofLabel?_label
  alone _ := rfl
  bounds := rfl

/-- The rectangle around glyphs grows with one more at their end. -/
theorem bounding?_concat {members : List Glyph} {rect : Rect}
    (bounds : Rect.bounding? (members.map (·.rect)) = some rect) (g : Glyph) :
    Rect.bounding? ((members ++ [g]).map (·.rect)) = some (rect.union g.rect) := by
  cases members with
  | nil => cases bounds
  | cons first rest =>
    rw [List.map_cons, Rect.bounding?_cons, Option.some.injEq] at bounds
    rw [List.map_append, List.map_cons, List.cons_append, Rect.bounding?_cons, List.foldl_append,
      bounds]
    rfl

/-- A glyph of the same kind leaves a run what it is. -/
theorem IsToken.append (token : r.IsToken) (accepted : r.accepts g = true) :
    (r.append g).IsToken := by
  rw [accepts, Bool.and_eq_true, decide_eq_true_eq] at accepted
  obtain ⟨merges, kind⟩ := accepted
  refine ⟨by simp [Run.append], ?_, ?_, bounding?_concat token.bounds g⟩
  · intro h mem
    rcases List.mem_append.mp mem with before | last
    · exact token.kinds h before
    · rw [List.mem_singleton.mp last, g.ofLabel?_label, kind]
      rfl
  · intro single
    rcases single with kind | kind <;> rw [show r.kind = _ from kind] at merges <;> cases merges

/-- Letters make up a token wherever they are cut. -/
theorem isToken_ofMembers? {members : List Glyph} (made : ofMembers? members = some r)
    (letters : ∀ g ∈ members, Kind.ofLabel? g.label = some .letter) :
    r.IsToken ∧ r.kind = .letter ∧ r.members = members := by
  cases members with
  | nil => cases made
  | cons g rest =>
    cases made
    have kind : g.kind = .letter := g.kind_of_label rfl (letters g List.mem_cons_self)
    refine ⟨⟨List.cons_ne_nil _ _, ?_, ?_, rfl⟩, kind, rfl⟩
    · intro h mem
      exact (letters h mem).trans (congrArg some kind.symm)
    · intro single
      rw [show (Run.kind _) = _ from kind] at single
      rcases single with other | other <;> cases other

end Run

/-! ## Entries and lines -/

/-- Whether an entry is as it should be, by itself; `word` is asked of letters. -/
inductive Node.IsProper (word : Run → Prop) : Node → Prop
  /-- An operator carries no exponent. -/
  | run {r power} (token : r.IsToken) (operator : r.kind = .operator → power = none)
      (letters : r.kind = .letter → word r) : IsProper word (.run r power)
  /-- A fraction covers its two sides. -/
  | fraction {n d power above below} (upper : Expression.rect? n = some above)
      (lower : Expression.rect? d = some below) :
      IsProper word (.fraction n d (above.union below) power)

/-- Whether a base line is as it should be, what is within its entries left out. -/
structure IsBaseLine (word : Run → Prop) (e : Expression) : Prop where
  entries : ∀ node ∈ e, node.IsProper word
  /-- Digits that follow digits are a number of their own only after an exponent. -/
  numbers : e.IsChain fun left right =>
    left.kind = .digit → right.kind = .digit → left.power ≠ none

/-- Whether lines that stand within entries are as they should be, and none is empty. -/
def AreInner (names : List String) (lines : List Expression) : Prop :=
  ∀ line ∈ lines, line ≠ [] ∧ IsBaseLine (·.IsWord names) line

/-- Whether an expression is as it should be at every depth. -/
structure WellFormed (names : List String) (e : Expression) : Prop where
  line : IsBaseLine (·.IsWord names) e
  inner : AreInner names (baseLines e)

section

variable {names : List String} {word : Run → Prop} {n d : Expression}

theorem AreInner.append {lines lines' : List Expression} (h : AreInner names lines)
    (h' : AreInner names lines') : AreInner names (lines ++ lines') :=
  fun line mem => (List.mem_append.mp mem).elim (h line) (h' line)

/-- A line that is not empty is fit to stand within an entry, with all within it. -/
theorem WellFormed.areInner {e : Expression} (h : WellFormed names e) (some : e ≠ []) :
    AreInner names (e :: baseLines e) :=
  List.forall_mem_cons.mpr ⟨⟨some, h.line⟩, h.inner⟩

/-- A line within an expression is well formed and not empty, if all that is within it is. -/
theorem WellFormed.within {e line : Expression} (h : WellFormed names e)
    (lines : line :: baseLines line ⊆ baseLines e) : WellFormed names line ∧ line ≠ [] := by
  obtain ⟨some, base⟩ := h.inner line (lines List.mem_cons_self)
  exact ⟨⟨base, fun inner mem => h.inner inner (lines (List.mem_cons_of_mem _ mem))⟩, some⟩

theorem WellFormed.rest {node : Node} {rest : List Node} (h : WellFormed names (node :: rest)) :
    WellFormed names rest where
  line := ⟨(List.forall_mem_cons.mp h.line.entries).2, h.line.numbers.tail⟩
  inner := by
    intro line mem
    apply h.inner line
    rw [baseLines]
    exact List.mem_append_right _ mem

theorem WellFormed.suffix {front back : List Node} (h : WellFormed names (front ++ back)) :
    WellFormed names back := by
  induction front with
  | nil => exact h
  | cons node front ih => exact ih h.rest

/-- An exponent is itself well formed, and not empty. -/
theorem WellFormed.power {node : Node} {rest : List Node} {p : Expression}
    (h : WellFormed names (node :: rest)) (carried : p ∈ node.power) :
    WellFormed names p ∧ p ≠ [] := by
  refine h.within fun line mem => ?_
  have inPower : line ∈ powerLines node.power := by
    rw [Option.mem_def.mp carried]
    exact mem
  rw [baseLines]
  refine List.mem_append_left _ ?_
  cases node with
  | run r power => exact inPower
  | fraction n d rect power => exact List.mem_append_right _ (List.mem_append_right _ inPower)

theorem WellFormed.numerator {rect : Rect} {power : Option Expression} {rest : List Node}
    (h : WellFormed names (.fraction n d rect power :: rest)) : WellFormed names n ∧ n ≠ [] := by
  refine h.within fun line mem => ?_
  rw [baseLines]
  exact List.mem_append_left _ (List.mem_append_left _ mem)

theorem WellFormed.denominator {rect : Rect} {power : Option Expression} {rest : List Node}
    (h : WellFormed names (.fraction n d rect power :: rest)) : WellFormed names d ∧ d ≠ [] := by
  refine h.within fun line mem => ?_
  rw [baseLines]
  exact List.mem_append_left _ (List.mem_append_right _ (List.mem_append_left _ mem))

/-- More names allow more. -/
theorem WellFormed.names_subset {names' : List String} {e : Expression} (h : WellFormed names e)
    (subset : names ⊆ names') : WellFormed names' e := by
  have lines : ∀ line, IsBaseLine (·.IsWord names) line → IsBaseLine (·.IsWord names') line := by
    intro line base
    refine ⟨?_, base.numbers⟩
    intro node mem
    cases base.entries node mem with
    | run token operator letters =>
      exact .run token operator fun letter => (letters letter).imp_right (@subset _)
    | fraction upper lower => exact .fraction upper lower
  exact ⟨lines e h.line, fun line mem => ⟨(h.inner line mem).1, lines line (h.inner line mem).2⟩⟩

theorem Node.IsProper.isToken {r : Run} {power : Option Expression}
    (proper : (Node.run r power).IsProper word) : r.IsToken := by
  cases proper with
  | run token operator letters => exact token

/-- A fraction of two sides that are not empty covers them. -/
theorem isProper_stacked (someUpper : n ≠ []) (someLower : d ≠ []) :
    (Fraction.stacked n d).toNode.IsProper word := by
  obtain ⟨above, others, rfl⟩ := List.exists_cons_of_ne_nil someUpper
  obtain ⟨below, others', rfl⟩ := List.exists_cons_of_ne_nil someLower
  exact .fraction rfl rfl

theorem Node.IsProper.withPower {base : Node} (proper : base.IsProper word)
    (carries : base.kind ≠ .operator) (e : Expression) : (base.withPower e).IsProper word := by
  cases proper with
  | run token operator letters =>
    exact .run token (fun isOperator => absurd isOperator carries) letters
  | fraction upper lower => exact .fraction upper lower

/-- A run that grows stays as it should be; its letters are looked at only when they are cut. -/
theorem Node.IsProper.append {base : Node} {g : Glyph} (proper : base.IsProper fun _ => True)
    (accepted : base.accepts g = true) : (base.append g).IsProper fun _ => True := by
  cases proper with
  | @run r power token operator letters =>
    cases power with
    | none => exact .run (token.append accepted) (fun _ => rfl) (fun _ => trivial)
    | some p => cases accepted
  | fraction upper lower => cases accepted

end

end PenMath
