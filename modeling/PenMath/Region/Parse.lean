import PenMath.Region.Line

/-!
# Regions

A region is read in three steps: its division bars are resolved, its base line is read, and its
letter runs are cut into names. The sides of a fraction and the exponents are regions again, each
with fewer items than the region around it; `parse_eq` is the definition without the test that says
so.

Handwriting has no spaces between names, so a run of letters is cut from the left: at each place the
first known name that the letters begin with, else a single letter. With the names listed longest
first, this is the longest known name.
-/

namespace PenMath.Region

/-! ## Letter runs cut into names -/

/-- Whether letters begin with a name. The empty name begins nothing. -/
def beginsWith (letters : List Char) (name : String) : Bool :=
  !name.toList.isEmpty && name.toList.isPrefixOf letters

/-- How many letters the next piece has: those of the first name that the letters begin with, or
one. -/
def pieceLength (names : List String) (letters : List Char) : Nat :=
  match names.find? (beginsWith letters) with
  | some name => name.toList.length
  | none => 1

/-- The glyphs of a letter run cut into pieces, of which none is empty. -/
def cut (names : List String) : List Glyph → List (List Glyph)
  | [] => []
  | g :: rest =>
    let others := pieceLength names ((g :: rest).map (·.label)) - 1
    (g :: rest.take others) :: cut names (rest.drop others)
termination_by glyphs => glyphs.length
decreasing_by simp only [List.length_drop, List.length_cons]; omega

@[simp] theorem cut_nil (names : List String) : cut names [] = [] := by
  rw [cut]

theorem cut_cons (names : List String) (g : Glyph) (rest : List Glyph) :
    cut names (g :: rest) =
      let others := pieceLength names ((g :: rest).map (·.label)) - 1
      (g :: rest.take others) :: cut names (rest.drop others) := by
  rw [cut]

/-- The pieces are the run. -/
theorem flatten_cut (names : List String) (glyphs : List Glyph) :
    (cut names glyphs).flatten = glyphs := by
  fun_induction cut names glyphs with
  | case1 => rfl
  | case2 g rest others ih =>
    rw [List.flatten_cons, ih, List.cons_append, List.take_append_drop]

/-- Runs as entries, with the exponent on the last. -/
def withLastPower : List Run → Option Expression → List Node
  | [], _ => []
  | [r], power => [.run r power]
  | r :: next :: rest, power => .run r none :: withLastPower (next :: rest) power

/-- A run cut into known names and single letters; a run that is not of letters stays whole. -/
def cutRun (names : List String) (r : Run) (power : Option Expression) : List Node :=
  if r.kind = .letter ∧ 1 < r.members.length then
    withLastPower ((cut names r.members).filterMap Run.ofMembers?) power
  else [.run r power]

/-- An entry with its letters cut; a fraction stays as it is. -/
def cutNode (names : List String) : Node → List Node
  | .run r power => cutRun names r power
  | node => [node]

/-- The letter runs of a base line cut into known names and single letters. -/
def cutWords (names : List String) (nodes : List Node) : List Node :=
  nodes.flatMap (cutNode names)

/-! ## Regions inside regions -/

/-- What stays the same while a region and its parts are read. -/
structure Setting where
  /-- The known names, longest first. -/
  names : List String
  /-- How deep exponents may stand inside exponents. -/
  maxDepth : Nat

/-- The expression that the items of a region are, inside of `depth` exponents. -/
def parse (s : Setting) (depth : Nat) (items : List Item) : Except Fault Expression := do
  let within (depth : Nat) : Reader := fun part =>
    if _smaller : part.length < items.length then parse s depth part else .ok []
  let built ← fractions (within depth) items
  let entries ← line (within (depth + 1)) (s.maxDepth ≤ depth) built
  return cutWords s.names entries
termination_by items.length

/-- The items of a region with every bar resolved. -/
def fractionsAt (s : Setting) (depth : Nat) (items : List Item) : Except Fault (List Item) :=
  fractions (parse s depth) items

/-- The entries of a base line, before its letters are cut. -/
def lineAt (s : Setting) (depth : Nat) (items : List Item) : Except Fault (List Node) :=
  line (parse s (depth + 1)) (s.maxDepth ≤ depth) items

/-- The three steps of reading a region. -/
theorem parse_eq (s : Setting) (depth : Nat) (items : List Item) :
    parse s depth items = do
      let built ← fractionsAt s depth items
      let entries ← lineAt s depth built
      return cutWords s.names entries := by
  rw [parse]
  unfold fractionsAt lineAt
  have guarded : ∀ (d : Nat) (l : List Item), l.length < items.length →
      (if _smaller : l.length < items.length then parse s d l else .ok []) = parse s d l :=
    fun d l smaller => dif_pos smaller
  have stacked : fractions
      (fun l => if _smaller : l.length < items.length then parse s depth l else .ok []) items =
      fractions (parse s depth) items :=
    stack_congr (guarded depth) [] items (Nat.le_refl _)
  simp only [stacked]
  cases built : fractions (parse s depth) items with
  | error => rfl
  | ok out =>
    have short := length_stack_le built
    simp only [bind, Except.bind]
    rw [line_congr (guarded (depth + 1)) (decide (s.maxDepth ≤ depth)) out (by simpa using short)]

end PenMath.Region
