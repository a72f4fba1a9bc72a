import PenMath.Formula.Parsed
import PenMath.Proofs.Region.Longest
import PenMath.Proofs.Sort

/-!
# The known names are a set

A letter run is cut from the left, each time at the end of the longest known name. The names are
sorted by length before that, so a formula is read alike with any two lists of the same names,
however they are ordered and however often one of them is repeated.

The names go all the way through a reading unchanged: two settings that cut lines alike read regions
alike (`Region.parse_congr`), by the recursion of the reading.
-/

namespace PenMath

variable {names names' : List String}

theorem longestFirst_sorted (names : List String) : Region.LongestFirst (longestFirst names) := by
  have ascends := pairwise_sortByKey (fun name : String => -(name.utf8ByteSize : Int)) names
  refine ascends.imp fun le => ?_
  omega

theorem mem_longestFirst {name : String} : name ∈ longestFirst names ↔ name ∈ names :=
  (sortByKey_perm _ names).mem_iff

namespace Region

/-- Settings that cut lines alike read regions alike. -/
theorem parse_congr (s s' : Setting) (sameDepth : s.maxDepth = s'.maxDepth)
    (same : ∀ nodes, cutWords s.names nodes = cutWords s'.names nodes) (depth : Nat)
    (items : List Item) : parse s depth items = parse s' depth items := by
  -- sides and exponents are regions with fewer items
  induction n : items.length using Nat.strongRecOn generalizing depth items with
  | ind n ih =>
    subst n
    have agree : ∀ depth l, l.length < items.length → parse s depth l = parse s' depth l :=
      fun depth l short => ih l.length short depth l rfl
    have resolved : fractionsAt s depth items = fractionsAt s' depth items :=
      stack_congr (agree depth) [] items (Nat.le_refl _)
    rw [parse_eq, parse_eq, ← resolved]
    cases built : fractionsAt s depth items with
    | error fault => rfl
    | ok out =>
      have short : out.length ≤ items.length := by simpa using length_stack_le built
      have read : lineAt s depth out = lineAt s' depth out := by
        rw [lineAt, lineAt, sameDepth]
        exact line_congr (agree (depth + 1)) _ out short
      show (lineAt s depth out >>= fun entries => pure (cutWords s.names entries)) =
        (lineAt s' depth out >>= fun entries => pure (cutWords s'.names entries))
      simp only [read, same]

end Region

theorem parseSide_congr (same : ∀ name, name ∈ names ↔ name ∈ names') (t : Thresholds) :
    parseSide t names = parseSide t names' := by
  funext glyphs
  refine Region.parse_congr (.of t names) (.of t names') rfl ?_ 0 _
  refine Region.cutWords_congr (longestFirst_sorted names) (longestFirst_sorted names') ?_
  intro name
  exact mem_longestFirst.trans ((same name).trans mem_longestFirst.symm)

/-- Letters are cut from the left into the longest known names, and the known names are a set. With
the longest names first, each piece of a letter run has as many glyphs as the longest known name
that the letters left begin with, or one; it covers these glyphs, and only the last piece has the
exponent. The same cuts can be made in the text, byte by byte. So a formula and an expression are
read alike with all lists of the same names. -/
theorem known_names_are_a_set :
    (∀ (names : List String) (r : Run) (power : Option Expression), Region.LongestFirst names →
      r.kind = .letter → 1 < r.members.length →
      ∃ pieces : List Run, pieces.flatMap (·.members) = r.members ∧
        (∀ front piece back, pieces = front ++ piece :: back →
          piece.members.length = Region.longest names ((piece :: back).flatMap Run.chars)) ∧
        (∀ piece ∈ pieces, Rect.bounding? (piece.members.map (·.rect)) = some piece.rect) ∧
        (∃ front last, pieces = front ++ [last] ∧
          Region.cutRun names r power = wordEntries front ++ [.run last power]) ∧
        ∃ ranges, Region.byteRanges? names r.text 0 = some ranges ∧
          ranges.map (fun range => range.2 - range.1) = pieces.map (·.members.length) ∧
          ∀ range ∈ ranges, range.2 ≤ r.text.utf8ByteSize) ∧
      ∀ (t : Thresholds) (mode : Mode) (names names' : List String) (glyphs : List Glyph),
        (∀ name, name ∈ names ↔ name ∈ names') →
          parseFormula t mode names glyphs = parseFormula t mode names' glyphs ∧
          parseExpression t names glyphs = parseExpression t names' glyphs := by
  refine ⟨?_, ?_⟩
  · intro names r power sorted letter several
    obtain ⟨pieces, members, longest, made, last⟩ :=
      Region.exists_longest_pieces sorted letter several power
    obtain ⟨ranges, ranged, lengths, within⟩ := Region.exists_byteRanges? names [] r.members
    refine ⟨pieces, ?_, longest, fun piece mem => Region.bounding?_of_ofMembers? (made piece mem),
      last, ranges, ranged, ?_, within⟩
    · rw [List.flatMap_def, members, Region.flatten_cut]
    · rw [lengths, ← members, List.map_map]
      rfl
  · intro t mode names names' glyphs same
    have side := parseSide_congr same t
    refine ⟨?_, ?_⟩
    · rw [parseFormula, parseFormula, parseSettled, parseSettled, side]
    · rw [parseExpression, parseExpression, side]

/-- A times the cosine of X. -/
def cosine : List Glyph :=
  [.drawn 'A' 0 50 8 12, .drawn 'C' 10 50 8 12, .drawn 'O' 20 50 8 12, .drawn 'S' 30 50 8 12,
    .drawn 'X' 40 50 8 12]

/-- A run in which a name begins with another, and a list of names with one twice. -/
theorem known_names_are_a_set_of_cosine :
    Region.LongestFirst ["COS", "AC", "CO", ""] ∧
      (∃ r, Run.ofMembers? cosine = some r ∧ r.kind = .letter ∧ 1 < r.members.length ∧
        ∃ pieces : List Run, pieces.flatMap (·.members) = cosine ∧
          ∃ front last, pieces = front ++ [last] ∧
            Region.cutRun ["COS", "AC", "CO", ""] r none = wordEntries front ++ [.run last none]) ∧
      (∀ name, name ∈ ["COS", "AC", "CO", ""] ↔ name ∈ ["CO", "", "COS", "AC", "CO"]) ∧
      parseFormula .standard .eval ["COS", "AC", "CO", ""] cosine =
        parseFormula .standard .eval ["CO", "", "COS", "AC", "CO"] cosine := by
  have sorted : Region.LongestFirst ["COS", "AC", "CO", ""] := by
    unfold Region.LongestFirst
    decide +kernel
  have same : ∀ name, name ∈ ["COS", "AC", "CO", ""] ↔ name ∈ ["CO", "", "COS", "AC", "CO"] := by
    intro name
    simp only [List.mem_cons, List.not_mem_nil, or_false]
    grind
  have several : 1 < cosine.length := by decide
  obtain ⟨pieces, members, -, -, last, -⟩ := known_names_are_a_set.1 ["COS", "AC", "CO", ""]
    ⟨cosine, .letter, _⟩ none sorted rfl several
  exact ⟨sorted, ⟨_, rfl, rfl, several, pieces, members, last⟩, same,
    (known_names_are_a_set.2 .standard .eval _ _ cosine same).1⟩

end PenMath
