import PenMath.Proofs.Formula.NameOrder
import PenMath.Proofs.Region.DrawingOrder
import PenMath.Proofs.Region.Segments
import PenMath.Proofs.Tree.Tokens

/-!
# Single lines

Glyphs that stand in one line are read as a text is cut into tokens. All that is meant for two
dimensions has nothing to do there. No division sign has anything above or below it, so each one is
taken out of the line, put behind its end and back into its place by the sort
(`exists_stack_of_clear`, `parse_of_clear`). And no glyph is above a row of glyphs to its left, so
the rows that belong together, which are the tokens of the labels (`map_rows`), make up the segments
of the line (`exists_isCut_of_rows`). What is left to do is to cut letters into words.

`IsSingleLine` is decided by trying every row.
-/

namespace PenMath

theorem Run.IsToken.kind_eq {r : Run} (token : r.IsToken) {g : Glyph} (mem : g ∈ r.members) :
    g.kind = r.kind :=
  g.kind_of_label rfl (token.kinds g mem)

namespace Region

variable {items : List Item} {names : List String}

/-! ## Division signs in the line -/

/-- Whether neither of two items is a bar that the other one overlaps. -/
def AreClear (a b : Item) : Prop :=
  (∀ bar ∈ a.glyphWith? '/', isOver bar b = false) ∧
    ∀ bar ∈ b.glyphWith? '/', isOver bar a = false

theorem AreClear.symm {a b : Item} (h : AreClear a b) : AreClear b a := ⟨h.2, h.1⟩

/-- Bars with nothing around them all stay in the line. -/
theorem exists_stack_of_clear (read : Reader) (signs : List Glyph)
    (clear : items.Pairwise AreClear) :
    ∃ out, stack read signs items = .ok out ∧ out.Perm (items ++ signs.map .glyph) := by
  induction n : items.length using Nat.strongRecOn generalizing items signs with
  | ind n ih =>
    subst n
    cases taken : takeWidestBar? items with
    | none => exact ⟨_, stack_of_none taken, .refl _⟩
    | some found =>
      obtain ⟨bar, others⟩ := found
      have perm := takeWidestBar?_perm taken
      obtain ⟨around, clearOthers⟩ := List.pairwise_cons.mp (perm.symm.pairwise clear AreClear.symm)
      have isBar : bar ∈ (Item.glyph bar).glyphWith? '/' :=
        glyphWith?_eq_some.mpr ⟨rfl, (takeWidestBar?_split taken).1⟩
      have notOver : ∀ item ∈ others, isOver bar item = false :=
        fun item mem => (around item mem).1 bar isBar
      have noneAbove : above bar others = [] :=
        List.filter_eq_nil_iff.mpr fun item mem => by simp [notOver item mem]
      have noneBelow : below bar others = [] :=
        List.filter_eq_nil_iff.mpr fun item mem => by simp [notOver item mem]
      have allBeside : beside bar others = others :=
        List.filter_eq_self.mpr fun item mem => by simp [notOver item mem]
      have shorter := length_takeWidestBar? taken
      obtain ⟨out, stacked, permOut⟩ := ih others.length (by omega) (signs ++ [bar]) clearOthers rfl
      rw [stack_of_inline taken (by rw [noneAbove, noneBelow]; rfl), allBeside]
      refine ⟨out, stacked, permOut.trans ?_⟩
      -- the bar goes from the items to the signs
      rw [List.map_append, List.map_singleton, ← List.append_assoc]
      exact (List.perm_append_singleton _ _).trans (perm.append_right _)

/-- A region whose bars all stay in the line is read in one step. -/
theorem parse_of_clear (s : Setting) (depth : Nat) (clear : items.Pairwise AreClear)
    (centers : items.Pairwise fun a b => a.rect.x.place ≠ b.rect.x.place) :
    parse s depth items = (lineAt s depth items).map (cutWords s.names) := by
  obtain ⟨out, stacked, perm⟩ := exists_stack_of_clear (parse s depth) [] clear
  rw [List.map_nil, List.append_nil] at perm
  have resolved : fractionsAt s depth items = .ok out := stacked
  rw [parse_eq, resolved, lineAt_eq_of_sameColumns s depth (sameColumns_of_perm perm.symm centers)]
  show (lineAt s depth out >>= fun entries => pure (cutWords s.names entries)) = _
  cases lineAt s depth out <;> rfl

/-! ## Rows -/

/-- Whether the labels of two neighbours belong to one token. -/
def rowJoins (g h : Glyph) : Bool := joins g.label h.label

/-- Neighbours on one line join if they are both digits or both letters. -/
theorem rowJoins_iff {g h : Glyph} :
    rowJoins g h = true ↔ g.kind.merges = true ∧ h.kind = g.kind := by
  rw [rowJoins, joins_iff, g.ofLabel?_label, h.ofLabel?_label]
  constructor
  · intro joined
    obtain ⟨k, merges, own, other⟩ := joined
    rw [Option.some.inj own, Option.some.inj other]
    exact ⟨merges, rfl⟩
  · intro same
    exact ⟨g.kind, same.1, rfl, congrArg some same.2⟩

/-- The longest rows of glyphs that belong together. -/
def rows (glyphs : List Glyph) : List (List Glyph) := glyphs.splitBy rowJoins

/-- The labels of the rows are the tokens of the labels. -/
theorem map_rows (glyphs : List Glyph) :
    (rows glyphs).map (·.map (·.label)) = tokens (glyphs.map (·.label)) := by
  have apart := List.isChain_getLast_head_splitBy rowJoins glyphs
  refine Eq.symm (List.splitBy_eq_iff.mpr ⟨?_, ?_, ?_, ?_⟩)
  · rw [← List.map_flatten, rows, List.flatten_splitBy]
  · intro mem
    obtain ⟨row, mem, empty⟩ := List.mem_map.mp mem
    exact List.ne_nil_of_mem_splitBy mem (List.map_eq_nil_iff.mp empty)
  · intro labels mem
    obtain ⟨row, member, rfl⟩ := List.mem_map.mp mem
    exact (List.isChain_map _).mpr (List.isChain_of_mem_splitBy member)
  · refine (List.isChain_map _).mpr (apart.imp ?_)
    intro row next between
    obtain ⟨some, some', notJoined⟩ := between
    refine ⟨by simpa using some, by simpa using some', ?_⟩
    rw [List.getLast_map, List.head_map]
    exact notJoined

/-- All glyphs of a row are of one kind. -/
theorem kind_of_row {g : Glyph} {row : List Glyph}
    (chain : (g :: row).IsChain fun a b => rowJoins a b = true) :
    ∀ h ∈ g :: row, h.kind = g.kind := by
  induction row generalizing g with
  | nil => simp
  | cons next row ih =>
    rw [List.isChain_cons_cons, rowJoins_iff] at chain
    obtain ⟨⟨-, same⟩, chain⟩ := chain
    intro h mem
    rcases List.mem_cons.mp mem with rfl | later
    · rfl
    · rw [ih chain h later, same]

/-! ## Level lines -/

/-- Whether no glyph of a line is above the glyphs of a row to its left. -/
def IsLevelLine (glyphs : List Glyph) : Prop :=
  ∀ front row back rect, glyphs = front ++ row ++ back →
    Rect.bounding? (row.map (·.rect)) = some rect → ∀ g ∈ back, ¬g.rect.bottom ≤ rect.top

theorem IsLevelLine.suffix {front back : List Glyph} (h : IsLevelLine (front ++ back)) :
    IsLevelLine back := by
  intro before row after rect split
  exact h (front ++ before) row after rect (by rw [split]; simp)

theorem takesAsPower_of_not_above {r : Run} {power : Option Expression} {g : Glyph}
    (notAbove : ¬g.rect.bottom ≤ r.rect.top) :
    takesAsPower (.run r power) (.glyph g) = false := by
  simp [takesAsPower, Item.rect, notAbove]

/-- A row is the base of one entry, and that is a token. -/
theorem exists_base_of_row {row back : List Glyph} (some : row ≠ [])
    (chain : row.IsChain fun a b => rowJoins a b = true) (level : IsLevelLine (row ++ back)) :
    ∃ r : Run, r.members = row ∧ r.IsToken ∧ IsBase (row.map .glyph) (.run r none) := by
  obtain ⟨g, rest, rfl⟩ := List.exists_cons_of_ne_nil some
  have kinds := kind_of_row chain
  cases rest with
  | nil => exact ⟨.single g, rfl, Run.isToken_single g, .item (.glyph g) rfl⟩
  | cons next rest =>
    have merges : g.kind.merges = true := (rowJoins_iff.mp (List.isChain_cons_cons.mp chain).1).1
    refine ⟨⟨g :: next :: rest, g.kind, _⟩, rfl, ⟨List.cons_ne_nil _ _, ?_, ?_, rfl⟩,
      .run merges kinds rfl ?_⟩
    · intro h mem
      rw [h.ofLabel?_label, kinds h mem]
    · intro single
      rcases single with kind | kind
      · rw [show g.kind = _ from kind] at merges
        cases merges
      · rw [show g.kind = _ from kind] at merges
        cases merges
    · intro front h after before split bounds
      refine takesAsPower_of_not_above (level [] front (h :: after ++ back) before ?_ bounds h ?_)
      · rw [split]
        simp
      · simp

/-- A glyph that does not join the last member does not join the run. -/
theorem join?_of_apart {r : Run} (token : r.IsToken) {last g : Glyph} (mem : last ∈ r.members)
    (apart : rowJoins last g = false) : join? (.run r none) (.glyph g) = none := by
  have notAccepted : ¬r.accepts g = true := by
    intro accepted
    rw [Run.accepts, Bool.and_eq_true, decide_eq_true_eq, ← token.kind_eq mem,
      ← rowJoins_iff, apart] at accepted
    cases accepted
  exact if_neg notAccepted

/-- A row of a level line is a segment without exponent where the next row cannot go on with it. -/
theorem IsCut.row {R : Reading} {r : Run} {back : List Glyph} {nodes : List Node}
    (token : r.IsToken) (isBase : IsBase (r.members.map .glyph) (.run r none))
    (level : IsLevelLine (r.members ++ back))
    (apart : ∀ g ∈ back.head?, ∃ last ∈ r.members, rowJoins last g = false)
    (following : IsCut R (back.map .glyph) nodes) :
    IsCut R ((r.members ++ back).map .glyph) (.run r none :: nodes) := by
  have heads : ∀ item ∈ (back.map Item.glyph).head?, ∃ g ∈ back.head?, item = .glyph g := by
    intro item first
    rw [List.head?_map] at first
    obtain ⟨g, isHead, rfl⟩ := Option.map_eq_some_iff.mp first
    exact ⟨g, isHead, rfl⟩
  rw [List.map_append]
  refine .segment isBase ?_ .bare ?_ following
  · refine takeWhile_append_of_head? (List.forall_mem_nil _) ?_
    intro item first
    obtain ⟨g, isHead, rfl⟩ := heads item first
    exact takesAsPower_of_not_above
      (level [] r.members back r.rect rfl token.bounds g (List.mem_of_mem_head? isHead))
  · intro _ item first
    obtain ⟨g, isHead, rfl⟩ := heads item first
    obtain ⟨last, mem, notJoined⟩ := apart g isHead
    exact join?_of_apart token mem notJoined

/-- The rows of a level line are the bases of its cut, and nothing is an exponent. -/
theorem exists_isCut_of_rows (R : Reading) (lines : List (List Glyph)) (some : [] ∉ lines)
    (chains : ∀ row ∈ lines, row.IsChain fun a b => rowJoins a b = true)
    (apart : lines.IsChain fun row next => ∃ last first, rowJoins (row.getLast last)
      (next.head first) = false)
    (level : IsLevelLine lines.flatten) :
    ∃ runs : List Run, runs.map (·.members) = lines ∧ (∀ r ∈ runs, r.IsToken) ∧
      IsCut R (lines.flatten.map .glyph) (wordEntries runs) := by
  induction lines with
  | nil => exact ⟨[], rfl, List.forall_mem_nil _, .nil⟩
  | cons row lines ih =>
    obtain ⟨notEmpty, some⟩ := not_or.mp (mt List.mem_cons.mpr some)
    obtain ⟨chain, chains⟩ := List.forall_mem_cons.mp chains
    obtain ⟨before, apart⟩ := List.isChain_cons.mp apart
    rw [List.flatten_cons] at level
    obtain ⟨runs, members, tokens, cut⟩ := ih some chains apart level.suffix
    obtain ⟨r, rfl, token, isBase⟩ := exists_base_of_row (Ne.symm notEmpty) chain level
    refine ⟨r :: runs, by rw [List.map_cons, members],
      List.forall_mem_cons.mpr ⟨token, tokens⟩, .row token isBase level ?_ cut⟩
    intro g isHead
    cases lines with
    | nil => cases isHead
    | cons next lines =>
      -- the first glyph after this row is that of the next one
      obtain ⟨last, first, notJoined⟩ := before next rfl
      obtain ⟨h, others, rfl⟩ := List.exists_cons_of_ne_nil first
      cases isHead
      exact ⟨_, List.getLast_mem last, notJoined⟩

/-! ## Tokens and words -/

/-- Letters cut from the left, each time behind the longest known name. -/
def words (names : List String) : List Char → List (List Char)
  | [] => []
  | c :: rest =>
    let others := longest names (c :: rest) - 1
    (c :: rest.take others) :: words names (rest.drop others)
termination_by letters => letters.length
decreasing_by simp only [List.length_drop, List.length_cons]; omega

/-- A token of letters is cut into words, every other one is left whole. -/
def lexeme (names : List String) (token : List Char) : List (List Char) :=
  if token.all Char.isUpper then words names token else [token]

/-- The tokens of a text, with their letters cut into words. -/
def lexemes (names : List String) (text : List Char) : List (List Char) :=
  (tokens text).flatMap (lexeme names)

@[simp] theorem words_nil (names : List String) : words names [] = [] := by
  rw [words]

theorem words_singleton (names : List String) (c : Char) : words names [c] = [[c]] := by
  rw [words]
  simp

/-- With the longest names first, glyphs are cut as their labels are. -/
theorem map_label_cut (sorted : LongestFirst names) (glyphs : List Glyph) :
    (cut names glyphs).map (·.map (·.label)) = words names (glyphs.map (·.label)) := by
  fun_induction cut names glyphs with
  | case1 => rw [List.map_nil, List.map_nil, words_nil]
  | case2 g rest others ih =>
    have count : others = longest names (g.label :: rest.map (·.label)) - 1 := by
      rw [← pieceLength_eq_longest sorted]
      rfl
    have first : words names ((g :: rest).map (·.label)) =
        (g :: rest.take others).map (·.label) ::
          words names ((rest.drop others).map (·.label)) := by
      rw [List.map_cons, words, ← count, ← List.map_take, ← List.map_drop]
      rfl
    rw [List.map_cons, ih, first]

/-- The labels of a token are capital letters if it is a token of letters, and not all of them are
otherwise. -/
theorem all_isUpper_chars {r : Run} (token : r.IsToken) :
    r.chars.all Char.isUpper = true ↔ r.kind = .letter := by
  have upper : ∀ g ∈ r.members, g.label.isUpper = true ↔ r.kind = .letter := by
    intro g mem
    rw [← Kind.ofLabel?_eq_letter, token.kinds g mem, Option.some.injEq]
  simp only [Run.chars, List.all_map, List.all_eq_true]
  constructor
  · intro all
    obtain ⟨g, rest, members⟩ := List.exists_cons_of_ne_nil token.notEmpty
    have mem : g ∈ r.members := by
      rw [members]
      exact List.mem_cons_self
    exact (upper g mem).mp (all g mem)
  · intro letter g mem
    exact (upper g mem).mpr letter

/-- What a token of letters is cut into are tokens of letters. -/
theorem isToken_of_mem_cut {r piece : Run} (token : r.IsToken) (letter : r.kind = .letter)
    (made : Run.ofMembers? piece.members = some piece)
    (cutOff : piece.members ∈ cut names r.members) : piece.IsToken := by
  refine (Run.isToken_ofMembers? made fun g member => ?_).1
  rw [← letter]
  exact token.kinds g (subset_of_mem_cut cutOff member)

/-- A token that is left whole has itself as its only lexeme. -/
theorem lexeme_of_whole {r : Run} (token : r.IsToken)
    (whole : ¬(r.kind = .letter ∧ 1 < r.members.length)) : lexeme names r.chars = [r.chars] := by
  by_cases letter : r.kind = .letter
  · have short : ¬1 < r.members.length := fun several => whole ⟨letter, several⟩
    obtain ⟨g, rest, members⟩ := List.exists_cons_of_ne_nil token.notEmpty
    rw [members, List.length_cons] at short
    rw [lexeme, if_pos ((all_isUpper_chars token).mpr letter), Run.chars, members,
      List.length_eq_zero_iff.mp (by omega : rest.length = 0)]
    exact words_singleton names g.label
  · exact if_neg (mt (all_isUpper_chars token).mp letter)

/-- A token is cut into tokens with the lexemes of its labels. -/
theorem exists_cutRun_eq_wordEntries (sorted : LongestFirst names) {r : Run} (token : r.IsToken) :
    ∃ pieces : List Run, cutRun names r none = wordEntries pieces ∧
      (∀ piece ∈ pieces, piece.IsToken) ∧ pieces.flatMap (·.members) = r.members ∧
      pieces.map Run.chars = lexeme names r.chars := by
  by_cases cuts : r.kind = .letter ∧ 1 < r.members.length
  · obtain ⟨letter, several⟩ := cuts
    obtain ⟨pieces, cutMembers, -, made, front, last, rfl, cutOut⟩ :=
      exists_longest_pieces sorted letter several none
    refine ⟨front ++ [last], ?_, ?_, ?_, ?_⟩
    · rw [cutOut, wordEntries, wordEntries, List.map_append]
      rfl
    · intro piece mem
      have cutOff : piece.members ∈ cut names r.members := by
        rw [← cutMembers]
        exact List.mem_map_of_mem mem
      exact isToken_of_mem_cut token letter (made piece mem) cutOff
    · rw [List.flatMap_def, cutMembers, flatten_cut]
    · rw [lexeme, if_pos ((all_isUpper_chars token).mpr letter), Run.chars, ← map_label_cut sorted,
        ← cutMembers, List.map_map]
      rfl
  · exact ⟨[r], if_neg cuts, List.forall_mem_singleton.mpr token, List.append_nil _,
      (lexeme_of_whole token cuts).symm⟩

/-- A line of tokens is cut into tokens with the lexemes of their labels. -/
theorem exists_cutWords_eq_wordEntries (sorted : LongestFirst names) {runs : List Run}
    (tokens : ∀ r ∈ runs, r.IsToken) :
    ∃ pieces : List Run, cutWords names (wordEntries runs) = wordEntries pieces ∧
      (∀ piece ∈ pieces, piece.IsToken) ∧
      pieces.flatMap (·.members) = runs.flatMap (·.members) ∧
      pieces.map Run.chars = (runs.map Run.chars).flatMap (lexeme names) := by
  induction runs with
  | nil => exact ⟨[], rfl, List.forall_mem_nil _, rfl, rfl⟩
  | cons r runs ih =>
    obtain ⟨token, tokens⟩ := List.forall_mem_cons.mp tokens
    obtain ⟨first, cutFirst, firstTokens, firstMembers, firstChars⟩ :=
      exists_cutRun_eq_wordEntries sorted token
    obtain ⟨others, cutOthers, otherTokens, otherMembers, otherChars⟩ := ih tokens
    refine ⟨first ++ others, ?_, List.forall_mem_append.mpr ⟨firstTokens, otherTokens⟩, ?_, ?_⟩
    · show cutWords names (.run r none :: wordEntries runs) = _
      rw [cutWords_cons, cutNode, cutFirst, cutOthers, wordEntries, wordEntries, wordEntries,
        List.map_append]
    · rw [List.flatMap_append, firstMembers, otherMembers, List.flatMap_cons]
    · rw [List.map_append, firstChars, otherChars, List.map_cons, List.flatMap_cons]

/-! ## Text -/

/-- Numbers and operators are written one after the other. -/
theorem chars_wordEntries {runs : List Run}
    (plain : ∀ r ∈ runs, r.kind = .digit ∨ r.kind = .operator) :
    Expression.chars (wordEntries runs) = runs.flatMap Run.chars := by
  rw [Expression.chars]
  have own : ∀ r : Run, (Node.run r none).chars = r.chars := fun r => List.append_nil _
  induction runs with
  | nil => rfl
  | cons r runs ih =>
    obtain ⟨first, others⟩ := List.forall_mem_cons.mp plain
    cases runs with
    | nil =>
      show (Node.run r none).chars = _
      rw [own, List.flatMap_singleton]
    | cons next runs =>
      have noTimes : Node.times (.run r none) (.run next none) = [] := by
        refine if_neg ?_
        have second := others next List.mem_cons_self
        rcases first with kind | kind <;> rcases second with kind' | kind' <;>
          simp [Node.needsTimes, kind, kind']
      show (Node.run r none).chars ++ (Node.times (.run r none) (.run next none) ++
        baseChars (wordEntries (next :: runs))) = _
      rw [own, noTimes, List.nil_append, ih others]
      rfl

/-! ## Single lines -/

/-- Glyphs from left to right. -/
def inOrder (glyphs : List Glyph) : List Glyph := sortByKey (·.rect.x.place) glyphs

/-- Whether glyphs stand in one line: no two have one center, no division sign has anything above or
below it, and no glyph is above a row of glyphs to its left. -/
structure IsSingleLine (glyphs : List Glyph) : Prop where
  centers : glyphs.Pairwise fun g h => g.rect.x.place ≠ h.rect.x.place
  bars : ∀ bar ∈ glyphs, bar.label = '/' → ∀ g ∈ glyphs, g ≠ bar →
    g.rect.overlapsAcross bar.rect = false
  level : IsLevelLine (inOrder glyphs)

variable {glyphs : List Glyph}

/-- A line is level if no part of it lies below a glyph that comes later. -/
theorem isLevelLine_iff : IsLevelLine glyphs ↔
    ∀ i ≤ glyphs.length, ∀ n ≤ glyphs.length,
      ∀ rect ∈ Rect.bounding? (((glyphs.drop i).take n).map (·.rect)),
        ∀ g ∈ glyphs.drop (i + n), ¬g.rect.bottom ≤ rect.top := by
  constructor
  · intro level i _ n _ rect bounds
    refine level (glyphs.take i) ((glyphs.drop i).take n) _ rect ?_ bounds
    rw [List.append_assoc, ← List.drop_drop, List.take_append_drop, List.take_append_drop]
  · intro level front row back rect split bounds g mem
    refine level front.length ?_ row.length ?_ rect ?_ g ?_
    · rw [split, List.length_append, List.length_append]
      omega
    · rw [split, List.length_append, List.length_append]
      omega
    · rw [split, List.append_assoc, List.drop_left, List.take_left]
      exact bounds
    · rw [split, ← List.length_append, List.drop_left]
      exact mem

instance : Decidable (IsLevelLine glyphs) := decidable_of_iff _ isLevelLine_iff.symm

theorem isSingleLine_iff : IsSingleLine glyphs ↔
    (glyphs.Pairwise fun g h => g.rect.x.place ≠ h.rect.x.place) ∧
      (∀ bar ∈ glyphs, bar.label = '/' → ∀ g ∈ glyphs, g ≠ bar →
        g.rect.overlapsAcross bar.rect = false) ∧
      IsLevelLine (inOrder glyphs) :=
  ⟨fun line => ⟨line.centers, line.bars, line.level⟩, fun line => ⟨line.1, line.2.1, line.2.2⟩⟩

instance : Decidable (IsSingleLine glyphs) := decidable_of_iff _ isSingleLine_iff.symm

/-- On a single line, no bar overlaps another glyph. -/
theorem IsSingleLine.clear (line : IsSingleLine glyphs) :
    (glyphs.map .glyph).Pairwise AreClear := by
  refine List.pairwise_map.mpr (line.centers.imp_of_mem ?_)
  intro g h mem mem' differ
  have ne : g ≠ h := fun same => differ (by rw [same])
  refine ⟨?_, ?_⟩
  · intro bar isBar
    obtain ⟨same, label⟩ := glyphWith?_eq_some.mp isBar
    cases same
    exact line.bars g mem label h mem' ne.symm
  · intro bar isBar
    obtain ⟨same, label⟩ := glyphWith?_eq_some.mp isBar
    cases same
    exact line.bars h mem' label g mem ne

/-- The base line of a level line, before its letters are cut. -/
theorem exists_lineAt_of_level (s : Setting) (depth : Nat) (level : IsLevelLine (inOrder glyphs)) :
    ∃ runs : List Run, lineAt s depth (glyphs.map .glyph) = .ok (wordEntries runs) ∧
      (∀ r ∈ runs, r.IsToken) ∧ runs.map (·.members) = rows (inOrder glyphs) := by
  have flat := List.flatten_splitBy rowJoins (inOrder glyphs)
  have sorted : leftToRight (glyphs.map .glyph) = (inOrder glyphs).map .glyph :=
    sortByKey_map _ _ Item.glyph (fun g => rfl) glyphs
  obtain ⟨runs, members, tokens, cut⟩ := exists_isCut_of_rows
    (fun l e => decide (s.maxDepth ≤ depth) = false ∧ parse s (depth + 1) l = .ok e)
    (rows (inOrder glyphs)) (List.nil_notMem_splitBy _ _)
    (fun row mem => List.isChain_of_mem_splitBy mem) (List.isChain_getLast_head_splitBy _ _)
    (by rw [rows, flat]; exact level)
  rw [rows, flat, ← sorted] at cut
  exact ⟨runs, line_of_isCut cut, tokens, members⟩

/-- The lexemes of a text depend on the known names only as a set. -/
theorem lexemes_congr {names' : List String} (same : ∀ name, name ∈ names ↔ name ∈ names')
    (text : List Char) : lexemes names text = lexemes names' text := by
  have sameWords : ∀ letters, words names letters = words names' letters := by
    intro letters
    fun_induction words names letters with
    | case1 => rw [words_nil]
    | case2 c rest others ih => rw [words, ← longest_congr same, ih]
  have sameLexeme : lexeme names = lexeme names' := by
    funext token
    rw [lexeme, lexeme, sameWords]
  rw [lexemes, lexemes, sameLexeme]

/-- On a single line reading is cutting a text into tokens. Whatever the names, the depth and the
limits, glyphs that stand in one line are read; what is read has neither fractions nor exponents,
its glyphs are those of the line from left to right, and its runs are the lexemes of their labels.
Digits and plus signs are written as they stand. -/
theorem single_line_is_lexed (t : Thresholds) (names : List String) (depth : Nat)
    (line : IsSingleLine glyphs) :
    ∃ runs : List Run,
      parse (.of t names) depth (glyphs.map .glyph) = .ok (runs.map fun r => .run r none) ∧
      (∀ r ∈ runs, r.IsToken) ∧
      runs.flatMap (·.members) = inOrder glyphs ∧
      runs.map Run.chars = lexemes names ((inOrder glyphs).map (·.label)) ∧
      ((∀ g ∈ glyphs, g.label = '+' ∨ g.label.isDigit = true) →
        Expression.text (runs.map fun r => .run r none) =
          String.ofList ((inOrder glyphs).map (·.label))) := by
  obtain ⟨runs, read, tokens, members⟩ := exists_lineAt_of_level (.of t names) depth line.level
  obtain ⟨pieces, cutOut, pieceTokens, pieceMembers, pieceChars⟩ :=
    exists_cutWords_eq_wordEntries (longestFirst_sorted names) tokens
  have ordered : pieces.flatMap (·.members) = inOrder glyphs := by
    rw [pieceMembers, List.flatMap_def, members, rows, List.flatten_splitBy]
  refine ⟨pieces, ?_, pieceTokens, ordered, ?_, ?_⟩
  · rw [parse_of_clear _ depth line.clear (List.pairwise_map.mpr line.centers), read]
    exact congrArg Except.ok cutOut
  · have labels : runs.map Run.chars = PenMath.tokens ((inOrder glyphs).map (·.label)) := by
      rw [← map_rows, ← members, List.map_map]
      rfl
    rw [pieceChars, labels]
    exact lexemes_congr (fun name => mem_longestFirst) _
  · intro plain
    -- between numbers and operators no "*" is written
    have kinds : ∀ r ∈ pieces, r.kind = .digit ∨ r.kind = .operator := by
      intro r mem
      obtain ⟨g, rest, own⟩ := List.exists_cons_of_ne_nil (pieceTokens r mem).notEmpty
      have member : g ∈ r.members := by rw [own]; exact List.mem_cons_self
      have drawn : g ∈ inOrder glyphs := by
        rw [← ordered]
        exact List.mem_flatMap.mpr ⟨r, mem, member⟩
      rw [← (pieceTokens r mem).kind_eq member]
      rcases plain g ((sortByKey_perm _ glyphs).mem_iff.mp drawn) with plus | digit
      · exact .inr (g.kind_of_label plus rfl)
      · exact .inl (g.kind_of_label rfl (Kind.ofLabel?_eq_digit.mpr digit))
    show String.ofList (Expression.chars (wordEntries pieces)) = _
    rw [chars_wordEntries kinds, ← ordered, List.map_flatMap]
    rfl

/-- Twelve over A, times B, plus C, from the sign to the letters and the digits. -/
def quotientInLine : List Glyph :=
  [.drawn '/' 20 50 8 12, .drawn '+' 50 50 8 8, .drawn 'C' 60 50 8 12, .drawn 'B' 40 50 8 12,
    .drawn 'A' 30 50 8 12, .drawn '2' 10 50 8 12, .drawn '1' 0 50 8 12]

/-- One plus twenty-three, from right to left. -/
def sumInLine : List Glyph :=
  [.drawn '3' 30 50 8 12, .drawn '2' 20 50 8 12, .drawn '+' 10 50 8 8, .drawn '1' 0 50 8 12]

/-- A quotient of numbers and names, and a sum, listed out of order. -/
theorem single_line_is_lexed_of_quotient :
    IsSingleLine quotientInLine ∧ IsSingleLine sumInLine ∧
      (∃ runs : List Run,
        parse (.of .standard ["B", "AB"]) 9 (quotientInLine.map .glyph) =
          .ok (runs.map fun r => .run r none) ∧
        runs.map Run.chars = [['1', '2'], ['/'], ['A', 'B'], ['+'], ['C']]) ∧
      ∃ runs : List Run,
        parse (.of .standard []) 0 (sumInLine.map .glyph) = .ok (runs.map fun r => .run r none) ∧
        Expression.text (runs.map fun r => .run r none) = "1+23" := by
  have line : IsSingleLine quotientInLine := by decide +kernel
  have line' : IsSingleLine sumInLine := by decide +kernel
  obtain ⟨runs, read, -, -, chars, -⟩ := single_line_is_lexed .standard ["B", "AB"] 9 line
  obtain ⟨runs', read', -, -, -, text⟩ := single_line_is_lexed .standard [] 0 line'
  have lexed : lexemes ["B", "AB"] ((inOrder quotientInLine).map (·.label)) =
      [['1', '2'], ['/'], ['A', 'B'], ['+'], ['C']] := by decide +kernel
  have labels : (inOrder sumInLine).map (·.label) = ['1', '+', '2', '3'] := by decide +kernel
  refine ⟨line, line', ⟨runs, read, chars.trans lexed⟩, runs', read', ?_⟩
  rw [text (by decide +kernel), labels]

end Region

end PenMath
