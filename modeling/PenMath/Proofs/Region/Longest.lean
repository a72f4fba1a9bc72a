import Mathlib.Data.String.Basic
import PenMath.Proofs.Region.Words

/-!
# The longest known name

Where names are listed by descending length, the first one that letters begin with is the longest
one (`pieceLength_eq_longest`), and which one is the longest does not depend on the list
(`longest_congr`). Length is counted in bytes when names are sorted and in letters when they are
cut off. The two agree on names that one text begins with, since one of these begins with the other.

The cuts can also be made in the text of a run, by bytes (`byteRanges?`): every range then begins
where a character begins, ends within the text and has as many bytes as the piece has letters.
-/

namespace PenMath.Region

variable {names names' : List String}

/-! ## The first and the longest -/

/-- The lengths of the known names that letters begin with. -/
def lengths (names : List String) (letters : List Char) : List Nat :=
  (names.filter (beginsWith letters)).map (·.toList.length)

/-- How many letters the longest known name has that letters begin with; one if there is none. -/
def longest (names : List String) (letters : List Char) : Nat :=
  (lengths names letters).max?.getD 1

theorem mem_lengths {letters : List Char} {n : Nat} : n ∈ lengths names letters ↔
    ∃ name ∈ names, beginsWith letters name = true ∧ name.toList.length = n := by
  simp only [lengths, List.mem_map, List.mem_filter, and_assoc]

/-- The longest known name does not depend on the order of the names or on how often they occur. -/
theorem longest_congr (same : ∀ name, name ∈ names ↔ name ∈ names') (letters : List Char) :
    longest names letters = longest names' letters := by
  have sameLengths : ∀ n, n ∈ lengths names letters ↔ n ∈ lengths names' letters := by
    intro n
    simp only [mem_lengths, same]
  unfold longest
  congr 1
  refine Option.ext fun n => ?_
  rw [List.max?_eq_some_iff, List.max?_eq_some_iff]
  simp only [sameLengths]

/-- Whether names are listed by descending length in bytes. -/
def LongestFirst (names : List String) : Prop :=
  names.Pairwise fun name later => later.utf8ByteSize ≤ name.utf8ByteSize

theorem prefix_of_beginsWith {letters : List Char} {name : String}
    (begins : beginsWith letters name = true) :
    name.toList ≠ [] ∧ name.toList <+: letters := by
  rw [beginsWith, Bool.and_eq_true, Bool.not_eq_true', List.isPrefixOf_iff_prefix] at begins
  exact ⟨by simpa using begins.1, begins.2⟩

theorem utf8ByteSize_eq_utf8Len (name : String) :
    name.utf8ByteSize = String.utf8Len name.toList := by
  rw [← String.utf8ByteSize_ofList, String.ofList_toList]

/-- Of two names that letters begin with, the one with more bytes has more letters. -/
theorem length_le_of_utf8ByteSize_le {letters : List Char} {name other : String}
    (begins : beginsWith letters name = true) (begins' : beginsWith letters other = true)
    (le : other.utf8ByteSize ≤ name.utf8ByteSize) :
    other.toList.length ≤ name.toList.length := by
  rcases List.prefix_or_prefix_of_prefix (prefix_of_beginsWith begins).2
    (prefix_of_beginsWith begins').2 with longer | shorter
  · -- what the other has beyond the name has no bytes
    obtain ⟨more, eq⟩ := longer
    rw [utf8ByteSize_eq_utf8Len, utf8ByteSize_eq_utf8Len, ← eq, String.utf8Len_append] at le
    have none : more = [] := String.utf8Len_eq_zero.mp (by omega)
    rw [← eq, none, List.append_nil]
  · exact shorter.length_le

/-- With the longest names first, the first that letters begin with is the longest. -/
theorem pieceLength_eq_longest (sorted : LongestFirst names) (letters : List Char) :
    pieceLength names letters = longest names letters := by
  unfold pieceLength longest
  cases found : names.find? (beginsWith letters) with
  | none =>
    have none : lengths names letters = [] := by
      rw [lengths, List.filter_eq_nil_iff.mpr (List.find?_eq_none.mp found), List.map_nil]
    rw [none]
    rfl
  | some name =>
    obtain ⟨begins, front, back, rfl, earlier⟩ := List.find?_eq_some_iff_append.mp found
    have greatest : (lengths (front ++ name :: back) letters).max? = some name.toList.length := by
      refine List.max?_eq_some_iff.mpr ⟨mem_lengths.mpr ⟨name, by simp, begins, rfl⟩, ?_⟩
      intro n mem
      obtain ⟨other, known, begins', rfl⟩ := mem_lengths.mp mem
      rcases List.mem_append.mp known with before | rest
      · have passed := earlier other before
        rw [begins'] at passed
        cases passed
      · rcases List.mem_cons.mp rest with rfl | later
        · exact Nat.le_refl _
        · refine length_le_of_utf8ByteSize_le begins begins' ?_
          exact (List.pairwise_cons.mp (List.pairwise_append.mp sorted).2.1).1 other later
    rw [greatest]
    rfl

/-! ## Pieces -/

/-- A piece has a letter at least, and no more than there are. -/
theorem pieceLength_bounds (names : List String) (letter : Char) (letters : List Char) :
    0 < pieceLength names (letter :: letters) ∧
      pieceLength names (letter :: letters) ≤ letters.length + 1 := by
  unfold pieceLength
  split
  next name found =>
    obtain ⟨notEmpty, begins⟩ := prefix_of_beginsWith (List.find?_some found)
    exact ⟨List.length_pos_iff.mpr notEmpty, begins.length_le⟩
  next => exact ⟨Nat.one_pos, Nat.succ_le_succ (Nat.zero_le _)⟩

/-- The first piece has as many glyphs as the name found has letters. -/
theorem length_first (names : List String) (g : Glyph) (rest : List Glyph) :
    (g :: rest.take (pieceLength names ((g :: rest).map (·.label)) - 1)).length =
      pieceLength names ((g :: rest).map (·.label)) := by
  have bounds := pieceLength_bounds names g.label (rest.map (·.label))
  rw [List.length_map] at bounds
  rw [List.map_cons, List.length_cons, List.length_take]
  omega

/-- Every piece has as many glyphs as the longest known name that what is left begins with. -/
theorem length_of_cut_eq (sorted : LongestFirst names) (glyphs : List Glyph) :
    ∀ front piece back, cut names glyphs = front ++ piece :: back →
      piece.length = longest names ((piece :: back).flatten.map (·.label)) := by
  fun_induction cut names glyphs with
  | case1 =>
    intro front piece back split
    simp at split
  | case2 g rest others ih =>
    intro front piece back split
    cases front with
    | nil =>
      obtain ⟨rfl, rfl⟩ := List.cons.inj split
      rw [List.flatten_cons, flatten_cut, List.cons_append, List.take_append_drop,
        ← pieceLength_eq_longest sorted]
      exact length_first names g rest
    | cons first front => exact ih front piece back (List.cons.inj split).2

theorem cut_congr (same : ∀ letters, pieceLength names letters = pieceLength names' letters)
    (glyphs : List Glyph) : cut names glyphs = cut names' glyphs := by
  fun_induction cut names glyphs with
  | case1 => rw [cut]
  | case2 g rest others ih => rw [cut_cons, ← same, ih]

/-- Letters are cut alike with any two lists of the same names, both with the longest first. -/
theorem cutWords_congr (sorted : LongestFirst names) (sorted' : LongestFirst names')
    (same : ∀ name, name ∈ names ↔ name ∈ names') (nodes : List Node) :
    cutWords names nodes = cutWords names' nodes := by
  have sameLength : ∀ letters, pieceLength names letters = pieceLength names' letters := by
    intro letters
    rw [pieceLength_eq_longest sorted, pieceLength_eq_longest sorted', longest_congr same]
  rw [cutWords, cutWords]
  congr 1
  funext node
  cases node with
  | fraction => rfl
  | run r power => rw [cutNode, cutNode, cutRun, cutRun, cut_congr sameLength]

/-- Runs made of pieces that are not empty have these as members. -/
theorem map_members {pieces : List (List Glyph)} (some : ∀ piece ∈ pieces, piece ≠ []) :
    (pieces.filterMap Run.ofMembers?).map (·.members) = pieces := by
  induction pieces with
  | nil => rfl
  | cons piece rest ih =>
    obtain ⟨first, others⟩ := List.forall_mem_cons.mp some
    cases piece with
    | nil => exact absurd rfl first
    | cons g members => rw [List.filterMap_cons_some (by rfl), List.map_cons, ih others]

theorem ne_nil_of_mem_cut {glyphs piece : List Glyph} (mem : piece ∈ cut names glyphs) :
    piece ≠ [] := by
  fun_induction cut names glyphs with
  | case1 => cases mem
  | case2 g rest others ih =>
    rcases List.mem_cons.mp mem with rfl | later
    · exact List.cons_ne_nil _ _
    · exact ih later

/-! ## Cuts in the text -/

/-- The text from a byte on, if a character begins there or the text ends. -/
def textFrom? (text : String) (start : Nat) : Option String :=
  if String.Pos.Raw.isValid text ⟨start⟩ then
    some (String.Pos.Raw.extract text ⟨start⟩ text.rawEndPos)
  else none

/-- How many bytes the next piece has: those of the first name that the text begins with, or
one. -/
def pieceBytes (names : List String) (text : String) : Nat :=
  match names.find? (beginsWith text.toList) with
  | some name => name.utf8ByteSize
  | none => 1

theorem pieceBytes_pos (names : List String) (text : String) : 0 < pieceBytes names text := by
  unfold pieceBytes
  split
  next name found =>
    rw [utf8ByteSize_eq_utf8Len, Nat.pos_iff_ne_zero, Ne, String.utf8Len_eq_zero]
    exact (prefix_of_beginsWith (List.find?_some found)).1
  next => exact Nat.one_pos

/-- The bytes of the pieces, first and behind the last, from one byte of the text on; none if a
piece would begin within a character or behind the text. -/
def byteRanges? (names : List String) (text : String) (start : Nat) : Option (List (Nat × Nat)) :=
  if start < text.utf8ByteSize then
    match textFrom? text start with
    | none => none
    | some rest =>
      let stop := start + pieceBytes names rest
      (byteRanges? names text stop).map ((start, stop) :: ·)
  else some []
termination_by text.utf8ByteSize - start
decreasing_by
  have := pieceBytes_pos names rest
  omega

/-- Labels are characters of one byte. -/
theorem utf8Size_label (g : Glyph) : g.label.utf8Size = 1 := by
  have known := g.known
  unfold Kind.ofLabel? at known
  rw [Char.utf8Size_eq_one_iff]
  split at known
  next digit => exact Nat.le_trans digit.2 (by decide)
  next =>
    split at known
    next letter => exact Nat.le_trans letter.2 (by decide)
    next =>
      split at known
      next operator =>
        simp only [Kind.operators, List.mem_cons, List.not_mem_nil, or_false] at operator
        rcases operator with label | label | label | label | label <;> rw [label] <;> decide
      next =>
        split at known
        next parenthesis =>
          rcases parenthesis with label | label <;> rw [label] <;> decide
        next => cases known

theorem utf8Len_labels (glyphs : List Glyph) :
    String.utf8Len (glyphs.map (·.label)) = glyphs.length := by
  induction glyphs with
  | nil => rfl
  | cons g rest ih =>
    rw [List.map_cons, String.utf8Len_cons, ih, utf8Size_label, List.length_cons]

/-- The labels of glyphs, as text. -/
def textOf (glyphs : List Glyph) : String := String.ofList (glyphs.map (·.label))

theorem utf8ByteSize_textOf (glyphs : List Glyph) :
    (textOf glyphs).utf8ByteSize = glyphs.length := by
  rw [textOf, String.utf8ByteSize_ofList, utf8Len_labels]

/-- A text cut after some of its letters goes on with the others: each is one byte long. -/
theorem textFrom?_textOf (front back : List Glyph) :
    textFrom? (textOf (front ++ back)) front.length = some (textOf back) := by
  have split : textOf (front ++ back) = textOf front ++ textOf back := by
    rw [textOf, List.map_append, String.ofList_append]
    rfl
  have valid : String.Pos.Raw.isValid (textOf (front ++ back)) ⟨front.length⟩ = true := by
    rw [String.Pos.Raw.isValid_eq_true_iff, String.Pos.Raw.isValid_iff_exists_append]
    refine ⟨textOf front, textOf back, split, ?_⟩
    rw [textOf, String.rawEndPos_ofList, utf8Len_labels]
  have extracted := String.extract_of_valid (front.map (·.label)) (back.map (·.label)) []
  rw [List.append_nil, ← List.map_append, utf8Len_labels, utf8Len_labels,
    ← List.length_append] at extracted
  rw [textFrom?, if_pos valid, textOf, String.rawEndPos_ofList, utf8Len_labels, extracted]
  rfl

/-- The bytes of a piece are its letters. -/
theorem pieceBytes_textOf (names : List String) (glyphs : List Glyph) :
    pieceBytes names (textOf glyphs) = pieceLength names (glyphs.map (·.label)) := by
  rw [pieceBytes, pieceLength, textOf, String.toList_ofList]
  cases found : names.find? (beginsWith (glyphs.map (·.label))) with
  | none => rfl
  | some name =>
    -- a name that labels begin with is made of labels
    obtain ⟨-, begins⟩ := prefix_of_beginsWith (List.find?_some found)
    rw [List.prefix_iff_eq_take, ← List.map_take] at begins
    show name.utf8ByteSize = name.toList.length
    rw [utf8ByteSize_eq_utf8Len, begins, utf8Len_labels, List.length_map]

/-- The cuts in the text of glyphs can be made, and are the cuts between the glyphs. -/
theorem exists_byteRanges? (names : List String) (front glyphs : List Glyph) :
    ∃ ranges, byteRanges? names (textOf (front ++ glyphs)) front.length = some ranges ∧
      ranges.map (fun range => range.2 - range.1) = (cut names glyphs).map List.length ∧
      ∀ range ∈ ranges, range.2 ≤ (textOf (front ++ glyphs)).utf8ByteSize := by
  fun_induction cut names glyphs generalizing front with
  | case1 =>
    rw [byteRanges?, utf8ByteSize_textOf, List.append_nil, if_neg (Nat.lt_irrefl _)]
    exact ⟨[], rfl, rfl, List.forall_mem_nil _⟩
  | case2 g rest others ih =>
    have length : (g :: rest.take others).length =
        pieceLength names ((g :: rest).map (·.label)) := length_first names g rest
    -- the search goes on with the first piece added to what lies in front
    have whole : front ++ g :: rest = (front ++ g :: rest.take others) ++ rest.drop others := by
      simp
    obtain ⟨ranges, following, lengths, within⟩ := ih (front ++ g :: rest.take others)
    rw [← whole, List.length_append, length] at following
    rw [← whole] at within
    have size := utf8ByteSize_textOf (front ++ g :: rest)
    rw [byteRanges?, if_pos (by rw [size, List.length_append, List.length_cons]; omega),
      textFrom?_textOf]
    simp only [pieceBytes_textOf, following, Option.map_some]
    refine ⟨_, rfl, ?_, ?_⟩
    · show (front.length + pieceLength names ((g :: rest).map (·.label)) - front.length) ::
          ranges.map (fun range => range.2 - range.1) =
        (g :: rest.take others).length :: (cut names (rest.drop others)).map List.length
      rw [length, Nat.add_sub_cancel_left, lengths]
    · refine List.forall_mem_cons.mpr ⟨?_, within⟩
      have bounds := (pieceLength_bounds names g.label (rest.map (·.label))).2
      rw [List.length_map] at bounds
      rw [size, List.length_append, List.length_cons]
      exact Nat.add_le_add_left bounds _

/-! ## Runs -/

/-- A run is drawn in the rectangle around its members. -/
theorem bounding?_of_ofMembers? {members : List Glyph} {r : Run}
    (made : Run.ofMembers? members = some r) :
    Rect.bounding? (members.map (·.rect)) = some r.rect := by
  cases members with
  | nil => cases made
  | cons g rest =>
    cases made
    rfl

/-- The pieces of a letter run are cut off from the left, each as long as the longest known name
allows; the last one keeps the exponent. -/
theorem exists_longest_pieces (sorted : LongestFirst names) {r : Run} (letter : r.kind = .letter)
    (several : 1 < r.members.length) (power : Option Expression) :
    ∃ pieces : List Run, pieces.map (·.members) = cut names r.members ∧
      (∀ front piece back, pieces = front ++ piece :: back →
        piece.members.length = longest names ((piece :: back).flatMap Run.chars)) ∧
      (∀ piece ∈ pieces, Run.ofMembers? piece.members = some piece) ∧
      ∃ front last, pieces = front ++ [last] ∧
        cutRun names r power = wordEntries front ++ [.run last power] := by
  have members : ((cut names r.members).filterMap Run.ofMembers?).map (·.members) =
      cut names r.members := map_members fun piece mem => ne_nil_of_mem_cut mem
  have some : (cut names r.members).filterMap Run.ofMembers? ≠ [] :=
    cut_runs_ne_nil names (List.length_pos_iff.mp (by omega))
  refine ⟨_, members, ?_, ?_, ?_⟩
  · intro front piece back split
    rw [split, List.map_append, List.map_cons] at members
    rw [length_of_cut_eq sorted _ _ _ _ members.symm]
    congr 1
    rw [← List.map_cons, ← List.flatMap_def, List.map_flatMap]
    rfl
  · intro piece mem
    obtain ⟨glyphs, -, made⟩ := List.mem_filterMap.mp mem
    cases glyphs with
    | nil => cases made
    | cons g rest =>
      cases made
      rfl
  · obtain ⟨front, last, split⟩ := List.eq_nil_or_concat _ |>.resolve_left some
    rw [List.concat_eq_append] at split
    refine ⟨front, last, split, ?_⟩
    rw [cutRun, if_pos ⟨letter, several⟩, split, withLastPower_concat]

end PenMath.Region
