import PenMath.Proofs.Tree.Ink
import PenMath.Proofs.Tree.WellFormed

/-!
# Cutting letters keeps a line well formed

Every piece of a letter run is a single letter or a known name (`isWord_of_mem_cut`), so a line
whose letters were not yet looked at becomes one in which every letter run is a word
(`isBaseLine_cutWords`).
The pieces are letters again and the exponent stays on one of them, so neither the numbers of the
line nor the lines within it change.
-/

namespace PenMath

/-- Words as entries without exponents. -/
def wordEntries (words : List Run) : Expression := words.map fun r => .run r none

namespace Region

variable {names : List String}

/-! ## Pieces -/

/-- A piece has one letter, or it has those of a known name that the letters begin with. -/
theorem pieceLength_cases (names : List String) (letters : List Char) :
    pieceLength names letters = 1 ∨ ∃ name ∈ names, 0 < pieceLength names letters ∧
      letters.take (pieceLength names letters) = name.toList := by
  unfold pieceLength
  split
  next name found =>
    have begins := List.find?_some found
    rw [beginsWith, Bool.and_eq_true, Bool.not_eq_true', List.isPrefixOf_iff_prefix] at begins
    obtain ⟨notEmpty, begins⟩ := begins
    refine .inr ⟨name, List.mem_of_find?_eq_some found, ?_, ?_⟩
    · exact List.length_pos_iff.mpr (by simpa using notEmpty)
    · exact (List.prefix_iff_eq_take.mp begins).symm
  next => exact .inl rfl

/-- The pieces of a letter run are single letters and known names. -/
theorem isWord_of_mem_cut {glyphs piece : List Glyph} (mem : piece ∈ cut names glyphs) :
    piece.length = 1 ∨ String.ofList (piece.map (·.label)) ∈ names := by
  fun_induction cut names glyphs with
  | case1 => cases mem
  | case2 g rest others ih =>
    rcases List.mem_cons.mp mem with rfl | later
    · -- the first piece has as many letters as the first name found
      rcases pieceLength_cases names ((g :: rest).map (·.label)) with single | whole
      · left
        rw [show others = 0 from by simp only [others, single]]
        rfl
      · right
        obtain ⟨name, known, positive, letters⟩ := whole
        have taken : g :: rest.take others = (g :: rest).take (others + 1) := rfl
        have count : others + 1 = pieceLength names ((g :: rest).map (·.label)) := by
          simp only [others]
          omega
        rw [taken, count, List.map_take, letters, String.ofList_toList]
        exact known
    · exact ih later

theorem subset_of_mem_cut {glyphs piece : List Glyph} (mem : piece ∈ cut names glyphs) :
    piece ⊆ glyphs := by
  have all := List.sublist_flatten_of_mem mem
  rw [flatten_cut] at all
  exact all.subset

/-! ## Entries -/

/-- Pieces of a word are runs, of which the last has the exponent. -/
theorem mem_withLastPower {runs : List Run} {power : Option Expression} {node : Node}
    (mem : node ∈ withLastPower runs power) : ∃ r ∈ runs, ∃ p, node = .run r p := by
  induction runs with
  | nil => cases mem
  | cons r rest ih =>
    cases rest with
    | nil =>
      rw [withLastPower, List.mem_singleton] at mem
      exact ⟨r, List.mem_cons_self, power, mem⟩
    | cons next rest =>
      rw [withLastPower, List.mem_cons] at mem
      rcases mem with first | later
      · exact ⟨r, List.mem_cons_self, none, first⟩
      · obtain ⟨r', mem, p, same⟩ := ih later
        exact ⟨r', List.mem_cons_of_mem _ mem, p, same⟩

theorem withLastPower_ne_nil {runs : List Run} (some : runs ≠ []) (power : Option Expression) :
    withLastPower runs power ≠ [] := by
  cases runs with
  | nil => exact absurd rfl some
  | cons r rest => cases rest <;> exact List.cons_ne_nil _ _

/-- Pieces of a letter run are words, and an entry that has the exponent. -/
theorem withLastPower_concat (front : List Run) (last : Run) (power : Option Expression) :
    withLastPower (front ++ [last]) power = wordEntries front ++ [.run last power] := by
  induction front with
  | nil => rfl
  | cons r rest ih =>
    rw [List.cons_append]
    cases rest with
    | nil => rfl
    | cons next rest => exact congrArg (.run r none :: ·) ih

theorem withLastPower_none (pieces : List Run) :
    withLastPower pieces none = wordEntries pieces := by
  rcases List.eq_nil_or_concat pieces with rfl | ⟨front, last, rfl⟩
  · rfl
  · rw [List.concat_eq_append, withLastPower_concat, wordEntries, wordEntries, List.map_append]
    rfl

/-- The lines within a cut word are those of its one exponent. -/
theorem baseLines_withLastPower {runs : List Run} (some : runs ≠ []) (power : Option Expression) :
    baseLines (withLastPower runs power) = powerLines power := by
  induction runs with
  | nil => exact absurd rfl some
  | cons r rest ih =>
    cases rest with
    | nil => simp [withLastPower, baseLines, Node.lines]
    | cons next rest =>
      rw [withLastPower, baseLines, ih (List.cons_ne_nil _ _), Node.lines, powerLines,
        List.nil_append]

/-- A letter run is cut into words with its members, of which there is at least one. -/
theorem exists_cutRun (names : List String) {r : Run} (token : r.IsToken)
    (letter : r.kind = .letter) (power : Option Expression) :
    ∃ pieces : List Run, pieces ≠ [] ∧
      (∀ piece ∈ pieces, piece.IsToken ∧ piece.kind = .letter ∧ piece.IsWord names) ∧
      pieces.flatMap (·.members) = r.members ∧
      cutRun names r power = withLastPower pieces power := by
  rw [cutRun]
  split
  next =>
    refine ⟨_, cut_runs_ne_nil names token.notEmpty, ?_, ?_, rfl⟩
    · intro piece mem
      obtain ⟨members, cutOut, made⟩ := List.mem_filterMap.mp mem
      have letters : ∀ g ∈ members, Kind.ofLabel? g.label = some .letter := by
        intro g mem
        rw [← letter]
        exact token.kinds g (subset_of_mem_cut cutOut mem)
      obtain ⟨token', letter', whole⟩ := Run.isToken_ofMembers? made letters
      refine ⟨token', letter', ?_⟩
      rw [Run.IsWord, Run.text, Run.chars, whole]
      exact isWord_of_mem_cut cutOut
    · rw [flatMap_members, flatten_cut]
  next whole =>
    refine ⟨[r], List.cons_ne_nil _ _, List.forall_mem_singleton.mpr ⟨token, letter, .inl ?_⟩,
      List.append_nil _, rfl⟩
    -- letters that are not cut are a single one
    have some := List.length_pos_iff.mpr token.notEmpty
    have notLong : ¬1 < r.members.length := fun long => whole ⟨letter, long⟩
    omega

/-- What is no letter run stays whole. -/
theorem cutNode_of_kind {node : Node} (other : node.kind ≠ .letter) :
    cutNode names node = [node] := by
  cases node with
  | fraction => rfl
  | run r power => exact if_neg fun cuts => other cuts.1

/-- An entry is cut into entries of its kind. -/
theorem cutNode_of_isProper (names : List String) {node : Node}
    (proper : node.IsProper fun _ => True) :
    cutNode names node ≠ [] ∧
      ∀ piece ∈ cutNode names node, piece.kind = node.kind ∧ piece.IsProper (·.IsWord names) := by
  by_cases letter : node.kind = .letter
  · cases proper with
    | fraction => cases letter
    | @run r power token _ _ =>
      obtain ⟨pieces, some, words, -, cutOut⟩ := exists_cutRun names token letter power
      rw [cutNode, cutOut]
      refine ⟨withLastPower_ne_nil some power, ?_⟩
      intro piece mem
      obtain ⟨r', member, p, rfl⟩ := mem_withLastPower mem
      obtain ⟨token', letter', word⟩ := words r' member
      refine ⟨letter'.trans letter.symm, .run token' (fun operator => ?_) fun _ => word⟩
      rw [letter'] at operator
      cases operator
  · rw [cutNode_of_kind letter]
    refine ⟨List.cons_ne_nil _ _, List.forall_mem_singleton.mpr ⟨rfl, ?_⟩⟩
    cases proper with
    | fraction upper lower => exact .fraction upper lower
    | run token operator _ => exact .run token operator fun letter' => absurd letter' letter

/-- A cut adds no line and loses none. -/
theorem baseLines_cutNode (names : List String) (node : Node) :
    baseLines (cutNode names node) = node.lines := by
  cases node with
  | fraction n d rect power => simp [cutNode, baseLines]
  | run r power =>
    rw [cutNode, cutRun]
    split
    next cuts =>
      have some := List.ne_nil_of_length_pos (Nat.lt_trans Nat.zero_lt_one cuts.2)
      rw [baseLines_withLastPower (cut_runs_ne_nil names some), Node.lines]
    next => simp [baseLines]

/-! ## Lines -/

theorem cutWords_cons (names : List String) (node : Node) (rest : List Node) :
    cutWords names (node :: rest) = cutNode names node ++ cutWords names rest := rfl

theorem baseLines_cutWords (names : List String) (nodes : List Node) :
    baseLines (cutWords names nodes) = baseLines nodes := by
  induction nodes with
  | nil => rfl
  | cons node rest ih => rw [cutWords_cons, baseLines_append, baseLines_cutNode, ih, baseLines]

theorem cutWords_ne_nil {nodes : List Node} (line : IsBaseLine (fun _ => True) nodes)
    (some : nodes ≠ []) : cutWords names nodes ≠ [] := by
  obtain ⟨node, rest, rfl⟩ := List.exists_cons_of_ne_nil some
  have first := cutNode_of_isProper names (line.entries node List.mem_cons_self)
  rw [cutWords_cons]
  exact List.append_ne_nil_of_left_ne_nil first.1 _

/-- The first entry of a line keeps its kind. -/
theorem kind_of_mem_head?_cutWords {nodes : List Node} (line : IsBaseLine (fun _ => True) nodes)
    {piece : Node} (mem : piece ∈ (cutWords names nodes).head?) :
    ∃ node ∈ nodes.head?, piece.kind = node.kind := by
  cases nodes with
  | nil => cases mem
  | cons node rest =>
    have first := cutNode_of_isProper names (line.entries node List.mem_cons_self)
    rw [cutWords_cons, List.head?_append_of_ne_nil _ first.1] at mem
    exact ⟨node, rfl, (first.2 piece (List.mem_of_mem_head? mem)).1⟩

/-- A line as it was read becomes a line of words. -/
theorem isBaseLine_cutWords {nodes : List Node} (line : IsBaseLine (fun _ => True) nodes) :
    IsBaseLine (·.IsWord names) (cutWords names nodes) := by
  induction nodes with
  | nil => exact ⟨List.forall_mem_nil _, List.isChain_nil⟩
  | cons node rest ih =>
    obtain ⟨proper, others⟩ := List.forall_mem_cons.mp line.entries
    obtain ⟨ends, following⟩ := List.isChain_cons.mp line.numbers
    have restLine : IsBaseLine (fun _ => True) rest := ⟨others, following⟩
    obtain ⟨-, pieces⟩ := cutNode_of_isProper names proper
    have cutLine := ih restLine
    refine ⟨?_, ?_⟩
    · intro piece mem
      rw [cutWords_cons, List.mem_append] at mem
      rcases mem with first | later
      · exact (pieces piece first).2
      · exact cutLine.entries piece later
    · rw [cutWords_cons, List.isChain_append]
      refine ⟨?_, cutLine.numbers, ?_⟩
      · by_cases letter : node.kind = .letter
        · apply List.Pairwise.isChain
          apply List.pairwise_of_forall_mem_list
          intro left memLeft right memRight digit
          rw [(pieces left memLeft).1, letter] at digit
          cases digit
        · rw [cutNode_of_kind letter]
          exact List.isChain_singleton node
      · intro left memLeft right memRight digitLeft digitRight
        -- a digit run is not cut, and what follows it is what followed it before
        have kind := (pieces left (List.mem_of_getLast? memLeft)).1
        rw [kind] at digitLeft
        rw [cutNode_of_kind (by rw [digitLeft]; exact Kind.noConfusion)] at memLeft
        cases memLeft
        obtain ⟨next, memNext, kindNext⟩ := kind_of_mem_head?_cutWords restLine memRight
        exact ends next memNext digitLeft (kindNext.symm.trans digitRight)

end Region

end PenMath
