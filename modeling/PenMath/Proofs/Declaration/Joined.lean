import PenMath.Proofs.Declaration.LeftSide
import PenMath.Proofs.Region.Joined

/-!
# What is declared does not depend on how letters were cut

The name on a left side is put together again from the pieces it was cut into, and a letter between
parentheses is never cut. So a left side that is a line with its letters cut has the signature of
that line (`Signature.ofLeft?_cutWords`), which is the signature of the joined line
(`Signature.ofLeft?_baseJoined`).
-/

namespace PenMath

/-! ## Joined lines -/

@[simp] theorem Node.word?_joined (node : Node) : node.joined.word? = node.word? := by
  cases node with
  | fraction => rfl
  | run r power => cases power <;> rfl

@[simp] theorem Node.isSymbol_joined (node : Node) (label : Char) :
    node.joined.isSymbol label = node.isSymbol label := by
  cases node <;> rfl

namespace Signature

theorem parameterOf?_map_joined (rest : Expression) :
    parameterOf? (rest.map Node.joined) = parameterOf? rest := by
  rcases rest with _ | ⟨opening, _ | ⟨letter, _ | ⟨closing, _ | ⟨next, others⟩⟩⟩⟩ <;>
    simp [parameterOf?]

/-- Joining what is within the entries of a left side does not change what it declares. -/
theorem ofLeft?_map_joined (left : Expression) :
    ofLeft? (left.map Node.joined) = ofLeft? left := by
  have words : Node.word? ∘ Node.joined = Node.word? := funext Node.word?_joined
  have named : (fun node : Node => node.word?.isSome) ∘ Node.joined =
      fun node => node.word?.isSome :=
    funext fun node => congrArg Option.isSome node.word?_joined
  rw [ofLeft?, List.takeWhile_map, List.dropWhile_map, named, parameterOf?_map_joined, ofLeft?,
    List.isEmpty_map, List.filterMap_map, words]

end Signature

/-! ## Cut lines -/

/-- The letters of an entry, its exponent left out. -/
def Node.letters : Node → List Glyph
  | .run r _ => if r.kind = .letter then r.members else []
  | .fraction .. => []

namespace Region

variable {names : List String} {nodes : List Node}

/-- An exponent is no letter of the pieces that it follows. -/
theorem letters_withLastPower {pieces : List Run} (letters : ∀ r ∈ pieces, r.kind = .letter)
    (power : Option Expression) :
    (withLastPower pieces power).flatMap Node.letters = pieces.flatMap (·.members) := by
  induction pieces with
  | nil => rfl
  | cons r rest ih =>
    obtain ⟨letter, others⟩ := List.forall_mem_cons.mp letters
    have own : ∀ p, (Node.run r p).letters = r.members := fun p => if_pos letter
    cases rest with
    | nil =>
      rw [withLastPower, List.flatMap_cons, List.flatMap_cons, own]
      rfl
    | cons next rest =>
      rw [withLastPower, List.flatMap_cons, ih others, own]
      rfl

/-- Whatever names are known, cut words have the letters they were cut from. -/
theorem letters_cutWords (proper : ∀ node ∈ nodes, node.IsProper fun _ => True) :
    (cutWords names nodes).flatMap Node.letters = nodes.flatMap Node.letters := by
  induction nodes with
  | nil => rfl
  | cons node rest ih =>
    obtain ⟨first, others⟩ := List.forall_mem_cons.mp proper
    rw [cutWords_cons, List.flatMap_append, ih others, List.flatMap_cons]
    congr 1
    by_cases letter : node.kind = .letter
    · cases first with
      | fraction => cases letter
      | @run r power token operator _ =>
        obtain ⟨pieces, -, words, members, cutOut⟩ := exists_cutRun names token letter power
        rw [cutNode, cutOut, letters_withLastPower fun s mem => (words s mem).2.1, members]
        exact (if_pos letter).symm
    · rw [cutNode_of_kind letter, List.flatMap_singleton]

/-- A line with a single letter at most is not cut. -/
theorem cutWords_eq_self (few : (nodes.flatMap Node.letters).length ≤ 1) :
    cutWords names nodes = nodes := by
  induction nodes with
  | nil => rfl
  | cons node rest ih =>
    rw [List.flatMap_cons, List.length_append] at few
    have whole : cutNode names node = [node] := by
      cases node with
      | fraction => rfl
      | run r power =>
        refine if_neg fun cuts => ?_
        rw [Node.letters, if_pos cuts.1] at few
        omega
    rw [cutWords_cons, whole, ih (by omega)]
    rfl

end Region

namespace Signature

variable {names : List String} {nodes : List Node} {r : Run}

/-- The symbols of a parameter have a single letter among them. -/
theorem Follows.letters_le {powers : Option Expression → Prop} {word : Run → Prop}
    {rest : Expression} {parameter? : Option String} (follows : Follows powers rest parameter?)
    (proper : ∀ node ∈ rest, node.IsProper word) : (rest.flatMap Node.letters).length ≤ 1 := by
  cases follows with
  | nothing => exact Nat.zero_le 1
  | @letter opening r closing power power' opens letter single closes _ _ =>
    have opening' := (proper (.run opening power) (by simp)).isToken.kind_of_isSymbol opens
      (k := .parenthesis) rfl
    have closing' := (proper (.run closing power') (by simp)).isToken.kind_of_isSymbol closes
      (k := .parenthesis) rfl
    simp [Node.letters, opening', closing', letter, single]

/-- A parameter is one wherever letters are cut. -/
theorem parameterOf?_cutWords (proper : ∀ node ∈ nodes, node.IsProper fun _ => True) :
    parameterOf? (Region.cutWords names nodes) = parameterOf? nodes := by
  have cutProper : ∀ node ∈ Region.cutWords names nodes, node.IsProper (·.IsWord names) := by
    intro piece mem
    obtain ⟨node, member, cutOut⟩ := List.mem_flatMap.mp mem
    exact ((Region.cutNode_of_isProper names (proper node member)).2 piece cutOut).2
  refine Option.ext fun parameter? => ?_
  rw [parameterOf?_eq_some, parameterOf?_eq_some]
  constructor
  · intro follows
    have few := follows.letters_le cutProper
    rw [Region.letters_cutWords proper] at few
    rwa [Region.cutWords_eq_self few] at follows
  · intro follows
    rwa [Region.cutWords_eq_self (follows.letters_le proper)]

/-- A parameter begins with a parenthesis. -/
theorem parameterOf?_of_letter (token : r.IsToken) (letter : r.kind = .letter)
    (power : Option Expression) (rest : Expression) :
    parameterOf? (.run r power :: rest) = none := by
  refine Option.eq_none_iff_forall_ne_some.mpr fun parameter? read => ?_
  cases parameterOf?_eq_some.mp read with
  | letter opens _ _ _ _ _ =>
    have kind := token.kind_of_isSymbol opens (k := .parenthesis) rfl
    rw [letter] at kind
    cases kind

/-- Nothing is declared by a line that does not begin with a word. -/
theorem ofLeft?_of_noWord {node : Node} (noWord : node.word? = none) (rest : Expression) :
    ofLeft? (node :: rest) = none := by
  rw [ofLeft?, List.takeWhile_cons_of_neg (by rw [noWord]; exact Bool.false_ne_true)]
  rfl

/-- Nor by words and then a letter with an exponent, which is no parameter. -/
theorem ofLeft?_of_raised {words : List Run} (letters : ∀ s ∈ words, s.kind = .letter)
    (token : r.IsToken) (letter : r.kind = .letter) (p rest : Expression) :
    ofLeft? (wordEntries words ++ .run r (some p) :: rest) = none := by
  by_cases empty : words = []
  · subst empty
    exact ofLeft?_of_noWord rfl rest
  · have stops : ∀ node ∈ (Node.run r (some p) :: rest).head?, node.word? = none := by
      rintro _ ⟨⟩
      rfl
    rw [ofLeft?_wordEntries empty letters stops, parameterOf?_of_letter token letter]
    rfl

theorem word?_of_kind {node : Node} (other : node.kind ≠ .letter) : node.word? = none := by
  cases node with
  | fraction => rfl
  | run r power =>
    cases power with
    | none => exact if_neg other
    | some p => rfl

/-- A line that follows a word does not begin with a word, and does not once it is cut. -/
theorem stops_of_separated (names : List String) (letter : r.kind = .letter) {rest : Expression}
    (separated : Separated (.run r none :: rest)) :
    (∀ node ∈ rest.head?, node.word? = none) ∧
      ∀ node ∈ (Region.cutWords names rest).head?, node.word? = none := by
  cases rest with
  | nil =>
    constructor
    · rintro _ ⟨⟩
    · rintro _ ⟨⟩
  | cons next others =>
    have other : next.kind ≠ .letter := fun letter' =>
      (List.isChain_cons_cons.mp separated).1 letter letter' rfl
    rw [Region.cutWords_cons, Region.cutNode_of_kind other]
    have noWord : ∀ node ∈ some next, node.word? = none := by
      rintro _ ⟨⟩
      exact word?_of_kind other
    exact ⟨noWord, noWord⟩

theorem join_text {pieces : List Run} (members : pieces.flatMap (·.members) = r.members) :
    String.join (pieces.map Run.text) = r.text := by
  rw [← String.toList_inj, String.toList_join, List.flatMap_map, Run.text, String.toList_ofList,
    Run.chars, ← members, List.map_flatMap]
  simp only [Run.text, String.toList_ofList]
  rfl

/-- A word with an exponent declares nothing, cut or whole. -/
theorem ofLeft?_cutRun_of_raised (token : r.IsToken) (letter : r.kind = .letter)
    (p rest : Expression) : ofLeft? (Region.cutRun names r (some p) ++ rest) = none := by
  obtain ⟨pieces, some, words, -, cutOut⟩ := Region.exists_cutRun names token letter (some p)
  obtain ⟨front, last, rfl⟩ := List.eq_nil_or_concat pieces |>.resolve_left some
  rw [List.concat_eq_append] at words cutOut
  obtain ⟨inFront, atEnd⟩ := List.forall_mem_append.mp words
  obtain ⟨token', letter', -⟩ := atEnd last (List.mem_singleton_self _)
  rw [cutOut, Region.withLastPower_concat, List.append_assoc, List.singleton_append]
  exact ofLeft?_of_raised (fun s mem => (inFront s mem).2.1) token' letter' p rest

/-- The pieces of a word make up the name that the word is. -/
theorem ofLeft?_cutRun_of_word (token : r.IsToken) (letter : r.kind = .letter) {rest : Expression}
    (proper : ∀ node ∈ rest, node.IsProper fun _ => True)
    (separated : Separated (.run r none :: rest)) :
    ofLeft? (Region.cutRun names r none ++ Region.cutWords names rest) =
      ofLeft? (.run r none :: rest) := by
  obtain ⟨pieces, some, words, members, cutOut⟩ := Region.exists_cutRun names token letter none
  obtain ⟨stops, stopsCut⟩ := stops_of_separated names letter separated
  have inPieces := ofLeft?_wordEntries some (fun s mem => (words s mem).2.1) stopsCut
  have whole := ofLeft?_wordEntries (List.cons_ne_nil r [])
    (List.forall_mem_singleton.mpr letter) stops
  have own : String.join ([r].map Run.text) = r.text := join_text (List.append_nil _)
  rw [own] at whole
  rw [cutOut, Region.withLastPower_none, inPieces, join_text members, parameterOf?_cutWords proper]
  exact whole.symm

/-- Cutting the letters of a line does not change what it declares. -/
theorem ofLeft?_cutWords (proper : ∀ node ∈ nodes, node.IsProper fun _ => True)
    (separated : Separated nodes) :
    ofLeft? (Region.cutWords names nodes) = ofLeft? nodes := by
  cases nodes with
  | nil => rfl
  | cons node rest =>
    obtain ⟨first, others⟩ := List.forall_mem_cons.mp proper
    rw [Region.cutWords_cons]
    by_cases letter : node.kind = .letter
    · cases first with
      | fraction => cases letter
      | @run r power token operator _ =>
        rw [Region.cutNode]
        cases power with
        | some p => rw [ofLeft?_cutRun_of_raised token letter, ofLeft?_of_noWord rfl]
        | none => exact ofLeft?_cutRun_of_word token letter others separated
    · have noWord := word?_of_kind letter
      rw [Region.cutNode_of_kind letter, List.singleton_append, ofLeft?_of_noWord noWord,
        ofLeft?_of_noWord noWord]

/-- What has been read of a region without bars declares what it declares once joined. -/
theorem ofLeft?_baseJoined {s : Region.Setting} {depth : Nat} {items : List Item} {e : Expression}
    (signs : Region.AreSigns items) (read : Region.parse s depth items = .ok e) :
    ofLeft? (baseJoined e) = ofLeft? e := by
  rw [signs.parse_eq_map] at read
  obtain ⟨entries, line, rfl⟩ := map_eq_ok.mp read
  obtain ⟨proper, separated⟩ := Region.separated_of_lineAt signs.isReady line
  rw [Region.baseJoined_cutWords proper separated, ofLeft?_map_joined,
    ofLeft?_cutWords proper separated]

end Signature

end PenMath
