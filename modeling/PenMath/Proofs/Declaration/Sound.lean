import PenMath.Proofs.Declaration.LeftSide

/-!
# What a declaration is made of

A declaration is made of an equation that has been read, and what has been read is well formed. So
its name and the names it reads are texts of letter runs, which are never empty; its body is the
text of a right side that is not empty; and its parameter is the text of a run of one letter.
-/

namespace PenMath

/-- Whether a text is a name: some capital letters and nothing else. -/
def IsName (text : String) : Prop := text ≠ "" ∧ ∀ c ∈ text.toList, 'A' ≤ c ∧ c ≤ 'Z'

/-- What holds of everything declared. -/
structure Declaration.IsSound (d : Declaration) : Prop where
  name : IsName d.name
  body : d.body ≠ ""
  parameter : ∀ parameter ∈ d.parameter?, ∃ c, 'A' ≤ c ∧ c ≤ 'Z' ∧ parameter = String.singleton c
  dependencies : ∀ name ∈ d.dependencies,
    IsName name ∧ name ≠ d.name ∧ some name ≠ d.parameter?

variable {names : List String} {left right : Expression} {r : Run}

/-- Letters in a row are a name. -/
theorem isName_ofList {chars : List Char} (notEmpty : chars ≠ [])
    (letters : ∀ c ∈ chars, Kind.ofLabel? c = some .letter) : IsName (String.ofList chars) := by
  refine ⟨?_, ?_⟩
  · intro empty
    have none := congrArg String.toList empty
    rw [String.toList_ofList] at none
    exact notEmpty none
  · intro c mem
    rw [String.toList_ofList] at mem
    exact isUpper_iff.mp (Kind.ofLabel?_eq_letter.mp (letters c mem))

/-- Names one after the other are a name. -/
theorem isName_join {words : List String} (notEmpty : words ≠ [])
    (all : ∀ word ∈ words, IsName word) : IsName (String.join words) := by
  obtain ⟨first, rest, rfl⟩ := List.exists_cons_of_ne_nil notEmpty
  refine ⟨?_, ?_⟩
  · intro empty
    have none := congrArg String.toList empty
    rw [String.toList_join, List.flatMap_cons] at none
    have blank : first.toList = "".toList := (List.append_eq_nil_iff.mp none).1
    exact (all first List.mem_cons_self).1 (String.toList_inj.mp blank)
  · intro c mem
    rw [String.toList_join] at mem
    obtain ⟨word, member, mem⟩ := List.mem_flatMap.mp mem
    exact (all word member).2 c mem

/-- The text of a letter run is a name. -/
theorem Run.IsToken.isName (token : r.IsToken) (letter : r.kind = .letter) : IsName r.text :=
  isName_ofList token.chars_ne_nil fun _ mem => (token.ofLabel?_eq mem).trans (congrArg some letter)

/-- What is not empty is not written as an empty text. -/
theorem WellFormed.text_ne_empty (h : WellFormed names right) (some : right ≠ []) :
    Expression.text right ≠ "" := by
  obtain ⟨node, rest, rfl⟩ := List.exists_cons_of_ne_nil some
  intro empty
  have none := congrArg String.toList empty
  rw [Expression.text, String.toList_ofList] at none
  rcases baseChars_begins node rest with ⟨back, text⟩ | ⟨r, power, back, rfl, text⟩
  · rw [Expression.chars, text] at none
    cases none
  · have token := (h.line.entries _ List.mem_cons_self).isToken
    rw [Expression.chars, text] at none
    exact token.chars_ne_nil (List.append_eq_nil_iff.mp none).1

/-- The names that a well-formed expression reads are names. -/
theorem WellFormed.isName_of_mem_words (h : WellFormed names right) {word : String}
    (mem : word ∈ Expression.words right) : IsName word := by
  rw [Expression.words_eq_map] at mem
  obtain ⟨r, member, rfl⟩ := List.mem_map.mp mem
  obtain ⟨member, letter⟩ := List.mem_filter.mp member
  exact (h.isToken member).isName (of_decide_eq_true letter)

namespace Signature

variable {powers : Option Expression → Prop} {s : Signature} {parameter? : Option String}

/-- A parameter is one capital letter. -/
theorem Follows.isName {rest : Expression} (h : WellFormed names rest)
    (follows : Follows powers rest parameter?) :
    ∀ parameter ∈ parameter?, ∃ c, 'A' ≤ c ∧ c ≤ 'Z' ∧ parameter = String.singleton c := by
  cases follows with
  | nothing => exact fun _ none => nomatch none
  | @letter opening r closing power power' opens letter single closes _ _ =>
    rintro _ ⟨⟩
    have token : r.IsToken := (h.line.entries (.run r none) (by simp)).isToken
    obtain ⟨g, member⟩ := List.length_eq_one_iff.mp single
    have label : Kind.ofLabel? g.label = some .letter := by
      rw [token.kinds g (by simp [member]), letter]
    obtain ⟨above, below⟩ := isUpper_iff.mp (Kind.ofLabel?_eq_letter.mp label)
    refine ⟨g.label, above, below, ?_⟩
    rw [Run.text, Run.chars, member]
    rfl

/-- The words of a left side make up a name. -/
theorem Heads.isName (h : WellFormed names left) (heads : Heads powers s left) :
    IsName s.name := by
  obtain ⟨some, letters, follows⟩ := heads
  refine isName_join (by simpa using some) ?_
  intro word mem
  obtain ⟨r, member, rfl⟩ := List.mem_map.mp mem
  have entry : Node.run r none ∈ wordEntries _ := List.mem_map_of_mem member
  have token := (h.line.entries _ (List.mem_append_left _ entry)).isToken
  exact token.isName (letters r member)

end Signature

/-- What is declared by a formula that has been read is sound. -/
theorem Declaration.isSound_of_read {t : Thresholds} {mode : Mode} {glyphs : List Glyph}
    {parsed : Parsed} {d : Declaration} (read : parseFormula t mode names glyphs = .ok parsed)
    (made : Request.ofParsed mode parsed = .ok (.declare d)) : d.IsSound := by
  obtain ⟨-, left, right, rfl, some, s, signs, rfl⟩ := Request.ofParsed_eq_declare.mp made
  have wellLeft : WellFormed names left := wellFormed_of_mem_sides read (by simp [Parsed.sides])
  have wellRight : WellFormed names right := wellFormed_of_mem_sides read (by simp [Parsed.sides])
  have heads := (Signature.ofLeft?_eq_some wellLeft).mp signs
  refine ⟨?_, ?_, ?_, ?_⟩
  · rw [s.name_declare]
    exact heads.isName wellLeft
  · rw [s.body_declare]
    exact wellRight.text_ne_empty some
  · rw [s.parameter?_declare]
    obtain ⟨-, -, follows⟩ := heads
    exact follows.isName wellLeft.suffix
  · intro name mem
    obtain ⟨word, notName, notParameter⟩ := (s.mem_dependencies_declare right).mp mem
    rw [s.name_declare, s.parameter?_declare]
    exact ⟨wellRight.isName_of_mem_words word, notName, notParameter⟩

end PenMath
