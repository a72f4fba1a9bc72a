import PenMath.Proofs.Declaration.Outcome
import PenMath.Proofs.Formula.WellFormed
import PenMath.Proofs.Tree.Tokens

/-!
# The left side of a declaration

A left side that is accepted is a name, or a name with one letter in parentheses; `Signature.Heads`
says so without a scan, and `Signature.ofLeft?_eq_some` that the scan accepts just that. The entries
of the name and the letter carry no exponent. Exponents of the two parentheses are not looked at:
what is written there is accepted and lost. So the symbols of a left side are those of what is
declared only if the parentheses are bare.
-/

namespace PenMath

variable {names : List String} {left right : Expression} {s : Signature}

/-! ## Entries of a name -/

/-- A word is a letter run that carries no exponent. -/
theorem Node.word?_eq_some {node : Node} {word : String} : node.word? = some word ↔
    ∃ r, node = .run r none ∧ r.kind = .letter ∧ r.text = word := by
  cases node with
  | run r power =>
    cases power with
    | none => simp [word?]
    | some p => simp [word?]
  | fraction n d rect power => simp [word?]

theorem Node.isSymbol_eq_true {node : Node} {label : Char} : node.isSymbol label = true ↔
    ∃ r power, node = .run r power ∧ r.isSymbol label = true := by
  cases node with
  | run r power => simp [isSymbol]
  | fraction n d rect power => simp [isSymbol]

theorem isSome_word?_of_mem {words : List Run} (letters : ∀ r ∈ words, r.kind = .letter) :
    ∀ node ∈ wordEntries words, node.word?.isSome = true := by
  intro node mem
  obtain ⟨r, member, rfl⟩ := List.mem_map.mp mem
  rw [Node.word?_eq_some.mpr ⟨r, rfl, letters r member, rfl⟩]
  rfl

theorem filterMap_word? {words : List Run} (letters : ∀ r ∈ words, r.kind = .letter) :
    (wordEntries words).filterMap Node.word? = words.map Run.text := by
  rw [wordEntries, List.filterMap_map, ← List.filterMap_eq_map]
  refine List.filterMap_congr fun r member => ?_
  exact Node.word?_eq_some.mpr ⟨r, rfl, letters r member, rfl⟩

/-- Entries that are all words are the entries of some letter runs. -/
theorem exists_words {named : Expression} (all : ∀ node ∈ named, node.word?.isSome = true) :
    ∃ words : List Run, named = wordEntries words ∧ ∀ r ∈ words, r.kind = .letter := by
  induction named with
  | nil => exact ⟨[], rfl, List.forall_mem_nil _⟩
  | cons node rest ih =>
    obtain ⟨first, others⟩ := List.forall_mem_cons.mp all
    obtain ⟨word, isWord⟩ := Option.isSome_iff_exists.mp first
    obtain ⟨r, rfl, letter, -⟩ := Node.word?_eq_some.mp isWord
    obtain ⟨words, rfl, letters⟩ := ih others
    exact ⟨r :: words, rfl, List.forall_mem_cons.mpr ⟨letter, letters⟩⟩

/-- The symbols of everything written, at every depth. -/
def Expression.spelled (e : Expression) : List Char := (baseGlyphs e).map (·.label)

/-- Whether no parenthesis of a left side carries an exponent. -/
def BareParentheses (left : Expression) : Prop :=
  ∀ node ∈ left, node.kind = .parenthesis → node.power = none

instance (left : Expression) : Decidable (BareParentheses left) :=
  inferInstanceAs (Decidable (∀ node ∈ left, node.kind = .parenthesis → node.power = none))

namespace Signature

/-- The symbols of a parameter in parentheses. -/
def parameterChars (parameter? : Option String) : List Char :=
  (parameter?.map fun parameter => parenthesized parameter.toList).getD []

/-- The symbols of a name and of a parameter. -/
def chars (s : Signature) : List Char := s.name.toList ++ parameterChars s.parameter?

/-! ## What follows a name -/

/-- Whether entries are a parameter: nothing, or one letter in parentheses. What exponents the
parentheses may carry is left open. -/
inductive Follows (powers : Option Expression → Prop) : Expression → Option String → Prop
  | nothing : Follows powers [] none
  | letter {opening r closing power power'} (opens : opening.isSymbol '(' = true)
      (letter : r.kind = .letter) (single : r.members.length = 1)
      (closes : closing.isSymbol ')' = true) (raised : powers power) (raised' : powers power') :
      Follows powers [.run opening power, .run r none, .run closing power'] (some r.text)

variable {powers : Option Expression → Prop} {rest : Expression} {parameter? : Option String}

theorem length_text (r : Run) : r.text.toList.length = r.members.length := by
  rw [Run.text, String.toList_ofList, Run.chars, List.length_map]

/-- What is accepted after a name is a parameter: each check of the scan names one of its parts. -/
theorem follows_of_parameterOf? (read : parameterOf? rest = some parameter?) :
    Follows (fun _ => True) rest parameter? := by
  unfold parameterOf? at read
  split at read
  next =>
    cases read
    exact .nothing
  next opening letter closing =>
    split at read
    next symbols =>
      rw [Bool.and_eq_true] at symbols
      obtain ⟨opening, power, rfl, opens⟩ := Node.isSymbol_eq_true.mp symbols.1
      obtain ⟨closing, power', rfl, closes⟩ := Node.isSymbol_eq_true.mp symbols.2
      split at read
      next word isWord =>
        obtain ⟨r, rfl, kind, rfl⟩ := Node.word?_eq_some.mp isWord
        split at read
        next single =>
          cases read
          exact .letter opens kind (length_text r ▸ single) closes trivial trivial
        next => cases read
      next => cases read
    next => cases read
  next => cases read

theorem Follows.parameterOf?_eq (follows : Follows powers rest parameter?) :
    parameterOf? rest = some parameter? := by
  cases follows with
  | nothing => rfl
  | @letter opening r closing power power' opens kind single closes _ _ =>
    have word : (Node.run r none).word? = some r.text :=
      Node.word?_eq_some.mpr ⟨r, rfl, kind, rfl⟩
    have length : r.text.toList.length = 1 := (length_text r).trans single
    simp [parameterOf?, Node.isSymbol, opens, closes, word, length]

theorem parameterOf?_eq_some :
    parameterOf? rest = some parameter? ↔ Follows (fun _ => True) rest parameter? :=
  ⟨follows_of_parameterOf?, Follows.parameterOf?_eq⟩

/-- A parameter does not begin with a word, because a parenthesis is no letter. -/
theorem Follows.word?_eq_none (h : WellFormed names rest)
    (follows : Follows powers rest parameter?) :
    ∀ node ∈ rest.head?, node.word? = none := by
  intro node first
  cases follows with
  | nothing => cases first
  | @letter opening r closing power power' opens letter single closes _ _ =>
    cases first
    have token := (h.line.entries _ List.mem_cons_self).isToken
    have kind := token.kind_of_isSymbol opens (k := .parenthesis) rfl
    cases power <;> simp [Node.word?, kind]

theorem Follows.mono {powers' : Option Expression → Prop} (follows : Follows powers rest parameter?)
    (weaker : ∀ power, powers power → powers' power) : Follows powers' rest parameter? := by
  cases follows with
  | nothing => exact .nothing
  | letter opens letter single closes raised raised' =>
    exact .letter opens letter single closes (weaker _ raised) (weaker _ raised')

/-- The entries of a parameter are its letter and two parentheses. -/
theorem Follows.bare_of_bareParentheses (h : WellFormed names rest)
    (follows : Follows powers rest parameter?) (bare : BareParentheses rest) :
    Follows (· = none) rest parameter? := by
  cases follows with
  | nothing => exact .nothing
  | @letter opening r closing power power' opens letter single closes _ _ =>
    refine .letter opens letter single closes ?_ ?_
    · have token := (h.line.entries _ List.mem_cons_self).isToken
      exact bare (.run opening power) (by simp) (token.kind_of_isSymbol opens rfl)
    · have token := (h.rest.rest.line.entries _ List.mem_cons_self).isToken
      exact bare (.run closing power') (by simp) (token.kind_of_isSymbol closes rfl)

theorem Follows.power_eq_none (follows : Follows (· = none) rest parameter?) :
    ∀ node ∈ rest, node.power = none := by
  cases follows with
  | nothing => exact List.forall_mem_nil _
  | letter opens letter single closes raised raised' => simp [raised, raised']

/-! ## Its symbols -/

theorem spelled_run (r : Run) (power : Option Expression) (rest : Expression) :
    Expression.spelled (.run r power :: rest) =
      r.chars ++ ((powerGlyphs power).map (·.label) ++ Expression.spelled rest) := by
  rw [Expression.spelled, baseGlyphs, Node.glyphs, List.map_append, List.map_append,
    List.append_assoc]
  rfl

/-- The symbols of words without exponents are those of the name they make up. -/
theorem spelled_wordEntries (words : List Run) (rest : Expression) :
    Expression.spelled (wordEntries words ++ rest) =
      (String.join (words.map Run.text)).toList ++ Expression.spelled rest := by
  rw [String.toList_join, List.flatMap_map]
  induction words with
  | nil => rfl
  | cons r others ih =>
    rw [List.flatMap_cons, List.append_assoc, ← ih, Run.text, String.toList_ofList]
    exact spelled_run r none _

/-- The exponents of the parentheses are among the symbols of a parameter. -/
theorem spelled_letter {opening r closing : Run} (opens : opening.isSymbol '(' = true)
    (closes : closing.isSymbol ')' = true) (power power' : Option Expression) :
    Expression.spelled [.run opening power, .run r none, .run closing power'] =
      '(' :: ((powerGlyphs power).map (·.label) ++
        (r.chars ++ ')' :: (powerGlyphs power').map (·.label))) := by
  rw [Run.isSymbol, decide_eq_true_eq] at opens closes
  rw [spelled_run, spelled_run, spelled_run, opens, closes]
  simp [Expression.spelled, baseGlyphs, powerGlyphs]

theorem Follows.spelled_eq (follows : Follows (· = none) rest parameter?) :
    Expression.spelled rest = parameterChars parameter? := by
  cases follows with
  | nothing => rfl
  | letter opens letter single closes raised raised' =>
    rw [spelled_letter opens closes, raised, raised']
    simp [parameterChars, parenthesized, powerGlyphs, Run.text]

/-- An exponent of a parenthesis leaves more symbols than the parameter has. -/
theorem Follows.bare_of_spelled (h : WellFormed names rest)
    (follows : Follows powers rest parameter?)
    (same : Expression.spelled rest = parameterChars parameter?) :
    Follows (· = none) rest parameter? := by
  cases follows with
  | nothing => exact .nothing
  | @letter opening r closing power power' opens letter single closes _ _ =>
    have count := congrArg List.length same
    rw [spelled_letter opens closes] at count
    simp only [parameterChars, parenthesized, Run.text, String.toList_ofList, Option.map_some,
      Option.getD_some, List.length_append, List.length_cons, List.length_map,
      List.length_nil] at count
    refine .letter opens letter single closes ?_ ?_
    · refine eq_none_of_powerGlyphs (fun p carried => h.power carried) ?_
      exact List.length_eq_zero_iff.mp (by omega)
    · refine eq_none_of_powerGlyphs (fun p carried => h.rest.rest.power carried) ?_
      exact List.length_eq_zero_iff.mp (by omega)

/-! ## The scan -/

/-- Whether a left side reads as a signature: words without exponents that make up the name, and a
parameter after them. -/
inductive Heads (powers : Option Expression → Prop) : Signature → Expression → Prop
  | mk {words rest parameter?} (some : words ≠ []) (letters : ∀ r ∈ words, r.kind = .letter)
      (follows : Follows powers rest parameter?) :
      Heads powers ⟨String.join (words.map Run.text), parameter?⟩ (wordEntries words ++ rest)

/-- The scan takes words as the name as long as there are words. -/
theorem ofLeft?_wordEntries {words : List Run} (some : words ≠ [])
    (letters : ∀ r ∈ words, r.kind = .letter) (stops : ∀ node ∈ rest.head?, node.word? = none) :
    ofLeft? (wordEntries words ++ rest) = (parameterOf? rest).map fun parameter? =>
      ⟨String.join (words.map Run.text), parameter?⟩ := by
  have all := isSome_word?_of_mem letters
  have ends : rest.takeWhile (·.word?.isSome) = [] ∧ rest.dropWhile (·.word?.isSome) = rest := by
    cases rest with
    | nil => exact ⟨rfl, rfl⟩
    | cons node others => simp [stops node rfl]
  have notEmpty : (wordEntries words).isEmpty = false := by simpa [wordEntries] using some
  rw [ofLeft?, List.takeWhile_append_of_pos all, List.dropWhile_append_of_pos all, ends.1, ends.2,
    List.append_nil, notEmpty, filterMap_word? letters]
  rfl

/-- The scan of a left side accepts the signatures and nothing else. -/
theorem ofLeft?_eq_some (h : WellFormed names left) :
    ofLeft? left = some s ↔ Heads (fun _ => True) s left := by
  constructor
  · intro read
    rw [ofLeft?] at read
    split at read
    next => cases read
    next notEmpty =>
      obtain ⟨parameter?, follows, rfl⟩ := Option.map_eq_some_iff.mp read
      obtain ⟨words, named, letters⟩ := exists_words (List.all_eq_true.mp List.all_takeWhile)
      have whole := List.takeWhile_append_dropWhile (p := fun node : Node => node.word?.isSome)
        (l := left)
      have some : words ≠ [] := by
        rintro rfl
        rw [named] at notEmpty
        exact notEmpty rfl
      rw [named, filterMap_word? letters, ← whole, named]
      exact .mk some letters (parameterOf?_eq_some.mp follows)
  · intro heads
    obtain ⟨some, letters, follows⟩ := heads
    rw [ofLeft?_wordEntries some letters (follows.word?_eq_none h.suffix),
      parameterOf?_eq_some.mpr follows]
    rfl

theorem Heads.mono {powers' : Option Expression → Prop} (heads : Heads powers s left)
    (weaker : ∀ power, powers power → powers' power) : Heads powers' s left := by
  obtain ⟨some, letters, follows⟩ := heads
  exact .mk some letters (follows.mono weaker)

theorem Heads.bare_of_bareParentheses (h : WellFormed names left) (heads : Heads powers s left)
    (bare : BareParentheses left) : Heads (· = none) s left := by
  obtain ⟨some, letters, follows⟩ := heads
  refine .mk some letters (follows.bare_of_bareParentheses h.suffix ?_)
  exact fun node mem => bare node (List.mem_append_right _ mem)

theorem Heads.power_eq_none (heads : Heads (· = none) s left) :
    ∀ node ∈ left, node.power = none := by
  obtain ⟨some, letters, follows⟩ := heads
  intro node mem
  rcases List.mem_append.mp mem with word | parameter
  · obtain ⟨r, -, rfl⟩ := List.mem_map.mp word
    rfl
  · exact follows.power_eq_none node parameter

theorem Heads.spelled_eq (heads : Heads (· = none) s left) :
    Expression.spelled left = s.chars := by
  obtain ⟨some, letters, follows⟩ := heads
  rw [spelled_wordEntries, follows.spelled_eq, chars]

/-- A left side has no symbols but those of its signature only if its parentheses are bare. -/
theorem Heads.bare_of_spelled (h : WellFormed names left) (heads : Heads powers s left)
    (same : Expression.spelled left = s.chars) : Heads (· = none) s left := by
  obtain ⟨some, letters, follows⟩ := heads
  rw [spelled_wordEntries, chars] at same
  exact .mk some letters (follows.bare_of_spelled h.suffix (List.append_cancel_left same))

end Signature

/-! ## Declarations -/

/-- What a declaration says of its left side. -/
def Declaration.signature (d : Declaration) : Signature := ⟨d.name, d.parameter?⟩

theorem Declaration.signature_declare (s : Signature) (right : Expression) :
    (s.declare right).signature = s := by
  rw [signature, s.name_declare, s.parameter?_declare]

/-- An equation declares something exactly if its right side is not empty and its left side is a
name, or a name with one letter in parentheses, whatever exponents these parentheses carry.
Everything on the left is part of what is declared only if they carry none. -/
theorem declaration_reads_left_side (t : Thresholds) (mode : Mode) (names : List String)
    (glyphs : List Glyph) (left right : Expression)
    (h : parseFormula t mode names glyphs = .ok (.equation left right)) :
    ((Request.ofParsed .declare (.equation left right)).isOk = true ↔
      right ≠ [] ∧ ∃ s, Signature.Heads (fun _ => True) s left) ∧
    (∀ d, Request.ofParsed .declare (.equation left right) = .ok (.declare d) →
      Signature.Heads (fun _ => True) d.signature left ∧
      (Expression.spelled left = d.signature.chars ↔
        Signature.Heads (· = none) d.signature left)) ∧
    (BareParentheses left →
      ((Request.ofParsed .declare (.equation left right)).isOk = true ↔
        right ≠ [] ∧ ∃ s, Signature.Heads (· = none) s left) ∧
      ∀ d, Request.ofParsed .declare (.equation left right) = .ok (.declare d) →
        Expression.spelled left = d.signature.chars) := by
  have wellFormed : WellFormed names left := wellFormed_of_mem_sides h (by simp [Parsed.sides])
  have made : (Request.ofParsed .declare (.equation left right)).isOk = true ↔
      right ≠ [] ∧ ∃ s, Signature.Heads (fun _ => True) s left := by
    rw [Request.isOk_declare]
    simp only [Signature.ofLeft?_eq_some wellFormed]
  have read : ∀ d, Request.ofParsed .declare (.equation left right) = .ok (.declare d) →
      Signature.Heads (fun _ => True) d.signature left := by
    intro d declared
    obtain ⟨-, left', right', same, -, s, heads, rfl⟩ := Request.ofParsed_eq_declare.mp declared
    cases same
    rw [Declaration.signature_declare]
    exact (Signature.ofLeft?_eq_some wellFormed).mp heads
  refine ⟨made, ?_, ?_⟩
  · intro d declared
    refine ⟨read d declared, ?_, Signature.Heads.spelled_eq⟩
    exact (read d declared).bare_of_spelled wellFormed
  · intro bare
    refine ⟨made.trans (and_congr_right fun _ => exists_congr fun s => ?_), ?_⟩
    · constructor
      · intro heads
        exact heads.bare_of_bareParentheses wellFormed bare
      · intro heads
        exact heads.mono fun _ _ => trivial
    · intro d declared
      exact ((read d declared).bare_of_bareParentheses wellFormed bare).spelled_eq

/-- The left side of a function F of X whose closing parenthesis carries this exponent. -/
def functionSide (power : Option Expression) : Expression :=
  [.run (.single (.drawn 'F' 0 50 8 12)) none, .run (.single (.drawn '(' 15 50 6 14)) none,
    .run (.single (.drawn 'X' 30 50 8 12)) none, .run (.single (.drawn ')' 45 50 6 14)) power]

/-- The drawing of a function of X that is one, with something after its left side. -/
def functionIsOne (after : List Glyph) : List Glyph :=
  [.drawn 'F' 0 50 8 12, .drawn '(' 15 50 6 14, .drawn 'X' 30 50 8 12, .drawn ')' 45 50 6 14] ++
    after ++ [.drawn '=' 70 50 10 6, .drawn '1' 85 50 8 12]

/-- The right side of `functionIsOne`. -/
def oneSide : Expression := [.run (.single (.drawn '1' 85 50 8 12)) none]

/-- A function F of X that is one is declared, all of its left side with it. -/
theorem declaration_reads_left_side_of_function :
    parseFormula .standard .declare [] (functionIsOne []) =
        .ok (.equation (functionSide none) oneSide) ∧
      BareParentheses (functionSide none) ∧
      Request.ofParsed .declare (.equation (functionSide none) oneSide) =
        .ok (.declare (.function "F" "X" "1" (.ofList []))) ∧
      (∃ s, Signature.Heads (· = none) s (functionSide none)) ∧
      Expression.spelled (functionSide none) = Signature.chars ⟨"F", some "X"⟩ := by
  have read : parseFormula .standard .declare [] (functionIsOne []) =
      .ok (.equation (functionSide none) oneSide) := by decide +kernel
  have bare : BareParentheses (functionSide none) := by decide +kernel
  have declared : Request.ofParsed .declare (.equation (functionSide none) oneSide) =
      .ok (.declare (.function "F" "X" "1" (.ofList []))) := by decide +kernel
  obtain ⟨made, spelled⟩ := (declaration_reads_left_side _ _ _ _ _ _ read).2.2 bare
  refine ⟨read, bare, declared, (made.mp ?_).2, spelled _ declared⟩
  rw [declared]
  rfl

/-- A two drawn above the line, as an exponent. -/
def raisedTwo : Expression := [.run (.single (.drawn '2' 54 35 6 8)) none]

/-- A function drawn with its closing parenthesis squared is declared like the function, and the
square is lost. -/
theorem declaration_loses_raised_two :
    parseFormula .standard .declare [] (functionIsOne [.drawn '2' 54 35 6 8]) =
        .ok (.equation (functionSide (some raisedTwo)) oneSide) ∧
      Request.ofParsed .declare (.equation (functionSide (some raisedTwo)) oneSide) =
        .ok (.declare (.function "F" "X" "1" (.ofList []))) ∧
      Expression.spelled (functionSide (some raisedTwo)) = "F(X)2".toList ∧
      Signature.chars ⟨"F", some "X"⟩ = "F(X)".toList ∧
      ¬∃ s, Signature.Heads (· = none) s (functionSide (some raisedTwo)) := by
  refine ⟨by decide +kernel, by decide +kernel, by decide +kernel, by decide +kernel, ?_⟩
  intro h
  obtain ⟨s, heads⟩ := h
  have bare := heads.power_eq_none _ (List.getLast_mem (List.cons_ne_nil _ _))
  cases bare

end PenMath
