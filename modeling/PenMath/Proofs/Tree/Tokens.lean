import Mathlib.Data.List.SplitBy
import PenMath.Proofs.Tree.Runs
import PenMath.Tree.Linear

/-!
# The tokens of a linear text

A text is cut into tokens by looking at its characters only: digits that stand side by side are one
token, capital letters that stand side by side are one, and everything else is a token by itself.

Cut in this way, the linear text of a well-formed tree has the digit runs and the letter runs of the
tree as its numbers and words, in reading order (`tokensOf_baseChars`). What is written between two
runs keeps them apart: parentheses and signs join nothing, two words always get a "*" between them,
and two numbers follow each other only where an exponent ends the first (`apart_of_isBaseLine`).
-/

namespace PenMath

/-! ## Cutting a text -/

/-- Whether two neighbouring characters belong to one token. -/
def joins (a b : Char) : Bool := a.isDigit && b.isDigit || a.isUpper && b.isUpper

/-- The tokens of a text in order. -/
def tokens (text : List Char) : List (List Char) := text.splitBy joins

/-- The tokens whose characters are all of one class. -/
def tokensOf (p : Char → Bool) (text : List Char) : List (List Char) :=
  (tokens text).filter (·.all p)

/-- The longest runs of digits in a text, in order. -/
def numbersIn (text : String) : List String :=
  (tokensOf Char.isDigit text.toList).map String.ofList

/-- The longest runs of capital letters in a text, in order. -/
def wordsIn (text : String) : List String :=
  (tokensOf Char.isUpper text.toList).map String.ofList

/-- Whether no token goes on from one text into another. -/
def Apart (front back : List Char) : Prop :=
  ∀ a ∈ front.getLast?, ∀ b ∈ back.head?, joins a b = false

theorem tokensOf_append (p : Char → Bool) {front back : List Char} (apart : Apart front back) :
    tokensOf p (front ++ back) = tokensOf p front ++ tokensOf p back := by
  rw [tokensOf, tokens, List.splitBy_append apart, List.filter_append]
  rfl

/-! ## Classes of characters -/

theorem isDigit_iff {c : Char} : c.isDigit = true ↔ '0' ≤ c ∧ c ≤ '9' := by
  show (decide ('0' ≤ c) && decide (c ≤ '9')) = true ↔ '0' ≤ c ∧ c ≤ '9'
  rw [Bool.and_eq_true, decide_eq_true_eq, decide_eq_true_eq]

theorem isUpper_iff {c : Char} : c.isUpper = true ↔ 'A' ≤ c ∧ c ≤ 'Z' := by
  show decide ('A' ≤ c ∧ c ≤ 'Z') = true ↔ 'A' ≤ c ∧ c ≤ 'Z'
  rw [decide_eq_true_eq]

theorem Kind.ofLabel?_eq_digit {c : Char} : ofLabel? c = some .digit ↔ c.isDigit = true := by
  rw [isDigit_iff, ofLabel?]
  split_ifs with digit letter operator bracket <;> simp [digit]

theorem Kind.ofLabel?_eq_letter {c : Char} : ofLabel? c = some .letter ↔ c.isUpper = true := by
  rw [isUpper_iff, ofLabel?]
  split_ifs with digit letter operator bracket
  · -- digits come before the letters
    have before : ¬ 'A' ≤ c := fun above => absurd (Char.le_trans above digit.2) (by decide)
    simp [before]
  all_goals simp [letter]

theorem Kind.ofLabel?_ne_fraction (c : Char) : ofLabel? c ≠ some .fraction := by
  rw [ofLabel?]
  split_ifs <;> simp

/-- Whether a class of characters is the one of a kind of symbols that form tokens. -/
structure IsClass (p : Char → Bool) (k : Kind) : Prop where
  merges : k.merges = true
  spells : ∀ c, p c = true ↔ Kind.ofLabel? c = some k

theorem isClass_digit : IsClass Char.isDigit .digit := ⟨rfl, fun _ => Kind.ofLabel?_eq_digit.symm⟩

theorem isClass_letter : IsClass Char.isUpper .letter :=
  ⟨rfl, fun _ => Kind.ofLabel?_eq_letter.symm⟩

/-- Characters join if both are digits or both are letters. -/
theorem joins_iff {a b : Char} : joins a b = true ↔
    ∃ k, k.merges = true ∧ Kind.ofLabel? a = some k ∧ Kind.ofLabel? b = some k := by
  rw [joins, Bool.or_eq_true, Bool.and_eq_true, Bool.and_eq_true, ← Kind.ofLabel?_eq_digit,
    ← Kind.ofLabel?_eq_digit, ← Kind.ofLabel?_eq_letter, ← Kind.ofLabel?_eq_letter]
  constructor
  · intro h
    rcases h with both | both
    · exact ⟨_, rfl, both⟩
    · exact ⟨_, rfl, both⟩
  · intro h
    obtain ⟨k, merges, both⟩ := h
    cases k with
    | digit => exact .inl both
    | letter => exact .inr both
    | operator | parenthesis | fraction => cases merges

/-! ## Marks -/

/-- Whether a character belongs to no longer token. -/
def IsMark (c : Char) : Prop := ∀ k, k.merges = true → Kind.ofLabel? c ≠ some k

theorem isMark_of_kind {c : Char} {k : Kind} (kind : Kind.ofLabel? c = some k)
    (alone : k.merges = false) : IsMark c := by
  intro k' merges same
  rw [kind, Option.some.injEq] at same
  rw [← same, alone] at merges
  cases merges

theorem isMark_opening : IsMark '(' := isMark_of_kind (k := .parenthesis) rfl rfl
theorem isMark_closing : IsMark ')' := isMark_of_kind (k := .parenthesis) rfl rfl
theorem isMark_slash : IsMark '/' := isMark_of_kind (k := .operator) rfl rfl
theorem isMark_star : IsMark '*' := isMark_of_kind (k := .operator) rfl rfl

section

variable {p : Char → Bool} {k : Kind} {c : Char} {front back text : List Char}

theorem IsMark.not_joins (mark : IsMark c) (d : Char) : joins c d = false ∧ joins d c = false := by
  constructor <;> rw [← Bool.not_eq_true, joins_iff] <;> intro h
  · obtain ⟨k, merges, same, -⟩ := h
    exact mark k merges same
  · obtain ⟨k, merges, -, same⟩ := h
    exact mark k merges same

theorem IsMark.apart_left (mark : IsMark c) : Apart (front ++ [c]) back := by
  intro a last b _
  rw [List.getLast?_concat, Option.mem_some] at last
  rw [← last]
  exact (mark.not_joins b).1

theorem IsMark.apart_right (mark : IsMark c) : Apart front (c :: back) := by
  intro a _ b first
  rw [List.head?_cons, Option.mem_some] at first
  rw [← first]
  exact (mark.not_joins a).2

theorem IsMark.tokensOf_single (cls : IsClass p k) (mark : IsMark c) : tokensOf p [c] = [] := by
  have out : p c = false := by
    rw [← Bool.not_eq_true, cls.spells]
    exact mark k cls.merges
  simp [tokensOf, tokens, List.splitBy, List.splitBy.loop, out]

theorem IsMark.tokensOf_cons (cls : IsClass p k) (mark : IsMark c) :
    tokensOf p (c :: text) = tokensOf p text := by
  have apart : Apart [c] text := show Apart ([] ++ [c]) text from mark.apart_left
  rw [← List.singleton_append, tokensOf_append p apart, mark.tokensOf_single cls, List.nil_append]

theorem IsMark.tokensOf_concat (cls : IsClass p k) (mark : IsMark c) :
    tokensOf p (text ++ [c]) = tokensOf p text := by
  rw [tokensOf_append p mark.apart_right, mark.tokensOf_single cls, List.append_nil]

theorem tokensOf_parenthesized (cls : IsClass p k) (text : List Char) :
    tokensOf p (parenthesized text) = tokensOf p text := by
  rw [parenthesized, isMark_opening.tokensOf_cons cls, isMark_closing.tokensOf_concat cls]

/-- The tokens of a fraction are those of its sides. -/
theorem tokensOf_quotient (cls : IsClass p k) (front back : List Char) :
    tokensOf p (parenthesized front ++ '/' :: parenthesized back) =
      tokensOf p front ++ tokensOf p back := by
  rw [tokensOf_append p isMark_slash.apart_right, isMark_slash.tokensOf_cons cls,
    tokensOf_parenthesized cls, tokensOf_parenthesized cls]

theorem tokensOf_raised (cls : IsClass p k) (text : List Char) :
    tokensOf p ('*' :: '*' :: parenthesized text) = tokensOf p text := by
  rw [isMark_star.tokensOf_cons cls, isMark_star.tokensOf_cons cls, tokensOf_parenthesized cls]

/-! ## Runs -/

variable {r : Run}

theorem Run.IsToken.chars_ne_nil (token : r.IsToken) : r.chars ≠ [] := by
  rw [Run.chars, ne_eq, List.map_eq_nil_iff]
  exact token.notEmpty

theorem Run.IsToken.ofLabel?_eq (token : r.IsToken) (mem : c ∈ r.chars) :
    Kind.ofLabel? c = some r.kind := by
  obtain ⟨g, member, rfl⟩ := List.mem_map.mp mem
  exact token.kinds g member

theorem Run.IsToken.kind_of_isSymbol (token : r.IsToken) (symbol : r.isSymbol c = true)
    (kind : Kind.ofLabel? c = some k) : r.kind = k := by
  rw [isSymbol, decide_eq_true_eq] at symbol
  have label := token.ofLabel?_eq (c := c) (by simp [symbol])
  exact Option.some.inj (label.symm.trans kind)

/-- An operator or a parenthesis stands alone in its run. -/
theorem Run.IsToken.single (token : r.IsToken) (apart : r.kind.merges = false) :
    r.members.length = 1 := by
  apply token.alone
  cases kind : r.kind with
  | operator => exact .inl rfl
  | parenthesis => exact .inr rfl
  | digit | letter =>
    rw [kind] at apart
    cases apart
  | fraction =>
    obtain ⟨c, others, chars⟩ := List.exists_cons_of_ne_nil token.chars_ne_nil
    have label := token.ofLabel?_eq (c := c) (by simp [chars])
    rw [kind] at label
    exact absurd label (Kind.ofLabel?_ne_fraction c)

/-- A run is one token. -/
theorem Run.IsToken.tokens_chars (token : r.IsToken) : tokens r.chars = [r.chars] := by
  refine List.splitBy_of_isChain token.chars_ne_nil ?_
  cases merges : r.kind.merges with
  | true =>
    apply List.Pairwise.isChain
    apply List.pairwise_of_forall_mem_list
    intro a memA b memB
    exact joins_iff.mpr ⟨r.kind, merges, token.ofLabel?_eq memA, token.ofLabel?_eq memB⟩
  | false =>
    have alone : r.chars.length = 1 := by
      rw [Run.chars, List.length_map]
      exact token.single merges
    obtain ⟨c, only⟩ := List.length_eq_one_iff.mp alone
    rw [only]
    exact List.isChain_singleton _

/-- A run is a token of its own class only. -/
theorem Run.IsToken.tokensOf_chars (cls : IsClass p k) (token : r.IsToken) :
    tokensOf p r.chars = if r.kind = k then [r.chars] else [] := by
  rw [tokensOf, token.tokens_chars, List.filter_cons, List.filter_nil]
  refine if_congr ?_ rfl rfl
  rw [List.all_eq_true]
  constructor
  · intro all
    obtain ⟨c, others, chars⟩ := List.exists_cons_of_ne_nil token.chars_ne_nil
    have mem : c ∈ r.chars := by simp [chars]
    have spelled := (cls.spells c).mp (all c mem)
    rw [token.ofLabel?_eq mem] at spelled
    exact Option.some.inj spelled
  · intro same c mem
    rw [cls.spells, ← same]
    exact token.ofLabel?_eq mem

end

/-! ## Entries side by side -/

section

variable {word : Run → Prop} {names : List String}

/-- An entry ends with a parenthesis, unless it is a run without exponent. -/
theorem Node.chars_ends (node : Node) :
    (∃ front, node.chars = front ++ [')']) ∨ ∃ r, node = .run r none := by
  cases node with
  | run r power =>
    cases power with
    | none => exact .inr ⟨r, rfl⟩
    | some p =>
      refine .inl ⟨r.chars ++ '*' :: '*' :: '(' :: baseChars p, ?_⟩
      simp [Node.chars, powerChars, parenthesized]
  | fraction n d rect power =>
    cases power with
    | none =>
      refine .inl ⟨parenthesized (baseChars n) ++ '/' :: '(' :: baseChars d, ?_⟩
      simp [Node.chars, parenthesized]
    | some p =>
      refine .inl ⟨parenthesized (parenthesized (baseChars n) ++ '/' ::
        parenthesized (baseChars d)) ++ '*' :: '*' :: '(' :: baseChars p, ?_⟩
      simp [Node.chars, parenthesized]

/-- A line whose first entry is not a run begins with a parenthesis. -/
theorem baseChars_begins (node : Node) (rest : List Node) :
    (∃ back, baseChars (node :: rest) = '(' :: back) ∨
      ∃ r power back, node = .run r power ∧ baseChars (node :: rest) = r.chars ++ back := by
  have first : ∃ back, baseChars (node :: rest) = node.chars ++ back := by
    cases rest with
    | nil => exact ⟨[], by rw [baseChars, List.append_nil]⟩
    | cons next rest => exact ⟨_, by rw [baseChars]⟩
  obtain ⟨back, text⟩ := first
  rw [text]
  cases node with
  | run r power =>
    rw [Node.chars, List.append_assoc]
    exact .inr ⟨r, power, _, rfl, rfl⟩
  | fraction n d rect power =>
    left
    cases power <;> exact ⟨_, rfl⟩

/-- Where no "*" is written between two entries, no token goes on from one to the next. -/
theorem apart_of_isBaseLine {left right : Node} {rest : List Node}
    (line : IsBaseLine word (left :: right :: rest)) (bare : Node.times left right = []) :
    Apart left.chars (baseChars (right :: rest)) := by
  rcases left.chars_ends with ⟨front, ends⟩ | ⟨r, rfl⟩
  · rw [ends]
    exact isMark_closing.apart_left
  · rcases baseChars_begins right rest with ⟨back, begins⟩ | ⟨s, power, back, rfl, begins⟩
    · rw [begins]
      exact isMark_opening.apart_right
    · have tokenLeft := (line.entries _ List.mem_cons_self).isToken
      have tokenRight :=
        (line.entries _ (List.mem_cons_of_mem _ List.mem_cons_self)).isToken
      intro a last b first
      rw [Node.chars, powerChars, List.append_nil] at last
      rw [begins, List.head?_append_of_ne_nil _ tokenRight.chars_ne_nil] at first
      rw [← Bool.not_eq_true, joins_iff]
      intro joined
      obtain ⟨k, merges, kindA, kindB⟩ := joined
      -- both runs would be of one kind, digits or letters
      rw [tokenLeft.ofLabel?_eq (List.mem_of_getLast? last), Option.some.injEq] at kindA
      rw [tokenRight.ofLabel?_eq (List.mem_of_head? first), Option.some.injEq] at kindB
      cases k with
      | digit => exact (List.isChain_cons_cons.mp line.numbers).1 kindA kindB rfl
      | letter =>
        rw [Node.times, Node.needsTimes, Node.kind_run, Node.kind_run, kindA, kindB] at bare
        cases bare
      | operator | parenthesis | fraction => cases merges

variable {p : Char → Bool} {k : Kind}

/-- The tokens of a line are those of its entries. -/
theorem tokensOf_baseChars_cons (cls : IsClass p k) {node : Node} {rest : List Node}
    (line : IsBaseLine word (node :: rest)) :
    tokensOf p (baseChars (node :: rest)) =
      tokensOf p node.chars ++ tokensOf p (baseChars rest) := by
  cases rest with
  | nil =>
    simp only [baseChars]
    exact (List.append_nil _).symm
  | cons next rest =>
    rw [baseChars]
    by_cases apart : Node.needsTimes node next = true
    · rw [Node.times, if_pos apart, List.singleton_append,
        tokensOf_append p isMark_star.apart_right, isMark_star.tokensOf_cons cls]
    · have bare : Node.times node next = [] := if_neg apart
      rw [bare, List.nil_append, tokensOf_append p (apart_of_isBaseLine line bare)]

theorem tokensOf_append_powerChars (p : Char → Bool) (text : List Char)
    (power : Option Expression) :
    tokensOf p (text ++ powerChars power) = tokensOf p text ++ tokensOf p (powerChars power) := by
  cases power with
  | none => exact (congrArg _ (List.append_nil text)).trans (List.append_nil _).symm
  | some e => exact tokensOf_append p isMark_star.apart_right

/-- The tokens of a fraction are those of its sides, then those of its exponent. -/
theorem tokensOf_fraction (cls : IsClass p k) (n d : Expression) (rect : Rect)
    (power : Option Expression) :
    tokensOf p (Node.fraction n d rect power).chars =
      tokensOf p (baseChars n) ++ (tokensOf p (baseChars d) ++ tokensOf p (powerChars power)) := by
  cases power with
  | none =>
    rw [Node.chars, tokensOf_quotient cls]
    exact congrArg _ (List.append_nil _).symm
  | some e =>
    have raised : (Node.fraction n d rect (some e)).chars =
        parenthesized (parenthesized (baseChars n) ++ '/' :: parenthesized (baseChars d)) ++
          powerChars (some e) := rfl
    rw [raised, tokensOf_append_powerChars, tokensOf_parenthesized cls, tokensOf_quotient cls,
      List.append_assoc]

/-- The tokens of one class in the text of a tree are its runs of that kind. -/
theorem WellFormed.tokensOf_baseChars (cls : IsClass p k) {e : Expression}
    (h : WellFormed names e) :
    tokensOf p (baseChars e) = ((baseRuns e).filter (·.kind = k)).map Run.chars := by
  have ofPower : ∀ power : Option Expression,
      (∀ e ∈ power, tokensOf p (baseChars e) = ((baseRuns e).filter (·.kind = k)).map Run.chars) →
        tokensOf p (powerChars power) = ((powerRuns power).filter (·.kind = k)).map Run.chars := by
    intro power inPower
    cases power with
    | none => rfl
    | some e => exact (tokensOf_raised cls _).trans (inPower e rfl)
  induction e using Expression.induction with
  | nil => rfl
  | run r power rest inPower inRest =>
    have token := (h.line.entries _ List.mem_cons_self).isToken
    have raised := ofPower power fun e carried => inPower e carried (h.power carried).1
    rw [tokensOf_baseChars_cons cls h.line, inRest h.rest, Node.chars,
      tokensOf_append_powerChars, token.tokensOf_chars cls, raised, baseRuns, Node.runs,
      List.filter_append, List.map_append, List.filter_cons]
    split_ifs <;> simp_all
  | fraction n d rect power rest inNumerator inDenominator inPower inRest =>
    have raised := ofPower power fun e carried => inPower e carried (h.power carried).1
    rw [tokensOf_baseChars_cons cls h.line, inRest h.rest, tokensOf_fraction cls,
      inNumerator h.numerator.1, inDenominator h.denominator.1, raised, baseRuns, Node.runs]
    simp only [List.filter_append, List.map_append]

end

end PenMath
