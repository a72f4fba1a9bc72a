import PenMath.Json.Token
import PenMath.Json.Value
import Mathlib.Data.List.Forall2

/-!
# Written tokens

The text of a value is cut into the tokens it was put together from. Escaped or not, a character
inside of quotes is one piece, so a quoted text is found again up to its closing quote. A numeral
has no such end: it is found again where something follows that does not continue it, and all that
follows a value is punctuation or the end of the text (`Closes`).
-/

namespace PenMath.Json

/-! ## Quoted texts -/

/-- Whether a piece stands for a character. Only a character that may not stand as it is can be
given as a unit. -/
inductive Piece.IsOf (c : Char) : Piece → Prop where
  | char : Piece.IsOf c (.char c)
  | unit (unprintable : c.toNat < 0x20) : Piece.IsOf c (.unit c.toNat)

theorem hexValue?_hexDigit : ∀ n < 16, hexValue? (hexDigit n) = some n := by decide

/-- A control character is escaped with four digits, and read from them. -/
theorem unit?_hexDigit {n : Nat} (small : n < 0x20) :
    unit? '0' '0' (hexDigit (n / 16)) (hexDigit (n % 16)) = some n := by
  have zero : hexValue? '0' = some 0 := by decide
  have high := hexValue?_hexDigit (n / 16) (by omega)
  have low := hexValue?_hexDigit (n % 16) (by omega)
  simp only [unit?, zero, high, low, Option.bind_eq_bind, Option.bind_some, Option.pure_def,
    Option.some.injEq]
  omega

theorem pieces?_of_unescape? {letter c : Char} (notUnit : letter ≠ 'u')
    (known : unescape? letter = some c) (rest : List Char) :
    pieces? ('\\' :: letter :: rest) =
      (pieces? rest).map fun found => (.char c :: found.1, found.2) := by
  rw [pieces?.eq_4 _ _ fun _ _ _ _ _ is => absurd is notUnit, known]
  cases pieces? rest <;> rfl

theorem pieces?_of_printable {c : Char} (notQuote : c ≠ '"') (notBackslash : c ≠ '\\')
    (printable : ¬c.toNat < 0x20) (rest : List Char) :
    pieces? (c :: rest) = (pieces? rest).map fun found => (.char c :: found.1, found.2) := by
  rw [pieces?.eq_5 _ _ notQuote (fun _ _ _ _ _ is => absurd is notBackslash)
    (fun _ _ is => absurd is notBackslash), if_neg printable]

/-- A character inside of quotes is one piece. -/
theorem pieces?_escape (c : Char) : ∃ piece : Piece, piece.IsOf c ∧ ∀ rest : List Char,
    pieces? (escape c ++ rest) = (pieces? rest).map fun found => (piece :: found.1, found.2) := by
  unfold escape
  split
  case h_8 notQuote notBackslash _ _ _ _ _ =>
    split
    next unprintable =>
      refine ⟨.unit c.toNat, .unit unprintable, fun rest => ?_⟩
      simp only [List.cons_append, List.nil_append]
      rw [pieces?, unit?_hexDigit unprintable]
      cases pieces? rest <;> rfl
    next printable =>
      exact ⟨.char c, .char, pieces?_of_printable notQuote notBackslash printable⟩
  -- the characters that have a letter of their own
  all_goals exact ⟨.char _, .char, pieces?_of_unescape? (by decide) rfl⟩

/-- A text that was escaped is read piece by piece, one for each character. -/
theorem pieces?_flatMap_escape (chars rest : List Char) : ∃ pieces : List Piece,
    List.Forall₂ Piece.IsOf chars pieces ∧
      pieces? (chars.flatMap escape ++ '"' :: rest) = some (pieces, rest) := by
  induction chars with
  | nil => exact ⟨[], .nil, rfl⟩
  | cons c chars ih =>
    obtain ⟨piece, isOf, found⟩ := pieces?_escape c
    obtain ⟨pieces, areOf, others⟩ := ih
    refine ⟨piece :: pieces, .cons isOf areOf, ?_⟩
    rw [List.flatMap_cons, List.append_assoc, found, others]
    rfl

/-- A unit below all halves of pairs is a character by itself. -/
theorem assemble?_unit {n : Nat} (single : n < 0xd800) (rest : List Piece) :
    assemble? (.unit n :: rest) = (assemble? rest).map (.ofNat n :: ·) := by
  have notLeading : isLeading n = false := by
    rw [isLeading, decide_eq_false (by omega), Bool.false_and]
  have notTrailing : isTrailing n = false := by
    rw [isTrailing, decide_eq_false (by omega), Bool.false_and]
  match rest with
  | [] | .char _ :: _ | .unit _ :: _ => simp [assemble?, notLeading, notTrailing]

/-- Pieces that stand for single characters are put together again. -/
theorem assemble?_of_isOf {chars : List Char} {pieces : List Piece}
    (h : List.Forall₂ Piece.IsOf chars pieces) : assemble? pieces = some chars := by
  induction h with
  | nil => rfl
  | cons first _ ih =>
    cases first with
    | char => rw [assemble?, ih, Option.map_some]
    | unit unprintable => rw [assemble?_unit (by omega), ih, Option.map_some, Char.ofNat_toNat]

/-- A text between quotes is one token. -/
theorem longToken?_textChars (s : String) (rest : List Char) :
    longToken? (textChars s ++ rest) = some (.text (some s), rest) := by
  obtain ⟨pieces, areOf, found⟩ := pieces?_flatMap_escape s.toList rest
  rw [textChars, List.cons_append, List.append_assoc, List.singleton_append, longToken?, quoted?,
    found, Option.map_some, assemble?_of_isOf areOf, Option.map_some, String.ofList_toList]

/-! ## Numerals -/

/-- The numeral that a number is written as. -/
def Numeral.ofNat (n : Nat) : Numeral := ⟨false, Layout.digitChars n, none, none⟩

theorem le_ofDigitChars (digits : List Char) (n : Nat) : n ≤ Nat.ofDigitChars 10 digits n := by
  rw [Nat.ofDigitChars_eq_ofDigitChars_zero]
  exact Nat.le_add_right_of_le (Nat.le_mul_of_pos_left n (Nat.pow_pos (by decide)))

/-- Digits are all taken if their value fits, since no beginning has a greater one. -/
theorem Numeral.fill_eq {digits : List Char} {significand : Nat}
    (fits : Nat.ofDigitChars 10 digits significand < wordLimit) :
    fill significand digits = (Nat.ofDigitChars 10 digits significand, []) := by
  induction digits generalizing significand with
  | nil => rfl
  | cons c digits ih =>
    rw [Nat.ofDigitChars_cons] at fits ⊢
    have further : 10 * significand + digitValue c < wordLimit :=
      Nat.lt_of_le_of_lt (le_ofDigitChars digits _) fits
    rw [fill, if_pos further]
    exact ih fits

theorem Numeral.number_ofNat {n : Nat} (fits : n < wordLimit) : (ofNat n).number = .natural n := by
  have value : Nat.ofDigitChars 10 (Layout.digitChars n) 0 = n := Nat.ofDigitChars_ten_toDigits
  have filled : fill 0 (Layout.digitChars n) = (n, []) := by
    rw [fill_eq (by rwa [value]), value]
  simp [number, ofNat, filled, integer]

theorem digitChars_ne_nil (n : Nat) : Layout.digitChars n ≠ [] := Nat.toDigits_ne_nil

theorem isDigit_of_mem_digitChars {n : Nat} {c : Char} (h : c ∈ Layout.digitChars n) :
    isDigit c = true := by
  have digit : c.isDigit = true := Nat.isDigit_of_mem_toDigits (by decide) (by decide) h
  exact digit

/-- Only the text of zero begins with a zero. -/
theorem head?_digitChars {n : Nat} (positive : 0 < n) :
    (Layout.digitChars n).head? ≠ some '0' := by
  unfold Layout.digitChars
  induction n using Nat.base_induction 10 (by decide) with
  | single n small =>
    rw [Nat.toDigits_of_lt_base small, List.head?_singleton, ne_eq, Option.some.injEq,
      Nat.digitChar_eq_zero]
    omega
  | digit last front small frontPositive ih =>
    rw [← Nat.toDigits_append_toDigits (by decide) frontPositive small,
      List.head?_append_of_ne_nil _ Nat.toDigits_ne_nil]
    exact ih frontPositive

/-- Whether a text has ended or goes on with punctuation. -/
def Closes (rest : List Char) : Prop := ∀ c ∈ rest.head?, (punctuation? c).isSome

theorem closes_nil : Closes [] := nofun

theorem closes_cons {c : Char} (mark : (punctuation? c).isSome) (rest : List Char) :
    Closes (c :: rest) := by
  rintro _ ⟨⟩
  exact mark

/-- Punctuation does not continue a numeral. -/
theorem not_isDigit_of_punctuation? {c : Char} (mark : (punctuation? c).isSome) :
    isDigit c = false ∧ c ≠ '.' ∧ c ≠ 'e' ∧ c ≠ 'E' := by
  unfold punctuation? at mark
  split at mark
  case h_7 => cases mark
  all_goals decide

/-- Digits are read to their end if something else follows. -/
theorem digits?_append {digits rest : List Char} (nonempty : digits ≠ [])
    (all : ∀ c ∈ digits, isDigit c = true) (closes : Closes rest) :
    digits? (digits ++ rest) = some (digits, rest) := by
  have noFurther : rest.takeWhile isDigit = [] ∧ rest.dropWhile isDigit = rest := by
    cases rest with
    | nil => exact ⟨rfl, rfl⟩
    | cons c rest => simp [not_isDigit_of_punctuation? (closes c rfl)]
  rw [digits?, List.takeWhile_append_of_pos all, List.dropWhile_append_of_pos all, noFurther.1,
    noFurther.2, List.append_nil, if_neg (by rwa [List.isEmpty_iff])]

/-- The digits of a number have no zero in front, so they are read as a whole number. -/
theorem whole?_digitChars (n : Nat) {rest : List Char} (closes : Closes rest) :
    whole? (Layout.digitChars n ++ rest) = some (Layout.digitChars n, rest) := by
  rw [whole?, digits?_append (digitChars_ne_nil n) (fun _ => isDigit_of_mem_digitChars) closes]
  split
  next zeroFirst =>
    cases n with
    | zero => cases zeroFirst
    | succ n =>
      have noZero := head?_digitChars (Nat.succ_pos n)
      rw [(Prod.mk.inj (Option.some.inj zeroFirst)).1] at noZero
      exact absurd rfl noZero
  next => rfl

theorem fraction?_of_closes {rest : List Char} (closes : Closes rest) :
    fraction? rest = some (none, rest) := by
  unfold fraction?
  split
  next => exact absurd rfl (not_isDigit_of_punctuation? (closes _ rfl)).2.1
  next => rfl

theorem exponent?_of_closes {rest : List Char} (closes : Closes rest) :
    exponent? rest = some (none, rest) := by
  unfold exponent?
  split
  next =>
    obtain ⟨-, -, small, large⟩ := not_isDigit_of_punctuation? (closes _ rfl)
    rw [if_neg (not_or.mpr ⟨small, large⟩)]
  next => rfl

theorem unsigned?_digitChars (n : Nat) {rest : List Char} (closes : Closes rest) :
    unsigned? false (Layout.digitChars n ++ rest) = some (.ofNat n, rest) := by
  simp [unsigned?, whole?_digitChars n closes, fraction?_of_closes closes,
    exponent?_of_closes closes, Numeral.ofNat]

/-- What begins with a digit is no token but a numeral without sign. -/
theorem longToken?_of_isDigit {d : Char} (digit : isDigit d = true) (chars : List Char) :
    longToken? (d :: chars) =
      (unsigned? false (d :: chars)).map fun found => (.number found.1, found.2) := by
  have other {c : Char} {rest : List Char} (no : isDigit c = false) : d :: chars ≠ c :: rest := by
    rintro ⟨⟩
    rw [no] at digit
    cases digit
  rw [longToken?.eq_2 _ fun _ => other rfl,
    word?.eq_4 _ (fun _ => other rfl) (fun _ => other rfl) (fun _ => other rfl)]
  dsimp only
  rw [numeral?.eq_2 _ fun _ => other rfl]

/-- The text of a number is one token. -/
theorem longToken?_digitChars (n : Nat) {rest : List Char} (closes : Closes rest) :
    longToken? (Layout.digitChars n ++ rest) = some (.number (.ofNat n), rest) := by
  have read := unsigned?_digitChars n closes
  obtain ⟨d, digits, eq⟩ := List.exists_cons_of_ne_nil (digitChars_ne_nil n)
  have digit : isDigit d = true :=
    isDigit_of_mem_digitChars (by rw [eq]; exact List.mem_cons_self)
  rw [eq, List.cons_append] at read ⊢
  rw [longToken?_of_isDigit digit, read, Option.map_some]

/-! ## Tokens at the start of a text -/

/-- A mark is a token by itself. -/
theorem tokens_of_punctuation? {c : Char} {token : Token} (mark : punctuation? c = some token)
    (rest : List Char) : tokens (c :: rest) = token :: tokens rest := by
  have solid : isBlank c = false := by
    unfold punctuation? at mark
    split at mark
    case h_7 => cases mark
    all_goals rfl
  rw [tokens, solid, mark]
  rfl

/-- A token that begins with neither a blank nor a mark is read to its end. -/
theorem tokens_of_longToken? {chars after : List Char} {token : Token}
    (begins : ∀ c ∈ chars.head?, isBlank c = false ∧ punctuation? c = none)
    (found : longToken? chars = some (token, after)) : tokens chars = token :: tokens after := by
  cases chars with
  | nil => cases found
  | cons c chars =>
    obtain ⟨solid, noMark⟩ := begins c rfl
    rw [tokens, solid, if_neg Bool.false_ne_true, noMark]
    dsimp only
    split
    next same =>
      rw [found] at same
      cases same
      rfl
    next none =>
      rw [found] at none
      cases none

@[simp] theorem tokens_nullChars (rest : List Char) :
    tokens (nullChars ++ rest) = .null :: tokens rest :=
  tokens_of_longToken? (by rintro _ ⟨⟩; decide) rfl

@[simp] theorem tokens_boolChars (value : Bool) (rest : List Char) :
    tokens (boolChars value ++ rest) = .bool value :: tokens rest := by
  cases value with
  | true => exact tokens_of_longToken? (by rintro _ ⟨⟩; decide) rfl
  | false => exact tokens_of_longToken? (by rintro _ ⟨⟩; decide) rfl

@[simp] theorem tokens_textChars (s : String) (rest : List Char) :
    tokens (textChars s ++ rest) = .text (some s) :: tokens rest :=
  tokens_of_longToken? (by rintro _ ⟨⟩; decide) (longToken?_textChars s rest)

/-- A digit is neither a blank nor punctuation. -/
theorem solid_of_isDigit {c : Char} (digit : isDigit c = true) :
    isBlank c = false ∧ punctuation? c = none := by
  constructor
  · simp only [isBlank, Bool.or_eq_false_iff, decide_eq_false_iff_not]
    refine ⟨⟨⟨?_, ?_⟩, ?_⟩, ?_⟩ <;>
    · rintro rfl
      cases digit
  · rw [← Option.not_isSome_iff_eq_none]
    intro mark
    rw [(not_isDigit_of_punctuation? mark).1] at digit
    cases digit

theorem tokens_digitChars (n : Nat) {rest : List Char} (closes : Closes rest) :
    tokens (Layout.digitChars n ++ rest) = .number (.ofNat n) :: tokens rest := by
  refine tokens_of_longToken? (fun c first => ?_) (longToken?_digitChars n closes)
  rw [List.head?_append_of_ne_nil _ (digitChars_ne_nil n)] at first
  exact solid_of_isDigit (isDigit_of_mem_digitChars (List.mem_of_mem_head? first))

end PenMath.Json
