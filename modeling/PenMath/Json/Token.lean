import PenMath.Json.Quoted
import PenMath.Json.Scan

/-!
# Tokens of a JSON text

A JSON text is cut into brackets, punctuation, the three words, numerals and quoted texts; blanks
between them are left out. At the first place where no token begins the sequence ends with `junk`.
-/

namespace PenMath.Json

/-- A token of a JSON text. -/
inductive Token where
  | beginList
  | endList
  | beginRecord
  | endRecord
  | colon
  | comma
  | null
  | bool (value : Bool)
  | number (numeral : Numeral)
  /-- A quoted text, without value if half of a pair of units stands alone in it. -/
  | text (value : Option String)
  /-- What is no token; nothing is read after it. -/
  | junk
deriving DecidableEq

/-- Whether a character may stand between tokens. -/
def isBlank (c : Char) : Bool := c = ' ' || c = '\n' || c = '\t' || c = '\r'

/-- The token that is this character alone. -/
def punctuation? : Char → Option Token
  | '[' => some .beginList
  | ']' => some .endList
  | '\x7b' => some .beginRecord
  | '\x7d' => some .endRecord
  | ':' => some .colon
  | ',' => some .comma
  | _ => none

/-- One of the three words, and what follows it. -/
def word? : List Char → Option (Token × List Char)
  | 'n' :: 'u' :: 'l' :: 'l' :: rest => some (.null, rest)
  | 't' :: 'r' :: 'u' :: 'e' :: rest => some (.bool true, rest)
  | 'f' :: 'a' :: 'l' :: 's' :: 'e' :: rest => some (.bool false, rest)
  | _ => none

/-- A quoted text after its opening quote, and what follows it. -/
def quoted? (chars : List Char) : Option (Token × List Char) :=
  (pieces? chars).map fun found => (.text ((assemble? found.1).map String.ofList), found.2)

/-- A token of several characters, and what follows it. -/
def longToken? : List Char → Option (Token × List Char)
  | '"' :: rest => quoted? rest
  | chars =>
    match word? chars with
    | some found => some found
    | none => (numeral? chars).map fun found => (.number found.1, found.2)

theorem length_word? {chars after : List Char} {token : Token}
    (h : word? chars = some (token, after)) : after.length < chars.length := by
  unfold word? at h
  split at h <;> cases h <;> simp only [List.length_cons] <;> omega

/-- A token takes a character at least, so the scan of a text ends. -/
theorem length_longToken? {chars after : List Char} {token : Token}
    (h : longToken? chars = some (token, after)) : after.length < chars.length := by
  unfold longToken? at h
  split at h
  next rest =>
    obtain ⟨found, pieces, same⟩ := Option.map_eq_some_iff.mp h
    cases same
    exact Nat.lt_succ_of_lt (length_pieces? pieces)
  next =>
    split at h
    next found =>
      cases h
      exact length_word? found
    next =>
      obtain ⟨found, numeral, same⟩ := Option.map_eq_some_iff.mp h
      cases same
      exact length_numeral? numeral

/-- The tokens of a text. -/
def tokens : List Char → List Token
  | [] => []
  | c :: rest =>
    if isBlank c then tokens rest
    else
      match punctuation? c with
      | some token => token :: tokens rest
      | none =>
        match _found : longToken? (c :: rest) with
        | some (token, after) => token :: tokens after
        | none => [.junk]
termination_by chars => chars.length
decreasing_by
  · rw [List.length_cons]; omega
  · rw [List.length_cons]; omega
  · exact length_longToken? _found

end PenMath.Json
