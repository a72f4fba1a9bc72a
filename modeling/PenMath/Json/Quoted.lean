/-!
# Quoted texts

What stands between two quotes of a JSON text. A part of it is a character, as it stands or after a
backslash, or a UTF-16 unit given by four digits. Two units that form a pair are one character, and
a unit of a pair that stands alone is none: such a text has no value, although it is well formed.
-/

namespace PenMath.Json

/-- A part of a quoted text: a character, or a UTF-16 unit by its number. -/
inductive Piece where
  | char (c : Char)
  | unit (n : Nat)
deriving DecidableEq

/-- The value of a hexadecimal digit. -/
def hexValue? (c : Char) : Option Nat :=
  if '0' ≤ c ∧ c ≤ '9' then some (c.toNat - '0'.toNat)
  else if 'a' ≤ c ∧ c ≤ 'f' then some (c.toNat - 'a'.toNat + 10)
  else if 'A' ≤ c ∧ c ≤ 'F' then some (c.toNat - 'A'.toNat + 10)
  else none

/-- The number of a UTF-16 unit from its four digits. -/
def unit? (a b c d : Char) : Option Nat := do
  let a ← hexValue? a
  let b ← hexValue? b
  let c ← hexValue? c
  let d ← hexValue? d
  return 4096 * a + 256 * b + 16 * c + d

/-- The character that a letter after a backslash stands for. -/
def unescape? : Char → Option Char
  | '"' => some '"'
  | '\\' => some '\\'
  | '/' => some '/'
  | 'b' => some '\x08'
  | 'f' => some '\x0c'
  | 'n' => some '\n'
  | 'r' => some '\r'
  | 't' => some '\t'
  | _ => none

/-- The pieces up to the closing quote, and what follows it. -/
def pieces? : List Char → Option (List Piece × List Char)
  | [] => none
  | '"' :: rest => some ([], rest)
  | '\\' :: 'u' :: a :: b :: c :: d :: rest =>
    match unit? a b c d, pieces? rest with
    | some n, some (pieces, after) => some (.unit n :: pieces, after)
    | _, _ => none
  | '\\' :: c :: rest =>
    match unescape? c, pieces? rest with
    | some c, some (pieces, after) => some (.char c :: pieces, after)
    | _, _ => none
  | c :: rest =>
    if c.toNat < 0x20 then none
    else (pieces? rest).map fun found => (.char c :: found.1, found.2)

/-- Whether a unit is the first of a pair. -/
def isLeading (n : Nat) : Bool := 0xd800 ≤ n && n < 0xdc00

/-- Whether a unit is the second of a pair. -/
def isTrailing (n : Nat) : Bool := 0xdc00 ≤ n && n < 0xe000

/-- The characters that pieces stand for, none if half of a pair stands alone. -/
def assemble? : List Piece → Option (List Char)
  | [] => some []
  | .char c :: rest => (assemble? rest).map (c :: ·)
  | .unit n :: .unit m :: rest =>
    if isLeading n then
      if isTrailing m then
        (assemble? rest).map (.ofNat (0x10000 + 0x400 * (n - 0xd800) + (m - 0xdc00)) :: ·)
      else none
    else if isTrailing n then none
    else (assemble? (.unit m :: rest)).map (.ofNat n :: ·)
  | .unit n :: rest =>
    if isLeading n || isTrailing n then none else (assemble? rest).map (.ofNat n :: ·)

/-- What follows a quoted text is shorter by the closing quote and by what each piece takes. -/
theorem length_pieces? {chars after : List Char} {pieces : List Piece}
    (h : pieces? chars = some (pieces, after)) : after.length < chars.length := by
  fun_induction pieces? chars generalizing pieces after with
  | case1 | case4 | case6 | case7 => cases h
  | case2 =>
    cases h
    exact Nat.lt_succ_self _
  | case3 a b c d rest n found after' tail _ ih =>
    cases h
    have less := ih tail
    simp only [List.length_cons]
    omega
  | case5 c rest _ c' found after' tail _ ih =>
    cases h
    have less := ih tail
    simp only [List.length_cons]
    omega
  | case8 c rest _ _ _ _ ih =>
    obtain ⟨found, tail, same⟩ := Option.map_eq_some_iff.mp h
    cases same
    exact Nat.lt_succ_of_lt (ih tail)

end PenMath.Json
