import PenMath.Decimal

/-!
# Values and their text

A value is what this library writes as JSON. Its text has no blanks, the fields of a record stand in
their order, and only those characters are escaped that must be.
-/

namespace PenMath.Json

/-- A value to be written. -/
inductive Value where
  | null
  | bool (value : Bool)
  | natural (n : Nat)
  | coord (a : Coord)
  | text (s : String)
  | list (items : List Value)
  | record (fields : List (String × Value))
deriving Inhabited

/-- Coordinates in a JSON text: positional from 10^-6 to 10^12, else with a sign before the
exponent; of two equally near decimals the even one. -/
def layout : Layout where
  least := -6
  greatest := 12
  positiveMark := "+"
  tie := .toEven

/-- The characters of a word. -/
def nullChars : List Char := ['n', 'u', 'l', 'l']

/-- The text of a truth value. -/
def boolChars : Bool → List Char
  | true => ['t', 'r', 'u', 'e']
  | false => ['f', 'a', 'l', 's', 'e']

/-- The text of a coordinate; there is none for what is not finite. -/
def coordChars (a : Coord) : List Char := if a.isFinite then layout.finiteChars a else nullChars

/-- A hexadecimal digit. -/
def hexDigit (n : Nat) : Char :=
  if n < 10 then .ofNat (n + '0'.toNat) else .ofNat (n - 10 + 'a'.toNat)

/-- A character inside of quotes. -/
def escape (c : Char) : List Char :=
  match c with
  | '"' => ['\\', '"']
  | '\\' => ['\\', '\\']
  | '\x08' => ['\\', 'b']
  | '\x0c' => ['\\', 'f']
  | '\n' => ['\\', 'n']
  | '\r' => ['\\', 'r']
  | '\t' => ['\\', 't']
  | _ =>
    if c.toNat < 0x20 then ['\\', 'u', '0', '0', hexDigit (c.toNat / 16), hexDigit (c.toNat % 16)]
    else [c]

/-- A text between quotes. -/
def textChars (s : String) : List Char := '"' :: (s.toList.flatMap escape ++ ['"'])

namespace Value

mutual

/-- The characters of a value. -/
def chars : Value → List Char
  | null => nullChars
  | bool value => boolChars value
  | natural n => Layout.digitChars n
  | coord a => coordChars a
  | text s => textChars s
  | list items => '[' :: (itemsChars items ++ [']'])
  | record fields => '\x7b' :: (fieldsChars fields ++ ['\x7d'])

/-- The characters of items with commas between them. -/
def itemsChars : List Value → List Char
  | [] => []
  | [item] => item.chars
  | item :: next :: rest => item.chars ++ ',' :: itemsChars (next :: rest)

/-- The characters of fields with commas between them. -/
def fieldsChars : List (String × Value) → List Char
  | [] => []
  | [(name, value)] => textChars name ++ ':' :: value.chars
  | (name, value) :: next :: rest =>
    textChars name ++ ':' :: (value.chars ++ ',' :: fieldsChars (next :: rest))

end

/-- The text of a value. -/
def compact (v : Value) : String := String.ofList v.chars

end Value

end PenMath.Json
