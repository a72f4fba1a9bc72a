import PenMath.Decimal
import PenMath.Fault
import PenMath.Json.Document

/-!
# Reading documents

A reader takes a document and gives a value or the first flaw in it, in the order of the text.

What a record may hold is described by `Fields`: which names are known, and what has been read of
them. The fields may come in any order, each once, and unknown ones are skipped. A record may also
be written as the list of its values in the order of the description.

Of what can be wrong with a stored text, only what is wrong with its content has a text of its
own.
-/

namespace PenMath.Json

/-! ## Flaws -/

/-- What is wrong with a stored text. -/
inductive Flaw where
  /-- It is no JSON text, or not of the expected form. -/
  | malformed
  /-- A label is no symbol. -/
  | unknownSymbol (label : Char)
  /-- A rectangle has a number that is not finite. -/
  | notFinite (x y width height : Coord)
deriving DecidableEq

namespace Flaw

/-- Coordinates in a message: positional from 10^-4 to below 10^16; of two equally near decimals the
larger one. -/
def layout : Layout where
  least := -4
  greatest := 15
  positiveMark := ""
  tie := .up

/-- The text of a flaw, if it has one. -/
def message? : Flaw → Option String
  | malformed => none
  | unknownSymbol label => some (Fault.message (.unknownSymbol label))
  | notFinite x y width height =>
    let numbers := [x, y, width, height].map fun a => String.ofList (layout.chars a)
    some ("Invalid geometry: non-finite rectangle [" ++ ", ".intercalate numbers ++ "]")

end Flaw

/-! ## Readers -/

/-- A way to read a document. -/
abbrev Reader (α : Type) := Document → Except Flaw α

namespace Reader

/-- Reads a text as one document. -/
def readText {α : Type} (read : Reader α) (text : String) : Except Flaw α := do
  let (document, isWhole) := Document.ofText text
  let value ← read document
  if isWhole then .ok value else .error .malformed

/-- Reads a text that has a value. -/
def text : Reader String
  | .text (some s) => .ok s
  | _ => .error .malformed

/-- Reads a text of a single character. -/
def char : Reader Char := fun document => do
  match (← text document).toList with
  | [c] => .ok c
  | _ => .error .malformed

/-- Reads any number as a coordinate. -/
def coord : Reader Coord
  | .number n =>
    match n.number.coord? with
    | some a => .ok a
    | none => .error .malformed
  | _ => .error .malformed

/-- Reads an integer from zero on that fits 64 bits. -/
def natural : Reader Nat
  | .number n =>
    match n.number with
    | .natural n => .ok n
    | _ => .error .malformed
  | _ => .error .malformed

/-- Reads items one after the other. -/
def items {α : Type} (read : Reader α) : List Document → Except Flaw (List α)
  | [] => .ok []
  | document :: rest => do
    let item ← read document
    let others ← items read rest
    return item :: others

/-- Reads a list. -/
def list {α : Type} (read : Reader α) : Reader (List α)
  | .list documents ended => do
    let all ← items read documents
    if ended then .ok all else .error .malformed
  | _ => .error .malformed

/-- Reads null as nothing. -/
def option {α : Type} (read : Reader α) : Reader (Option α)
  | .null => .ok none
  | document => (read document).map some

/-- Reads the name of a choice, which may also be written as a record with null. -/
def choice {α : Type} (choices : List (String × α)) : Reader α
  | .text (some name) | .record [(some name, .null)] true =>
    match choices.lookup name with
    | some a => .ok a
    | none => .error .malformed
  | _ => .error .malformed

/-- Reads a record of a single field, whose name says how its value is read. -/
def variant {α : Type} (readers : List (String × Reader α)) : Reader α
  | .record ((some name, document) :: rest) ended =>
    match readers.lookup name with
    | some read => do
      let value ← read document
      if rest.isEmpty && ended then .ok value else .error .malformed
    | none => .error .malformed
  | _ => .error .malformed

end Reader

/-! ## Records -/

/-- Known fields: what is kept of them, and how one of them or the leading items of a list are
taken. -/
structure Fields (σ : Type) where
  /-- Nothing read yet. -/
  blank : σ
  /-- Takes a field, none if the name is not known here. -/
  take? : String → Document → σ → Option (Except Flaw σ)
  /-- Takes the leading items. -/
  takeItems : List Document → Except Flaw (σ × List Document)

namespace Fields

variable {σ τ α : Type}

/-- A field of this name; it is known once. -/
def single (name : String) (read : Reader α) : Fields (Option α) where
  blank := none
  take? other document kept :=
    if other = name then
      some (if kept.isSome then .error .malformed else (read document).map some)
    else none
  takeItems
    | [] => .error .malformed
    | document :: rest => (read document).map fun a => (some a, rest)

/-- A field of this name that may be left out at the end of a list. -/
def singleOrEnd (name : String) (read : Reader α) : Fields (Option α) :=
  { single name read with
    takeItems
      | [] => .ok (none, [])
      | documents => (single name read).takeItems documents }

/-- Some fields, then others. -/
def both (f : Fields σ) (g : Fields τ) : Fields (σ × τ) where
  blank := (f.blank, g.blank)
  take? name document kept :=
    match f.take? name document kept.1 with
    | some taken => some (taken.map fun one => (one, kept.2))
    | none => (g.take? name document kept.2).map fun taken => taken.map fun two => (kept.1, two)
  takeItems documents := do
    let (one, rest) ← f.takeItems documents
    let (two, rest) ← g.takeItems rest
    return ((one, two), rest)

/-- Takes fields one after the other. -/
def takeFields (f : Fields σ) : List Field → σ → Except Flaw σ
  | [], kept => .ok kept
  | (none, _) :: _, _ => .error .malformed
  | (some name, document) :: rest, kept =>
    match f.take? name document kept with
    | some taken => do takeFields f rest (← taken)
    | none => if document.isEnded then takeFields f rest kept else .error .malformed

/-- Reads a record with these fields, and makes a value of what is kept. -/
def read (f : Fields σ) (make : σ → Except Flaw α) : Reader α
  | .record fields ended => do
    let kept ← f.takeFields fields f.blank
    if ended then make kept else .error .malformed
  | .list documents ended => do
    let (kept, rest) ← f.takeItems documents
    if rest.isEmpty && ended then make kept else .error .malformed
  | _ => .error .malformed

end Fields

/-- A value that must have been read. -/
def required {α : Type} : Option α → Except Flaw α
  | some a => .ok a
  | none => .error .malformed

/-! ## Tagged records -/

/-- The tag of a record and the record without it. The tag is a field of this name, once and
anywhere, or the first item of a list. -/
def untag? (tag : String) : Document → Option (Document × Document)
  | .record fields ended =>
    match fields.filter fun field => field.1 = some tag with
    | [(_, found)] => some (found, .record (fields.filter fun field => field.1 ≠ some tag) ended)
    | _ => none
  | .list (found :: rest) ended => some (found, .list rest ended)
  | _ => none

/-- The reader that a tag names. In a record that is itself a field of a tagged one, a tag may also
be the number of the reader. -/
def tagReader? {α : Type} (isField : Bool) (readers : List (String × Reader α)) :
    Document → Option (Reader α)
  | .text (some name) => readers.lookup name
  | .number n =>
    match isField, n.number with
    | true, .natural index => readers[index]?.map (·.2)
    | _, _ => none
  | _ => none

/-- Reads a record whose tag says how the rest of it is read. It is looked at as a whole before. -/
def Reader.tagged {α : Type} (tag : String) (isField : Bool)
    (readers : List (String × Reader α)) : Reader α := fun document =>
  if document.isWhole then
    match untag? tag document with
    | some (found, body) =>
      match tagReader? isField readers found with
      | some read => read body
      | none => .error .malformed
    | none => .error .malformed
  else .error .malformed

end PenMath.Json
