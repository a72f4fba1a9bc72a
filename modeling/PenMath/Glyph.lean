import PenMath.Fault
import PenMath.Rect

/-!
# Symbols and glyphs

Every character that can be recognized belongs to one syntactic category: the ten digits, the
capital letters A to Z, five operators and two parentheses. Nothing else is a symbol. The fifth
kind, the fraction, belongs to entries of a base line and never to a character.

A glyph is a recognized symbol: its label and the rectangle it was drawn in. A glyph exists only for
labels that are symbols, so its kind is a function of its label and the two cannot disagree.
-/

namespace PenMath

/-- Syntactic category of a symbol or of an entry of a base line. -/
inductive Kind where
  | digit
  | letter
  | operator
  | parenthesis
  | fraction
deriving DecidableEq

namespace Kind

/-- The operators of a formula. -/
def operators : List Char := ['+', '-', '/', '*', '=']

/-- The kind of a character, none if it is no symbol. -/
def ofLabel? (label : Char) : Option Kind :=
  if '0' ≤ label ∧ label ≤ '9' then some digit
  else if 'A' ≤ label ∧ label ≤ 'Z' then some letter
  else if label ∈ operators then some operator
  else if label = '(' ∨ label = ')' then some parenthesis
  else none

/-! The labels that a correction may write are symbols. -/

theorem isSome_divide : (ofLabel? '/').isSome := rfl
theorem isSome_equals : (ofLabel? '=').isSome := rfl
theorem isSome_O : (ofLabel? 'O').isSome := rfl
theorem isSome_S : (ofLabel? 'S').isSome := rfl

/-- Whether neighbouring symbols of this kind join into one run. -/
def merges : Kind → Bool
  | digit | letter => true
  | operator | parenthesis | fraction => false

end Kind

/-! ## Glyphs -/

/-- A recognized symbol and the rectangle it was drawn in. -/
structure Glyph where
  label : Char
  rect : Rect
  known : (Kind.ofLabel? label).isSome
deriving DecidableEq

namespace Glyph

/-- The glyph with this label, if the label is a symbol. -/
def make (label : Char) (rect : Rect) : Except Fault Glyph :=
  if known : (Kind.ofLabel? label).isSome then .ok ⟨label, rect, known⟩
  else .error (.unknownSymbol label)

/-- The kind of the label. -/
def kind (g : Glyph) : Kind := (Kind.ofLabel? g.label).get g.known

/-- The same drawing read as another symbol. -/
def relabel (g : Glyph) (label : Char) (known : (Kind.ofLabel? label).isSome) : Glyph :=
  ⟨label, g.rect, known⟩

theorem ofLabel?_label (g : Glyph) : Kind.ofLabel? g.label = some g.kind := by
  simp [kind]

/-- The kind is that of the label. -/
theorem kind_of_label (g : Glyph) {label : Char} {kind : Kind} (h : g.label = label)
    (known : Kind.ofLabel? label = some kind) : g.kind = kind := by
  have own := g.ofLabel?_label
  rw [h, known] at own
  exact (Option.some.inj own).symm

/-- A glyph is what it was made of. -/
theorem make_eq_ok_iff {label : Char} {rect : Rect} {g : Glyph} :
    make label rect = .ok g ↔ g.label = label ∧ g.rect = rect := by
  unfold make
  split
  next known =>
    constructor
    · rintro ⟨⟩
      exact ⟨rfl, rfl⟩
    · rintro ⟨rfl, rfl⟩
      rfl
  next unknown =>
    constructor
    · intro h
      cases h
    · rintro ⟨rfl, rfl⟩
      exact absurd g.known unknown

@[simp] theorem label_relabel (g : Glyph) (label : Char)
    (known : (Kind.ofLabel? label).isSome) :
    (g.relabel label known).label = label := rfl

@[simp] theorem rect_relabel (g : Glyph) (label : Char)
    (known : (Kind.ofLabel? label).isSome) :
    (g.relabel label known).rect = g.rect := rfl

/-- Two glyphs with one label and one rectangle are the same. -/
theorem ext {g h : Glyph} (label : g.label = h.label) (rect : g.rect = h.rect) : g = h := by
  cases g
  cases h
  cases label
  cases rect
  rfl

end Glyph

/-- The glyph with this label, center and size; what is no symbol is drawn as "0". -/
def Glyph.drawn (label : Char) (x y width height : Int) : Glyph :=
  let rect := .make (.ofInt x) (.ofInt y) (.ofInt width) (.ofInt height)
  if known : (Kind.ofLabel? label).isSome then ⟨label, rect, known⟩ else ⟨'0', rect, rfl⟩

end PenMath
