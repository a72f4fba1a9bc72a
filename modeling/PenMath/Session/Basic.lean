import PenMath.Registry.Basic

/-!
# Formulas and sessions

A formula holds its glyphs in drawing order, with the mode it is written in. A new glyph is held
against the one before it at once, so that the labels shown are right while the user writes.

A session is a list of formulas that share one registry of declared names. Submitting a formula
reads it with the names known by then and turns it into a request; a declaration is recorded before
the answer is given. A step that fails leaves the session as it was.
-/

namespace PenMath

/-! ## A formula while it is drawn -/

/-- One formula: its mode, and its glyphs in drawing order. -/
structure Formula where
  mode : Mode
  glyphs : List Glyph
deriving DecidableEq

namespace Formula

/-- A formula without glyphs. -/
def blank (mode : Mode) : Formula := ⟨mode, []⟩

/-- Glyphs with one more, corrected against the last. -/
def extend (t : Thresholds) : List Glyph → Glyph → List Glyph
  | [], g => [g]
  | [last], g =>
    match Relabel.absorb t last g with
    | (merged, none) => [merged]
    | (kept, some next) => [kept, next]
  | first :: second :: rest, g => first :: extend t (second :: rest) g

/-- The formula with a newly recognized glyph; a second half of an "=" goes into the first. -/
def push (f : Formula) (t : Thresholds) (g : Glyph) : Formula :=
  { f with glyphs := extend t f.glyphs g }

/-- The formula whose last glyph took more ink and was recognized anew. -/
def replaceLast (f : Formula) (g : Glyph) : Except Fault Formula :=
  if f.glyphs.isEmpty then .error .emptyFormula
  else .ok { f with glyphs := f.glyphs.dropLast ++ [g] }

/-- The formula with every label overwritten from a text, one character for each glyph. -/
def relabel (f : Formula) (text : String) : Except Fault Formula :=
  if text.toList.length ≠ f.glyphs.length then
    .error (.labelCount f.glyphs.length text.toList.length)
  else do
    let glyphs ← (f.glyphs.zip text.toList).mapM fun pair => Glyph.make pair.2 pair.1.rect
    return { f with glyphs := glyphs }

/-- The formula in another mode. -/
def withMode (f : Formula) (mode : Mode) : Formula := { f with mode := mode }

/-- The labels in drawing order. -/
def prediction (f : Formula) : String := String.ofList (Relabel.labels f.glyphs)

/-- The formula as it reads with the names a registry knows. -/
def parse (f : Formula) (t : Thresholds) (r : Registry) : Except Fault Parsed :=
  parseFormula t f.mode r.names f.glyphs

end Formula

/-! ## Sessions -/

/-- The answer to a formula that was submitted. -/
structure Outcome where
  request : Request
  /-- What the declaration set off, if the formula was one. -/
  propagation : Option Propagation
deriving DecidableEq

/-- Formulas that share declared names. -/
structure Session where
  registry : Registry
  thresholds : Thresholds
  formulas : List Formula

namespace Session

/-- A session without formulas. -/
def start (t : Thresholds) : Session := ⟨.empty, t, []⟩

/-- The session with one more formula, and the index of that formula. -/
def add (s : Session) (f : Formula) : Session × Nat :=
  ({ s with formulas := s.formulas ++ [f] }, s.formulas.length)

/-- The session with more formulas, and their indices. -/
def addAll (s : Session) : List Formula → Session × List Nat
  | [] => (s, [])
  | f :: rest =>
    let (one, index) := s.add f
    let (all, indices) := one.addAll rest
    (all, index :: indices)

/-- The session with the formula at an index changed. -/
def setFormula (s : Session) (index : Nat) (f : Formula) : Session :=
  { s with formulas := s.formulas.set index f }

/-- Changes the formula at an index: none if there is none, and no change if that is a fault. -/
def modify? (s : Session) (index : Nat) (change : Formula → Except Fault Formula) :
    Option (Except Fault (Session × Formula)) :=
  s.formulas[index]?.map fun f => do
    let changed ← change f
    return (s.setFormula index changed, changed)

/-- What the formula at an index asks for, with the names known now. -/
def request (s : Session) (index : Nat) : Except Fault Request :=
  match s.formulas[index]? with
  | none => .error (.unknownFormula index)
  | some f => do
    let parsed ← f.parse s.thresholds s.registry
    Request.ofParsed f.mode parsed

/-- Carries out a request: a declaration is recorded, everything else is left to the solver. -/
def perform (s : Session) : Request → Except Fault (Session × Outcome)
  | .declare d => do
    let (registry, propagation) ← s.registry.declare d
    return ({ s with registry := registry }, ⟨.declare d, some propagation⟩)
  | request => .ok (s, ⟨request, none⟩)

/-- Submits the formula at an index. -/
def submit (s : Session) (index : Nat) : Session × Except Fault Outcome :=
  match s.request index >>= s.perform with
  | .ok (after, outcome) => (after, .ok outcome)
  | .error fault => (s, .error fault)

/-- Submits the formulas at some indices, one after the other. -/
def submitEach (s : Session) : List Nat → Session × List (Except Fault Outcome)
  | [] => (s, [])
  | index :: rest =>
    let (one, outcome) := s.submit index
    let (all, outcomes) := one.submitEach rest
    (all, outcome :: outcomes)

/-- Submits every formula in order; a failure does not stop the rest. -/
def submitAll (s : Session) : Session × List (Except Fault Outcome) :=
  s.submitEach (List.range s.formulas.length)

end Session

end PenMath
