import PenMath.Proofs.Declaration.Joined

/-!
# What known names can change

The known names say how letter runs are cut, and nothing else. They are not looked at where labels
are corrected or where a formula is cut at its "="; and two readings of a side without bars fail
alike or are the same once joined. With a bar they need not be: the rectangle of a fraction is put
together from those of its entries, and rounding depends on how these are grouped.

A declaration may be cut in the middle of its name, and is made of the pieces all the same.
-/

namespace PenMath

/-- A formula with its letters joined on every side, at every depth. -/
def Parsed.joined : Parsed → Parsed
  | .expression e => .expression (baseJoined e)
  | .equation left right => .equation (baseJoined left) (baseJoined right)

variable {t : Thresholds} {mode : Mode} {names names' : List String} {glyphs : List Glyph}

/-! ## Reading -/

theorem areSigns_map_glyph (noBar : ∀ g ∈ glyphs, g.label ≠ '/') :
    Region.AreSigns (glyphs.map .glyph) := by
  intro item mem
  obtain ⟨g, member, rfl⟩ := List.mem_map.mp mem
  exact ⟨g, rfl, noBar g member⟩

theorem map_baseJoined_parseSide (t : Thresholds) (names names' : List String)
    (noBar : ∀ g ∈ glyphs, g.label ≠ '/') :
    (parseSide t names glyphs).map baseJoined = (parseSide t names' glyphs).map baseJoined :=
  Region.map_baseJoined_parse (.of t names) (.of t names') rfl 0 (areSigns_map_glyph noBar)

theorem leftOf_subset (equals : Glyph) : leftOf equals glyphs ⊆ glyphs :=
  fun _ mem => (List.mem_filter.mp (List.mem_filter.mp mem).1).1

theorem rightOf_subset (equals : Glyph) : rightOf equals glyphs ⊆ glyphs :=
  fun _ mem => (List.mem_filter.mp (List.mem_filter.mp mem).1).1

/-- Two readings of settled glyphs fail alike, or are the same once joined. -/
theorem map_joined_parseSettled (noBar : ∀ g ∈ glyphs, g.label ≠ '/') :
    (parseSettled t mode names glyphs).map Parsed.joined =
      (parseSettled t mode names' glyphs).map Parsed.joined := by
  rw [parseSettled, parseSettled]
  split
  next =>
    have whole : ∀ x : Except Fault Expression, (x.map Parsed.expression).map Parsed.joined =
        (x.map baseJoined).map Parsed.expression := by
      intro x
      cases x <;> rfl
    rw [whole, whole, map_baseJoined_parseSide t names names' noBar]
  next =>
    -- faults that come before any side is read do not depend on names
    split
    next => rfl
    next =>
      cases cut : splitAtEquals glyphs with
      | error fault => rfl
      | ok sides =>
        obtain ⟨left, right⟩ := sides
        obtain ⟨equals, -, rfl, rfl, -⟩ := splitAtEquals_eq_ok.mp cut
        have readLeft := map_baseJoined_parseSide t names names'
          fun g mem => noBar g (leftOf_subset equals mem)
        have readRight := map_baseJoined_parseSide t names names'
          fun g mem => noBar g (rightOf_subset equals mem)
        show (do
            let left ← parseSide t names (leftOf equals glyphs)
            let right ← parseSide t names (rightOf equals glyphs)
            return Parsed.equation left right).map Parsed.joined =
          (do
            let left ← parseSide t names' (leftOf equals glyphs)
            let right ← parseSide t names' (rightOf equals glyphs)
            return Parsed.equation left right).map Parsed.joined
        refine map_bind_congr readLeft fun l l' sameLeft => ?_
        refine map_bind_congr readRight fun r r' sameRight => ?_
        exact congrArg Except.ok (congrArg₂ Parsed.equation sameLeft sameRight)

/-- A left side that has been read declares what it declares once joined. -/
theorem ofLeft?_of_read {left right : Expression} (noBar : ∀ g ∈ glyphs, g.label ≠ '/')
    (read : parseSettled t mode names glyphs = .ok (.equation left right)) :
    Signature.ofLeft? (baseJoined left) = Signature.ofLeft? left := by
  rcases parseSettled_eq_ok read with ⟨e, ⟨⟩, -⟩ | ⟨l, r, left, right, ⟨⟩, cut, readLeft, -⟩
  obtain ⟨equals, -, rfl, -⟩ := splitAtEquals_eq_ok.mp cut
  exact Signature.ofLeft?_baseJoined
    (areSigns_map_glyph fun g mem => noBar g (leftOf_subset equals mem)) readLeft

/-! ## Declaring -/

/-- Equations that are the same once joined, and whose left sides declare what they declare once
joined, declare alike. -/
theorem declares_alike {left left' right right' : Expression} {request : Request}
    (signs : Signature.ofLeft? left = Signature.ofLeft? left') (empty : right = [] ↔ right' = [])
    (made : Request.ofParsed .declare (.equation left right) = .ok request) :
    ∃ d d', request = .declare d ∧
      Request.ofParsed .declare (.equation left' right') = .ok (.declare d') ∧
      d.name = d'.name ∧ d.isFunction = d'.isFunction ∧ d.parameter? = d'.parameter? := by
  obtain ⟨d, equates, rfl⟩ := map_eq_ok.mp made
  obtain ⟨some, s, read, rfl⟩ := Declaration.ofEquation_eq_ok.mp equates
  refine ⟨_, s.declare right', rfl, Request.ofParsed_eq_declare.mpr
    ⟨rfl, left', right', rfl, mt empty.mpr some, s, signs ▸ read, rfl⟩, ?_, ?_, ?_⟩
  · rw [s.name_declare, s.name_declare]
  · rw [Declaration.isFunction, Declaration.isFunction, s.parameter?_declare, s.parameter?_declare]
  · rw [s.parameter?_declare, s.parameter?_declare]

/-- Readings that are the same once joined declare alike. -/
theorem declares_alike_of_joined {parsed parsed' : Parsed} {request : Request}
    (noBar : ∀ g ∈ glyphs, g.label ≠ '/')
    (read : parseSettled t mode names glyphs = .ok parsed)
    (read' : parseSettled t mode names' glyphs = .ok parsed')
    (same : parsed.joined = parsed'.joined)
    (made : Request.ofParsed .declare parsed = .ok request) :
    ∃ d d', request = .declare d ∧ Request.ofParsed .declare parsed' = .ok (.declare d') ∧
      d.name = d'.name ∧ d.isFunction = d'.isFunction ∧ d.parameter? = d'.parameter? := by
  cases parsed with
  | expression e => cases made
  | equation left right =>
    cases parsed' with
    | expression e => cases same
    | equation left' right' =>
      obtain ⟨sameLeft, sameRight⟩ := Parsed.equation.inj same
      refine declares_alike ?_ ?_ made
      · rw [← ofLeft?_of_read noBar read, sameLeft, ofLeft?_of_read noBar read']
      · rw [← baseJoined_eq_nil, sameRight, baseJoined_eq_nil]

/-- A formula that differs only in how its words are cut is accepted as a declaration alike. -/
theorem isOk_of_joined {parsed parsed' : Parsed} (noBar : ∀ g ∈ glyphs, g.label ≠ '/')
    (read : parseSettled t mode names glyphs = .ok parsed)
    (read' : parseSettled t mode names' glyphs = .ok parsed')
    (same : parsed.joined = parsed'.joined)
    (ok : (Request.ofParsed .declare parsed).isOk = true) :
    (Request.ofParsed .declare parsed').isOk = true := by
  cases made : Request.ofParsed .declare parsed with
  | error fault =>
    rw [made] at ok
    cases ok
  | ok request =>
    obtain ⟨d, d', -, made', -⟩ := declares_alike_of_joined noBar read read' same made
    rw [made']
    rfl

/-- A formula whose settled glyphs contain no bar is read alike with any two lists of known names:
both readings fail with the same fault, or they are the same once joined. Then both declare
something or neither does, and what they declare has the same name and the same parameter. -/
theorem known_names_only_cut_letters (t : Thresholds) (mode : Mode) (names names' : List String)
    (glyphs : List Glyph) (noBar : ∀ g ∈ Relabel.settle t glyphs, g.label ≠ '/') :
    (∀ fault, parseFormula t mode names glyphs = .error fault ↔
      parseFormula t mode names' glyphs = .error fault) ∧
    ∀ parsed parsed', parseFormula t mode names glyphs = .ok parsed →
      parseFormula t mode names' glyphs = .ok parsed' →
      parsed.joined = parsed'.joined ∧
      ((Request.ofParsed .declare parsed).isOk = true ↔
        (Request.ofParsed .declare parsed').isOk = true) ∧
      ∀ request, Request.ofParsed .declare parsed = .ok request →
        ∃ d d', request = .declare d ∧ Request.ofParsed .declare parsed' = .ok (.declare d') ∧
          d.name = d'.name ∧ d.isFunction = d'.isFunction ∧ d.parameter? = d'.parameter? := by
  have alike : (parseFormula t mode names glyphs).map Parsed.joined =
      (parseFormula t mode names' glyphs).map Parsed.joined := map_joined_parseSettled noBar
  refine ⟨fun fault => ?_, fun parsed parsed' read read' => ?_⟩
  · rw [← map_eq_error (f := Parsed.joined), alike, map_eq_error]
  · have same : parsed.joined = parsed'.joined := by
      rw [read, read'] at alike
      exact Except.ok.inj alike
    refine ⟨same, ?_, fun request => declares_alike_of_joined noBar read read' same⟩
    constructor
    · exact isOk_of_joined noBar read read' same
    · exact isOk_of_joined noBar read' read same.symm

/-- The drawing of a function CD of X that is the square of AB. -/
def functionIsSquare : List Glyph :=
  [.drawn 'C' 0 50 8 12, .drawn 'D' 10 50 8 12, .drawn '(' 20 50 6 14, .drawn 'X' 30 50 8 12,
    .drawn ')' 40 50 6 14, .drawn '=' 55 50 10 6, .drawn 'A' 70 50 8 12, .drawn 'B' 80 50 8 12,
    .drawn '2' 88 38 5 7]

/-- A function whose names are cut into letters in one run and whole in the other. -/
theorem known_names_only_cut_letters_of_function :
    (∀ g ∈ Relabel.settle .standard functionIsSquare, g.label ≠ '/') ∧
    ∃ parsed parsed', parseFormula .standard .declare [] functionIsSquare = .ok parsed ∧
      parseFormula .standard .declare ["CD", "AB"] functionIsSquare = .ok parsed' ∧
      parsed.text = "C*D(X)=A*B**(2)" ∧ parsed'.text = "CD(X)=AB**(2)" ∧
      parsed.joined = parsed'.joined ∧
      ∃ d d', Request.ofParsed .declare parsed = .ok (.declare d) ∧
        Request.ofParsed .declare parsed' = .ok (.declare d') ∧
        d.name = d'.name ∧ d.isFunction = d'.isFunction ∧ d.parameter? = d'.parameter? := by
  have noBar : ∀ g ∈ Relabel.settle .standard functionIsSquare, g.label ≠ '/' := by decide +kernel
  have read : (parseFormula .standard .declare [] functionIsSquare).map Parsed.text =
      .ok "C*D(X)=A*B**(2)" := by decide +kernel
  have read' : (parseFormula .standard .declare ["CD", "AB"] functionIsSquare).map Parsed.text =
      .ok "CD(X)=AB**(2)" := by decide +kernel
  have declared : (parseFormula .standard .declare [] functionIsSquare >>=
      Request.ofParsed .declare).map Request.text = .ok "declare CD(X)=A*B**(2)" := by
    decide +kernel
  obtain ⟨parsed, read, text⟩ := map_eq_ok.mp read
  obtain ⟨parsed', read', text'⟩ := map_eq_ok.mp read'
  obtain ⟨request, declared, -⟩ := map_eq_ok.mp declared
  obtain ⟨parsed'', read'', made⟩ := bind_eq_ok.mp declared
  rw [read] at read''
  cases read''
  obtain ⟨same, -, declares⟩ :=
    (known_names_only_cut_letters .standard .declare [] ["CD", "AB"] functionIsSquare noBar).2
      parsed parsed' read read'
  obtain ⟨d, d', rfl, made', parts⟩ := declares request made
  exact ⟨noBar, parsed, parsed', read, read', text, text', same, d, d', made, made', parts⟩

end PenMath
