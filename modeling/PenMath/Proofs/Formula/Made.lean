import PenMath.Proofs.Json.Record
import PenMath.Proofs.Session.Frame

/-!
# Where the rectangles of a formula come from

Every rectangle of a formula has been made: its numbers come out of `Rect.make` as they go in
(`Rect.IsMade`). That is so for a mark, for a stored rectangle and for the union of any two, however
large or senseless their numbers are, and correcting a label leaves the rectangle alone. So it is
kept by everything that can be done to a formula.
-/

namespace PenMath

/-! ## Rectangles -/

theorem Coord.toSize_toSize (a : Coord) : a.toSize.toSize = a.toSize := by
  by_cases above : 0 < a
  · have same : a.toSize = a := if_pos above
    rw [same, same]
  · have none : a.toSize = 0 := if_neg above
    rw [none]
    rfl

namespace Rect

/-- Whether making a rectangle of its own numbers gives the same rectangle. -/
def IsMade (r : Rect) : Prop := make r.x r.y r.width r.height = r

theorem isMade_make (x y width height : Coord) : (make x y width height).IsMade := by
  rw [IsMade, make, make]
  congr 1
  · exact width.toSize_toSize
  · exact height.toSize_toSize

theorem isMade_union (r s : Rect) : (r.union s).IsMade := isMade_make _ _ _ _

/-- Every stored rectangle that can be read is made of the numbers read. -/
theorem gives_ofStored : ofStored.Gives IsMade := by
  refine (Json.Fields.Keep.anything fields).read ?_
  rintro ⟨center, width, height⟩ r - made
  obtain ⟨⟨x, y⟩, -, made⟩ := bind_eq_ok.mp made
  obtain ⟨width, -, made⟩ := bind_eq_ok.mp made
  obtain ⟨height, -, made⟩ := bind_eq_ok.mp made
  rw [ofFinite] at made
  split at made
  next =>
    cases made
    exact isMade_make _ _ _ _
  next => cases made

end Rect

/-! ## Glyphs -/

theorem Glyph.isMade_of_make {label : Char} {rect : Rect} {g : Glyph} (rectMade : rect.IsMade)
    (made : make label rect = .ok g) : g.rect.IsMade := by
  rwa [(make_eq_ok_iff.mp made).2]

theorem Mark.isMade_glyph {m : Mark} {g : Glyph} (made : m.glyph = .ok g) : g.rect.IsMade :=
  Glyph.isMade_of_make (Rect.isMade_make _ _ _ _) made

theorem Glyph.gives_ofStored : ofStored.Gives (·.rect.IsMade) := by
  refine ((Json.Fields.Keep.anything _).both (.single Rect.gives_ofStored "rect")).read ?_
  rintro ⟨label, rect⟩ g ⟨-, rectMade⟩ done
  obtain ⟨label, -, done⟩ := bind_eq_ok.mp done
  obtain ⟨r, found, done⟩ := bind_eq_ok.mp done
  exact isMade_of_make (rectMade r (Json.required_eq_ok.mp found)) (mapError_eq_ok.mp done)

namespace Relabel

variable {t : Thresholds} {previous next : Glyph}

theorem rect_afterDrop : (afterDrop t previous next).rect = next.rect := by
  unfold afterDrop
  split <;> rfl

theorem rect_afterLetter : (afterLetter previous next).rect = next.rect := by
  unfold afterLetter
  split
  next => rfl
  next => split <;> rfl

end Relabel

/-! ## Formulas -/

namespace Formula

/-- Whether every rectangle of a formula has been made. -/
def IsMade (f : Formula) : Prop := ∀ g ∈ f.glyphs, g.rect.IsMade

variable {f f' : Formula} {g : Glyph} {t : Thresholds}

/-- A glyph that is added, or absorbed by the last one, leaves made rectangles. -/
theorem isMade_extend {glyphs : List Glyph} (made : ∀ g ∈ glyphs, g.rect.IsMade)
    (one : g.rect.IsMade) : ∀ g' ∈ extend t glyphs g, g'.rect.IsMade := by
  induction glyphs with
  | nil => exact List.forall_mem_singleton.mpr one
  | cons first rest ih =>
    obtain ⟨firstMade, restMade⟩ := List.forall_mem_cons.mp made
    cases rest with
    | cons second rest => exact List.forall_mem_cons.mpr ⟨firstMade, ih restMade⟩
    | nil =>
      rw [extend, Relabel.absorb]
      by_cases halves : Relabel.areHalvesOfEquals t first g = true
      · rw [if_pos halves]
        exact List.forall_mem_singleton.mpr (Rect.isMade_union _ _)
      · rw [if_neg halves]
        refine List.forall_mem_cons.mpr ⟨firstMade, List.forall_mem_singleton.mpr ?_⟩
        rw [Relabel.rect_afterLetter, Relabel.rect_afterDrop]
        exact one

theorem IsMade.push (h : f.IsMade) (one : g.rect.IsMade) : (f.push t g).IsMade :=
  isMade_extend h one

/-- The glyph that takes the place of the last one comes with a rectangle that was made. -/
theorem IsMade.replaceLast (h : f.IsMade) (one : g.rect.IsMade)
    (done : f.replaceLast g = .ok f') : f'.IsMade := by
  rw [Formula.replaceLast] at done
  split at done
  next => cases done
  next =>
    cases done
    intro g' mem
    rcases List.mem_append.mp mem with before | last
    · exact h g' ((List.dropLast_sublist f.glyphs).subset before)
    · rw [List.mem_singleton.mp last]
      exact one

theorem IsMade.relabel (h : f.IsMade) {text : String} (done : f.relabel text = .ok f') :
    f'.IsMade := by
  intro g mem
  have drawn : g.rect ∈ f'.glyphs.map (·.rect) := List.mem_map_of_mem mem
  rw [(relabel_eq_ok done).2.1] at drawn
  obtain ⟨before, mem, same⟩ := List.mem_map.mp drawn
  rw [← same]
  exact h before mem

theorem gives_ofStored : ofStored.Gives IsMade := by
  refine ((Json.Fields.Keep.anything _).both (.single Glyph.gives_ofStored.list "boxes")).read ?_
  rintro ⟨mode, glyphs⟩ f ⟨-, glyphsMade⟩ done
  obtain ⟨mode, -, done⟩ := bind_eq_ok.mp done
  obtain ⟨all, found, done⟩ := bind_eq_ok.mp done
  cases done
  exact glyphsMade all (Json.required_eq_ok.mp found)

/-- The formulas of a recording have made rectangles only. -/
theorem isMade_of_load {text : Option String} {formulas : List Formula}
    (read : loadFormulas text = .ok formulas) : ∀ f ∈ formulas, f.IsMade := by
  cases text with
  | none => cases read
  | some text => exact gives_ofStored.list.readText (mapError_eq_ok.mp read)

end Formula

end PenMath
