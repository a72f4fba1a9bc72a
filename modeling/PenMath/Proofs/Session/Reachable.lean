import PenMath.Proofs.Declaration.Sound
import PenMath.Proofs.Formula.Made

/-!
# Every session that can be reached is sound

Two things are kept by every command (`IsSound.obey`), whatever it does and whether or not it fails:
all rectangles have been made, and everything declared is sound and stands under its own name, which
is not built in. Commands to formulas leave the registry alone, watching leaves the declarations
alone, and a formula that is submitted adds a declaration only if it has been read, so a run from
the empty session keeps both (`reachable_session_is_sound`).
-/

namespace PenMath

/-- What holds of every glyph. -/
structure Glyph.IsSound (g : Glyph) : Prop where
  known : Kind.ofLabel? g.label = some g.kind
  width : 0 ≤ g.rect.width ∧ g.rect.width.isNaN = false
  height : 0 ≤ g.rect.height ∧ g.rect.height.isNaN = false
  made : g.rect.IsMade

theorem Formula.IsMade.isSound {f : Formula} (h : f.IsMade) : ∀ g ∈ f.glyphs, g.IsSound := by
  intro g mem
  refine ⟨g.ofLabel?_label, ?_, ?_, h g mem⟩
  · exact ⟨g.rect.width_nonneg, g.rect.width_isNaN⟩
  · exact ⟨g.rect.height_nonneg, g.rect.height_isNaN⟩

/-- Whether everything declared is sound and found under its own name, which is not built in. -/
def Registry.IsSound (r : Registry) : Prop :=
  ∀ name d, r.declaration? name = some d → d.name = name ∧ name ∉ builtins ∧ d.IsSound

/-- What is declared is the new declaration or was declared before. -/
theorem Registry.IsSound.record {r : Registry} {d : Declaration} (h : r.IsSound)
    (allowed : d.name ∉ builtins) (sound : d.IsSound) : (r.record d).IsSound := by
  intro name d' found
  rw [declaration?_record] at found
  split at found
  next own =>
    cases found
    exact ⟨own.symm, own ▸ allowed, sound⟩
  next => exact h name d' found

namespace Session

/-- What every command keeps. -/
structure IsSound (s : Session) : Prop where
  formulas : ∀ f ∈ s.formulas, f.IsMade
  registry : s.registry.IsSound

variable {s : Session}

theorem isSound_start (t : Thresholds) : (start t).IsSound where
  formulas := List.forall_mem_nil _
  registry name d found := by simp [start, Registry.empty, Registry.declaration?] at found

theorem IsSound.addAll {formulas : List Formula} (h : s.IsSound)
    (made : ∀ f ∈ formulas, f.IsMade) : (s.addAll formulas).1.IsSound := by
  induction formulas generalizing s with
  | nil => exact h
  | cons f rest ih =>
    obtain ⟨first, others⟩ := List.forall_mem_cons.mp made
    refine ih ⟨?_, h.registry⟩ others
    exact List.forall_mem_append.mpr ⟨h.formulas, List.forall_mem_singleton.mpr first⟩

/-- A change that leaves a formula made leaves the session sound. -/
theorem IsSound.amend {index : Nat} {change : Formula → Except Fault Formula} (h : s.IsSound)
    (keeps : ∀ f f', f.IsMade → change f = .ok f' → f'.IsMade) :
    (s.amend index change).1.IsSound := by
  rcases amend_cases s index change with
    ⟨-, done⟩ | ⟨f, found, ⟨fault, -, done⟩ | ⟨f', changed, done⟩⟩
  · rw [done]
    exact h
  · rw [done]
    exact h
  · rw [done]
    refine ⟨?_, h.registry⟩
    intro f'' mem
    rcases List.mem_or_eq_of_mem_set mem with before | rfl
    · exact h.formulas f'' before
    · exact keeps f f'' (h.formulas f (List.mem_of_getElem? found)) changed

/-- The only thing that a submitted formula leaves is a declaration that was read. -/
theorem IsSound.submit (h : s.IsSound) (index : Nat) : (s.submit index).1.IsSound := by
  rcases submit_cases s index with
    ⟨fault, done, -⟩ | ⟨request, -, -, done⟩ | ⟨d, asked, allowed, done⟩
  · rw [done]
    exact h
  · rw [done]
    exact h
  · rw [done]
    obtain ⟨f, parsed, -, read, made⟩ := request_eq_ok asked
    exact ⟨h.formulas, h.registry.record allowed (Declaration.isSound_of_read read made)⟩

theorem IsSound.submitEach (h : s.IsSound) (indices : List Nat) :
    (s.submitEach indices).1.IsSound := by
  induction indices generalizing s with
  | nil => exact h
  | cons index rest ih => exact ih (h.submit index)

/-- Every command keeps a session sound, whatever it replies. -/
theorem IsSound.obey (h : s.IsSound) (c : Command) : (s.obey c).1.IsSound := by
  cases c with
  | add mode marks =>
    rw [Session.obey]
    cases made : marks.mapM Mark.glyph with
    | error fault => exact h
    | ok glyphs =>
      refine ⟨List.forall_mem_append.mpr ⟨h.formulas, List.forall_mem_singleton.mpr ?_⟩, h.registry⟩
      exact forall_of_mapM made fun _ _ drawn => Mark.isMade_glyph drawn
  | load text =>
    rw [Session.obey, load]
    cases read : loadFormulas text with
    | error fault => exact h
    | ok formulas => exact h.addAll (Formula.isMade_of_load read)
  | push index t mark =>
    refine h.amend fun f f' made done => ?_
    obtain ⟨g, drawn, rfl⟩ := map_eq_ok.mp done
    exact made.push (Mark.isMade_glyph drawn)
  | replaceLast index mark =>
    refine h.amend fun f f' made done => ?_
    obtain ⟨g, drawn, done⟩ := bind_eq_ok.mp done
    exact made.replaceLast (Mark.isMade_glyph drawn) done
  | relabel index text => exact h.amend fun f f' made done => made.relabel done
  | setMode index mode =>
    refine h.amend fun f f' made done => ?_
    cases done
    exact made
  | watch | watchAll | unwatch => exact ⟨h.formulas, h.registry⟩
  | submit index =>
    rw [(obey_submit s index).1]
    exact h.submit index
  | submitAll => exact h.submitEach _

theorem IsSound.run (h : s.IsSound) (commands : List Command) : (s.run commands).IsSound := by
  induction commands generalizing s with
  | nil => exact h
  | cons command rest ih => exact ih (h.obey command)

/-- Whatever has been done to a session: the label of every glyph is a symbol of its kind, no size
is negative or no number, and everything declared has a name of capital letters that is not built
in, a body, at most a single letter as its parameter, and reads only names other than these two. -/
theorem reachable_session_is_sound (t : Thresholds) (commands : List Command) :
    (∀ f ∈ ((start t).run commands).formulas, ∀ g ∈ f.glyphs, g.IsSound) ∧
    ∀ name d, ((start t).run commands).registry.declaration? name = some d →
      d.name = name ∧ name ∉ ["COS", "SIN", "EXP", "LOG"] ∧ d.IsSound := by
  have sound := (isSound_start t).run commands
  exact ⟨fun f mem => (sound.formulas f mem).isSound, sound.registry⟩

/-- K is declared to be two, and two strokes at infinity and nowhere become one "=". -/
def mergingRun : List Command := [
  .add .declare [⟨'K', .ofInt 0, .ofInt 50, .ofInt 8, .ofInt 12⟩,
    ⟨'-', .ofInt 20, .ofInt 46, .ofInt 14, .ofInt 2⟩,
    ⟨'-', .ofInt 20, .ofInt 54, .ofInt 14, .ofInt 2⟩,
    ⟨'2', .ofInt 40, .ofInt 50, .ofInt 8, .ofInt 12⟩],
  .submit 0,
  .add .eval [],
  .push 1 .standard ⟨'-', .ofBits 0x7f800000, .ofInt 0, .ofInt (-3), .ofBits 0x7f800000⟩,
  .push 1 .standard ⟨'-', .ofBits 0xff800000, .ofBits 0x7fc00000, .ofBits 0x7fc00000, .ofInt 0⟩]

/-- The "=" that was merged has a rectangle that was made, and K is declared. -/
theorem reachable_session_is_sound_of_merging :
    ((start .standard).run mergingRun).formulas.map Formula.prediction = ["K--2", "="] ∧
    (∀ f ∈ ((start .standard).run mergingRun).formulas, ∀ g ∈ f.glyphs, g.IsSound) ∧
    ((start .standard).run mergingRun).registry.declaration? "K" =
      some (.constant "K" "2" (.ofList [])) ∧
    (Declaration.constant "K" "2" (.ofList [])).IsSound := by
  obtain ⟨glyphs, declared⟩ := reachable_session_is_sound .standard mergingRun
  have found : ((start .standard).run mergingRun).registry.declaration? "K" =
      some (.constant "K" "2" (.ofList [])) := by decide +kernel
  exact ⟨by decide +kernel, glyphs, found, (declared _ _ found).2.2⟩

end Session

end PenMath
