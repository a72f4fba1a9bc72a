import PenMath.Proofs.Declaration.Outcome
import PenMath.Proofs.Session.Run

/-!
# Leaving formulas out of a batch

Formulas that are submitted one after the other have nothing in common but the registry: what one is
answered with, and what becomes of the registry, depends on the formula, the thresholds and the
registry alone (`Formula.submitTo`). So a batch is a run over the formulas (`submitAll_eq`),
whatever their indices, and a formula that leaves the registry as it was may be left out
(`submitEachTo_leaveOut`). A formula that is not to declare anything is of this kind, and so is one
that is answered with a fault (`Formula.submitTo_of_harmless`).
-/

namespace PenMath

/-! ## Leaving elements out -/

section

variable {α : Type}

/-- A list without the elements at the indices left out. -/
def leaveOut (out : Nat → Bool) (l : List α) : List α :=
  (l.zipIdx.filter fun pair => !out pair.2).map Prod.fst

/-- The places of the rest are counted from the next one on. -/
theorem leaveOut_cons (out : Nat → Bool) (a : α) (rest : List α) :
    leaveOut out (a :: rest) =
      if out 0 then leaveOut (fun i => out (i + 1)) rest
      else a :: leaveOut (fun i => out (i + 1)) rest := by
  have shifted : ((rest.zipIdx 1).filter fun pair => !out pair.2).map Prod.fst =
      leaveOut (fun i => out (i + 1)) rest := by
    rw [List.zipIdx_succ, List.filter_map, List.map_map]
    rfl
  rw [leaveOut, List.zipIdx_cons, List.filter_cons]
  cases out 0 with
  | true => exact shifted
  | false => exact congrArg (a :: ·) shifted

end

/-! ## One formula -/

namespace Formula

/-- What becomes of a registry when a formula is submitted to it, and the answer. -/
def submitTo (t : Thresholds) (r : Registry) (f : Formula) : Registry × Except Fault Outcome :=
  ((Session.submit ⟨r, t, [f]⟩ 0).1.registry, (Session.submit ⟨r, t, [f]⟩ 0).2)

/-- The formulas submitted to a registry one after the other. -/
def submitEachTo (t : Thresholds) (r : Registry) :
    List Formula → Registry × List (Except Fault Outcome)
  | [] => (r, [])
  | f :: rest =>
    let (one, outcome) := f.submitTo t r
    let (all, outcomes) := submitEachTo t one rest
    (all, outcome :: outcomes)

variable {t : Thresholds} {r : Registry} {f : Formula}

/-- A formula that is not to declare anything, or is answered with a fault, leaves the registry as
it was. -/
theorem submitTo_of_harmless
    (harmless : f.mode ≠ .declare ∨ ∃ fault, (f.submitTo t r).2 = .error fault) :
    (f.submitTo t r).1 = r := by
  rw [submitTo] at harmless ⊢
  rcases Session.submit_cases ⟨r, t, [f]⟩ 0 with
    ⟨fault, done, -⟩ | ⟨request, -, -, done⟩ | ⟨d, asked, -, done⟩
  · rw [done]
  · rw [done]
  · rcases harmless with mode | ⟨fault, failed⟩
    · obtain ⟨f', parsed, found, -, made⟩ := Session.request_eq_ok asked
      cases found
      exact absurd (Request.ofParsed_eq_declare.mp made).1 mode
    · rw [done] at failed
      cases failed

theorem submitEachTo_cons (rest : List Formula) : submitEachTo t r (f :: rest) =
    ((submitEachTo t (f.submitTo t r).1 rest).1,
      (f.submitTo t r).2 :: (submitEachTo t (f.submitTo t r).1 rest).2) := rfl

theorem length_submitEachTo (formulas : List Formula) :
    (submitEachTo t r formulas).2.length = formulas.length := by
  induction formulas generalizing r with
  | nil => rfl
  | cons f rest ih => rw [submitEachTo_cons, List.length_cons, List.length_cons, ih]

/-- Harmless formulas may be left out of a run. -/
theorem submitEachTo_leaveOut {out : Nat → Bool} {formulas : List Formula}
    (harmless : ∀ i f, out i = true → formulas[i]? = some f →
      f.mode ≠ .declare ∨ ∃ fault, (submitEachTo t r formulas).2[i]? = some (.error fault)) :
    submitEachTo t r (leaveOut out formulas) =
      ((submitEachTo t r formulas).1, leaveOut out (submitEachTo t r formulas).2) := by
  -- the rest of a run goes on from the registry that the first formula has left
  induction formulas generalizing out r with
  | nil => rfl
  | cons f rest ih =>
    have later : submitEachTo t (f.submitTo t r).1 (leaveOut (fun i => out (i + 1)) rest) =
        ((submitEachTo t (f.submitTo t r).1 rest).1,
          leaveOut (fun i => out (i + 1)) (submitEachTo t (f.submitTo t r).1 rest).2) :=
      ih fun i g left found => harmless (i + 1) g left found
    rw [submitEachTo_cons, leaveOut_cons, leaveOut_cons]
    cases left : out 0 with
    | false =>
      rw [if_neg Bool.false_ne_true, if_neg Bool.false_ne_true, submitEachTo_cons, later]
    | true =>
      have unchanged : (f.submitTo t r).1 = r := by
        refine submitTo_of_harmless ((harmless 0 f left rfl).imp_right ?_)
        intro failed
        obtain ⟨fault, failed⟩ := failed
        exact ⟨fault, Option.some.inj failed⟩
      rw [unchanged] at later ⊢
      rw [if_pos rfl, if_pos rfl, later]

end Formula

/-! ## A batch -/

namespace Session

variable {s : Session}

/-- Submitting a formula of a session is submitting it to the registry. -/
theorem submit_of_found {index : Nat} {f : Formula} (found : s.formulas[index]? = some f) :
    s.submit index = ({ s with registry := (f.submitTo s.thresholds s.registry).1 },
      (f.submitTo s.thresholds s.registry).2) := by
  have same : s.request index = request ⟨s.registry, s.thresholds, [f]⟩ 0 := by
    rw [request, found]
    rfl
  rw [Formula.submitTo, submit, submit, ← same]
  cases s.request index with
  | error fault => rfl
  | ok request =>
    cases request with
    | evaluate | execute | solve => rfl
    | declare d =>
      simp only [bind, Except.bind, perform]
      cases s.registry.declare d <;> rfl

/-- Submitting by place only depends on the formulas found there. -/
theorem submitEach_of_found {t : Thresholds} {indices : List Nat} {all formulas : List Formula}
    (found : List.Forall₂ (fun index f => all[index]? = some f) indices formulas) (r : Registry) :
    submitEach ⟨r, t, all⟩ indices =
      (⟨(Formula.submitEachTo t r formulas).1, t, all⟩, (Formula.submitEachTo t r formulas).2) := by
  -- from every registry on, since the first formula may change it
  induction found generalizing r with
  | nil => rfl
  | cons first _ ih =>
    rw [submitEach, submit_of_found first]
    dsimp only
    rw [ih]
    rfl

/-- A batch is a run over the formulas. -/
theorem submitAll_eq (s : Session) : s.submitAll =
    ({ s with registry := (Formula.submitEachTo s.thresholds s.registry s.formulas).1 },
      (Formula.submitEachTo s.thresholds s.registry s.formulas).2) := by
  refine submitEach_of_found (List.forall₂_iff_get.mpr ⟨List.length_range, ?_⟩) s.registry
  intro i _ inside
  simp [inside]

/-- Leaving formulas out of a batch of which none is both to declare something and answered without
fault changes neither the answers to the others nor the registry after it. -/
theorem batch_without_harmless_formulas (s : Session) (out : Nat → Bool)
    (harmless : ∀ i f, out i = true → s.formulas[i]? = some f →
      f.mode ≠ .declare ∨ ∃ fault, s.submitAll.2[i]? = some (.error fault)) :
    s.submitAll.2.length = s.formulas.length ∧
    submitAll { s with formulas := leaveOut out s.formulas } =
      ({ s with formulas := leaveOut out s.formulas, registry := s.submitAll.1.registry },
        leaveOut out s.submitAll.2) := by
  rw [submitAll_eq] at harmless ⊢
  refine ⟨Formula.length_submitEachTo s.formulas, ?_⟩
  rw [submitAll_eq, Formula.submitEachTo_leaveOut harmless]

/-- Two letters, an "=" and what is right of it. -/
def pairEquals (right : List Glyph) : List Glyph :=
  [.drawn 'A' 0 50 8 12, .drawn 'B' 10 50 8 12, .drawn '=' 25 50 10 6] ++ right

/-- AB is declared, evaluated, declared the wrong way round, read by C and declared anew. -/
def wordBatch : Session where
  registry := .empty
  thresholds := .standard
  formulas := [
    ⟨.declare, pairEquals [.drawn '2' 40 50 8 12]⟩,
    ⟨.eval, [.drawn 'A' 0 50 8 12, .drawn 'B' 10 50 8 12]⟩,
    ⟨.declare, [.drawn '2' 0 50 8 12, .drawn '=' 15 50 10 6, .drawn 'A' 30 50 8 12]⟩,
    ⟨.declare, [.drawn 'C' 0 50 8 12, .drawn '=' 15 50 10 6, .drawn 'A' 30 50 8 12,
      .drawn 'B' 40 50 8 12]⟩,
    ⟨.declare, pairEquals [.drawn '3' 40 50 8 12]⟩]

/-- Without the evaluation and the refused declaration the others are answered alike. -/
theorem batch_without_harmless_of_words :
    let out := fun i => i = 1 || i = 2
    let rest : Session := { wordBatch with formulas := leaveOut out wordBatch.formulas }
    rest.submitAll.1.registry = wordBatch.submitAll.1.registry ∧
    rest.submitAll.2 = leaveOut out wordBatch.submitAll.2 ∧
    leaveOut out wordBatch.submitAll.2 = [
      .ok ⟨.declare (.constant "AB" "2" (.ofList [])), some ⟨["AB"], []⟩⟩,
      .ok ⟨.declare (.constant "C" "AB" (.ofList ["AB"])), some ⟨["C"], []⟩⟩,
      .ok ⟨.declare (.constant "AB" "3" (.ofList [])), some ⟨["AB", "C"], []⟩⟩] := by
  intro out rest
  have batch := (batch_without_harmless_formulas wordBatch out ?_).2
  · refine ⟨?_, ?_, by decide +kernel⟩
    · rw [batch]
    · rw [batch]
  · intro i f left found
    rcases (Bool.or_eq_true _ _).mp left with first | second
    · rw [of_decide_eq_true first] at found
      cases found
      exact .inl Mode.noConfusion
    · rw [of_decide_eq_true second]
      exact .inr ⟨.invalidDeclaration "2", by decide +kernel⟩

end Session

end PenMath
