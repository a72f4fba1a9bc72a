import PenMath.Proofs.Except
import PenMath.Stored.Formula

/-!
# Runs of a session

Everything that can be done to a session, as data, with what the session replies. What is drawn
comes in as marks: a label and four numbers of which nothing is known. So a session in a run has no
glyphs but those that were made of marks, read from a recording or corrected by the session itself.

A formula is reached by its index only. All commands to a formula are one way to change it
(`amend`), and submitting one is opened once: a session says no, answers and stays as it is, or
records a declaration (`submit_cases`).
-/

namespace PenMath

/-- What is handed over as drawn: a label and the numbers of a rectangle, whatever they are. -/
structure Mark where
  label : Char
  x : Coord
  y : Coord
  width : Coord
  height : Coord

/-- The glyph that a mark is, if its label is a symbol. -/
def Mark.glyph (m : Mark) : Except Fault Glyph :=
  Glyph.make m.label (.make m.x m.y m.width m.height)

namespace Session

/-- What can be done to a session. -/
inductive Command where
  | add (mode : Mode) (marks : List Mark)
  | load (text : Option String)
  | push (index : Nat) (t : Thresholds) (mark : Mark)
  | replaceLast (index : Nat) (mark : Mark)
  | relabel (index : Nat) (text : String)
  | setMode (index : Nat) (mode : Mode)
  | watch (name : String) (watcher : WatcherId)
  | watchAll (watcher : WatcherId)
  | unwatch (watcher : WatcherId)
  | submit (index : Nat)
  | submitAll

/-- What a session replies to a command. -/
inductive Reply where
  | done
  /-- Formulas were added, with these indices. -/
  | added (indices : List Nat)
  /-- No formula has the index. -/
  | missing
  | failed (fault : Fault)
  /-- A recording was not loaded. -/
  | unloaded (fault : LoadFault)
  | answered (outcome : Outcome)
  | answeredAll (outcomes : List (Except Fault Outcome))

/-- Whether a reply says that nothing was done. -/
def Reply.isFailure : Reply → Bool
  | missing | failed _ | unloaded _ => true
  | done | added _ | answered _ | answeredAll _ => false

/-- Changes the formula at an index. -/
def amend (s : Session) (index : Nat) (change : Formula → Except Fault Formula) :
    Session × Reply :=
  match s.modify? index change with
  | none => (s, .missing)
  | some (.error fault) => (s, .failed fault)
  | some (.ok (after, _)) => (after, .done)

/-- The session after a command, and its reply. -/
def obey (s : Session) : Command → Session × Reply
  | .add mode marks =>
    match marks.mapM Mark.glyph with
    | .error fault => (s, .failed fault)
    | .ok glyphs => ((s.add ⟨mode, glyphs⟩).1, .added [(s.add ⟨mode, glyphs⟩).2])
  | .load text =>
    match s.load text with
    | (after, .error fault) => (after, .unloaded fault)
    | (after, .ok indices) => (after, .added indices)
  | .push index t mark => s.amend index fun f => mark.glyph.map (f.push t)
  | .replaceLast index mark => s.amend index fun f => mark.glyph >>= f.replaceLast
  | .relabel index text => s.amend index (·.relabel text)
  | .setMode index mode => s.amend index fun f => .ok (f.withMode mode)
  | .watch name watcher => ({ s with registry := s.registry.watch name watcher }, .done)
  | .watchAll watcher => ({ s with registry := s.registry.watchAll watcher }, .done)
  | .unwatch watcher => ({ s with registry := s.registry.unwatch watcher }, .done)
  | .submit index =>
    match s.submit index with
    | (after, .error fault) => (after, .failed fault)
    | (after, .ok outcome) => (after, .answered outcome)
  | .submitAll => (s.submitAll.1, .answeredAll s.submitAll.2)

/-- Submitting a formula fails if it is answered with a fault. -/
theorem obey_submit (s : Session) (index : Nat) :
    (s.obey (.submit index)).1 = (s.submit index).1 ∧
      ((s.obey (.submit index)).2.isFailure = true ↔
        ∃ fault, (s.submit index).2 = .error fault) := by
  rw [obey]
  obtain ⟨after, answer⟩ := s.submit index
  cases answer with
  | error fault => exact ⟨rfl, fun _ => ⟨fault, rfl⟩, fun _ => rfl⟩
  | ok outcome =>
    refine ⟨rfl, ?_, ?_⟩
    · rintro ⟨⟩
    · rintro ⟨fault, ⟨⟩⟩

/-- The session after some commands. -/
def run (s : Session) (commands : List Command) : Session :=
  commands.foldl (fun s command => (s.obey command).1) s

/-! ## Changing a formula -/

/-- What comes of changing a formula: there is none, the change is a fault, or it takes place. -/
theorem amend_cases (s : Session) (index : Nat) (change : Formula → Except Fault Formula) :
    (s.formulas[index]? = none ∧ s.amend index change = (s, .missing)) ∨
    ∃ f, s.formulas[index]? = some f ∧
      ((∃ fault, change f = .error fault ∧ s.amend index change = (s, .failed fault)) ∨
        ∃ f', change f = .ok f' ∧ s.amend index change = (s.setFormula index f', .done)) := by
  rw [amend, modify?]
  cases s.formulas[index]? with
  | none => exact .inl ⟨rfl, rfl⟩
  | some f =>
    refine .inr ⟨f, rfl, ?_⟩
    rw [Option.map_some]
    cases change f with
    | error fault => exact .inl ⟨fault, rfl, rfl⟩
    | ok f' => exact .inr ⟨f', rfl, rfl⟩

/-! ## Submitting a formula -/

/-- A request comes from a formula that has been read. -/
theorem request_eq_ok {s : Session} {index : Nat} {request : Request}
    (asked : s.request index = .ok request) :
    ∃ f parsed, s.formulas[index]? = some f ∧ f.parse s.thresholds s.registry = .ok parsed ∧
      Request.ofParsed f.mode parsed = .ok request := by
  rw [Session.request] at asked
  cases found : s.formulas[index]? with
  | none =>
    rw [found] at asked
    cases asked
  | some f =>
    rw [found] at asked
    obtain ⟨parsed, read, made⟩ := bind_eq_ok.mp asked
    exact ⟨f, parsed, rfl, read, made⟩

/-- What comes of carrying out a request: a declaration is refused or recorded, and everything else
changes nothing. -/
theorem perform_cases (s : Session) (request : Request) :
    (∃ d, request = .declare d ∧ d.name ∈ Registry.builtins ∧
      s.perform request = .error (.builtinDeclared d.name)) ∨
    (∃ d, request = .declare d ∧ d.name ∉ Registry.builtins ∧
      s.perform request = .ok ({ s with registry := s.registry.record d },
        ⟨.declare d, some ((s.registry.record d).propagate d.name)⟩)) ∨
    ((∀ d, request ≠ .declare d) ∧ s.perform request = .ok (s, ⟨request, none⟩)) := by
  cases request with
  | declare d =>
    by_cases builtin : d.name ∈ Registry.builtins
    · refine .inl ⟨d, rfl, builtin, ?_⟩
      rw [perform, Registry.declare, if_pos (List.contains_iff_mem.mpr builtin)]
      rfl
    · refine .inr (.inl ⟨d, rfl, builtin, ?_⟩)
      rw [perform, Registry.declare, if_neg (by simpa using builtin)]
      rfl
  | evaluate | execute | solve =>
    refine .inr (.inr ⟨?_, rfl⟩)
    intro d same
    cases same

/-- What comes of submitting a formula: a fault and no change, an answer and no change, or a
declaration that is recorded. -/
theorem submit_cases (s : Session) (index : Nat) :
    (∃ fault, s.submit index = (s, .error fault) ∧ (s.request index = .error fault ∨
      ∃ d, s.request index = .ok (.declare d) ∧ d.name ∈ Registry.builtins ∧
        fault = .builtinDeclared d.name)) ∨
    (∃ request, s.request index = .ok request ∧ (∀ d, request ≠ .declare d) ∧
      s.submit index = (s, .ok ⟨request, none⟩)) ∨
    ∃ d, s.request index = .ok (.declare d) ∧ d.name ∉ Registry.builtins ∧
      s.submit index = ({ s with registry := s.registry.record d },
        .ok ⟨.declare d, some ((s.registry.record d).propagate d.name)⟩) := by
  rw [submit]
  cases asked : s.request index with
  | error fault => exact .inl ⟨fault, rfl, .inl rfl⟩
  | ok request =>
    rw [show Except.ok request >>= s.perform = s.perform request from rfl]
    rcases perform_cases s request with ⟨d, rfl, builtin, done⟩ | ⟨d, rfl, allowed, done⟩ |
      ⟨other, done⟩
    · rw [done]
      exact .inl ⟨_, rfl, .inr ⟨d, rfl, builtin, rfl⟩⟩
    · rw [done]
      exact .inr (.inr ⟨d, rfl, allowed, rfl⟩)
    · rw [done]
      exact .inr (.inl ⟨request, rfl, other, rfl⟩)

end Session

end PenMath
