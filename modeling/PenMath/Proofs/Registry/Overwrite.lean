import PenMath.Proofs.Registry.Edges

/-!
# The last declaration of a name counts

What a registry holds of a name is the last declaration of it that was accepted
(`declaration?_run`), whatever was declared before or in between. The links to readers are edited
step by step, and yet nothing of the steps is left in them: they mirror the declarations and keep no
name without readers, so declarations that are the same have the same links
(`IsConsistent.readers_eq`).

Two runs that agree on the last declaration of every name thus leave the same declarations, the same
links and the same known names. They can differ in who watches only; if they do not, they leave one
registry.
-/

namespace PenMath.Registry

/-- The declaration that a command makes, if it makes one. -/
def Command.declaration? : Command → Option Declaration
  | declare d => some d
  | watch .. | watchAll _ | unwatch _ => none

/-- The last declaration of a name among some commands. -/
def lastDeclaration? (commands : List Command) (name : String) : Option Declaration :=
  ((commands.filterMap Command.declaration?).filter (·.name = name)).getLast?

variable {r r' : Registry} {commands rest : List Command} {d : Declaration} {name : String}

/-- A declaration counts for its name unless a later one replaces it. -/
theorem lastDeclaration?_declare :
    lastDeclaration? (.declare d :: rest) name =
      (lastDeclaration? rest name).or (if d.name = name then some d else none) := by
  have first : Command.declaration? (.declare d) = some d := rfl
  rw [lastDeclaration?, List.filterMap_cons_some first, lastDeclaration?]
  split
  next own =>
    rw [List.filter_cons_of_pos (by simpa using own), List.getLast?_cons]
    cases List.getLast? _ <;> rfl
  next other => rw [List.filter_cons_of_neg (by simpa using other), Option.or_none]

/-- Of a name that is not built in, a run leaves the last declaration, or the one before the run. -/
theorem declaration?_run (allowed : name ∉ builtins) :
    (r.run commands).declaration? name =
      (lastDeclaration? commands name).or (r.declaration? name) := by
  induction commands generalizing r with
  | nil => rfl
  | cons command rest ih =>
    refine ih.trans ?_
    cases command with
    | declare d =>
      rw [lastDeclaration?_declare, Option.or_assoc, obey_declare]
      congr 1
      split
      next builtin =>
        -- a name that may be declared is not the one refused here
        have other : d.name ≠ name := by
          rintro rfl
          exact allowed builtin
        rw [if_neg other, Option.none_or]
      next =>
        rw [declaration?_record]
        by_cases own : name = d.name
        · rw [if_pos own, if_pos own.symm, Option.some_or]
        · rw [if_neg own, if_neg (Ne.symm own), Option.none_or]
    | watch | watchAll | unwatch => rfl

/-- Declarations change nothing about who watches. -/
theorem watchers_run (r : Registry)
    (declares : ∀ command ∈ commands, command.declaration?.isSome = true) :
    (r.run commands).watchers = r.watchers ∧ (r.run commands).watchersOfAll = r.watchersOfAll := by
  induction commands generalizing r with
  | nil => exact ⟨rfl, rfl⟩
  | cons command rest ih =>
    obtain ⟨first, others⟩ := List.forall_mem_cons.mp declares
    cases command with
    | declare d =>
      have kept : (r.obey (.declare d)).watchers = r.watchers ∧
          (r.obey (.declare d)).watchersOfAll = r.watchersOfAll := by
        rw [obey_declare]
        split
        next => exact ⟨rfl, rfl⟩
        next => exact ⟨rfl, rfl⟩
      obtain ⟨watchers, watchersOfAll⟩ := ih (r.obey (.declare d)) others
      exact ⟨watchers.trans kept.1, watchersOfAll.trans kept.2⟩
    | watch | watchAll | unwatch => cases first

/-! ## Registries with the same declarations -/

theorem declarations_eq (same : ∀ name, r.declaration? name = r'.declaration? name) :
    r.declarations = r'.declarations :=
  Std.ExtTreeMap.ext_getElem? same

/-- Links that mirror the same declarations are the same. -/
theorem IsConsistent.readers_eq (h : IsConsistent r) (h' : IsConsistent r')
    (same : ∀ name, r.declaration? name = r'.declaration? name) : r.readers = r'.readers := by
  apply Links.ext_of_isPruned h.pruned h'.pruned
  intro read reader
  rw [h.readers, h'.readers, same]

/-- The known names are those of the declarations. -/
theorem names_congr (same : r.declarations = r'.declarations) : r.names = r'.names := by
  rw [names, names, same]

/-- A registry is its declarations, their links and its watchers. -/
theorem eq_of_parts (declarations : r.declarations = r'.declarations)
    (readers : r.readers = r'.readers) (watchers : r.watchers = r'.watchers)
    (watchersOfAll : r.watchersOfAll = r'.watchersOfAll) : r = r' := by
  cases r
  cases r'
  cases declarations
  cases readers
  cases watchers
  cases watchersOfAll
  rfl

/-- Whatever was done before: two runs that agree on the last declaration of every name that can be
declared leave the same declarations, the same links to readers and the same known names, and if the
same watchers are left, all that follows is answered alike. -/
theorem last_declarations_determine_registry (before commands commands' : List Command)
    (same : ∀ name ∉ builtins, lastDeclaration? commands name = lastDeclaration? commands' name) :
    let after := (empty.run before).run commands
    let after' := (empty.run before).run commands'
    after.declarations = after'.declarations ∧
    after.readers = after'.readers ∧
    after.names = after'.names ∧
    (after.watchers = after'.watchers → after.watchersOfAll = after'.watchersOfAll →
      ∀ further, after.answers further = after'.answers further) := by
  intro after after'
  -- links are determined by the declarations in whatever is reached from the empty registry
  have consistent : IsConsistent after := by
    rw [show after = empty.run (before ++ commands) from (run_append ..).symm]
    exact isConsistent_run _
  have consistent' : IsConsistent after' := by
    rw [show after' = empty.run (before ++ commands') from (run_append ..).symm]
    exact isConsistent_run _
  have declared : ∀ name, after.declaration? name = after'.declaration? name := by
    intro name
    by_cases builtin : name ∈ builtins
    · rw [consistent.builtin name builtin, consistent'.builtin name builtin]
    · calc after.declaration? name
        _ = (lastDeclaration? commands name).or _ := declaration?_run builtin
        _ = (lastDeclaration? commands' name).or _ := by rw [same name builtin]
        _ = after'.declaration? name := (declaration?_run builtin).symm
  have declarations := declarations_eq declared
  have readers := consistent.readers_eq consistent' declared
  refine ⟨declarations, readers, names_congr declarations, ?_⟩
  intro watchers watchersOfAll further
  rw [eq_of_parts declarations readers watchers watchersOfAll]

/-- Two constants that read each other, the first of them then declared anew. -/
def overwritten : List Command :=
  [.declare (.constant "A" "B" (NameSet.ofList ["B"])),
    .declare (.constant "B" "A" (NameSet.ofList ["A"])),
    .declare (.constant "A" "C" (NameSet.ofList ["C"]))]

/-- The same in the end, in the other order and once more than needed. -/
def reordered : List Command :=
  [.declare (.constant "A" "C" (NameSet.ofList ["C"])),
    .declare (.constant "A" "C" (NameSet.ofList ["C"])),
    .declare (.constant "B" "A" (NameSet.ofList ["A"]))]

/-- The two runs differ in the order and in what was overwritten. -/
theorem lastDeclaration?_overwritten (name : String) :
    lastDeclaration? overwritten name = lastDeclaration? reordered name := by
  by_cases a : "A" = name
  · subst a
    decide +kernel
  · by_cases b : "B" = name
    · subst b
      decide +kernel
    · simp [lastDeclaration?, overwritten, reordered, Command.declaration?, Declaration.name, a, b]

/-- After either run a later constant sets off the same. -/
theorem last_declarations_of_reordered :
    (∀ name ∉ builtins, lastDeclaration? overwritten name = lastDeclaration? reordered name) ∧
    ((empty.run [.watch "B" 7]).run overwritten).answers
      [.declare (.constant "C" "1" ∅)] = [.ok ⟨["C", "A", "B"], [7]⟩] ∧
    ((empty.run [.watch "B" 7]).run reordered).answers
      [.declare (.constant "C" "1" ∅)] = [.ok ⟨["C", "A", "B"], [7]⟩] := by
  have same := fun name (_ : name ∉ builtins) => lastDeclaration?_overwritten name
  have holds := last_declarations_determine_registry [.watch "B" 7] overwritten reordered same
  have answered : ((empty.run [.watch "B" 7]).run overwritten).answers
      [.declare (.constant "C" "1" ∅)] = [.ok ⟨["C", "A", "B"], [7]⟩] := by decide +kernel
  -- only declarations are carried out, so both runs leave the one watcher there was
  have declares : ∀ command ∈ overwritten, command.declaration?.isSome = true := by decide
  have declares' : ∀ command ∈ reordered, command.declaration?.isSome = true := by decide
  obtain ⟨watchers, watchersOfAll⟩ := watchers_run (empty.run [.watch "B" 7]) declares
  obtain ⟨watchers', watchersOfAll'⟩ := watchers_run (empty.run [.watch "B" 7]) declares'
  have alike := holds.2.2.2 (watchers.trans watchers'.symm)
    (watchersOfAll.trans watchersOfAll'.symm) [.declare (.constant "C" "1" ∅)]
  exact ⟨same, answered, alike.symm.trans answered⟩

end PenMath.Registry
