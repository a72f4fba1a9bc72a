import PenMath.Proofs.Registry.Links
import PenMath.Proofs.Sort

/-!
# The links of a registry mirror its declarations

Everything that can be done to a registry is a command, and a run carries out one command after
another; a declaration that is refused leaves the registry as it was. What the empty registry has
and every command keeps, the registry has after every run (`run_induction`).

Who reads a name is kept twice: in the declarations, and as links from the name to its readers. A
declaration that replaces another one removes the links of that one and adds its own. Since every
link is the link of a declaration that stands, nothing else has to be removed (`holds_record`), and
the two agree after every run (`registry_mirrors_declarations`).

The same run shows that no built-in name is ever declared, so that listing the known names brings
none of them twice (`names_perm`).
-/

namespace PenMath.Registry

/-! ## Runs -/

/-- What can be done to a registry. -/
inductive Command where
  | declare (declaration : Declaration)
  | watch (name : String) (watcher : WatcherId)
  | watchAll (watcher : WatcherId)
  | unwatch (watcher : WatcherId)

/-- The registry after a command. -/
def obey (r : Registry) : Command → Registry
  | .declare d =>
    match r.declare d with
    | .ok (after, _) => after
    | .error _ => r
  | .watch name watcher => r.watch name watcher
  | .watchAll watcher => r.watchAll watcher
  | .unwatch watcher => r.unwatch watcher

/-- The registry after some commands. -/
def run (r : Registry) (commands : List Command) : Registry := commands.foldl obey r

theorem run_append (r : Registry) (commands further : List Command) :
    r.run (commands ++ further) = (r.run commands).run further :=
  List.foldl_append

/-- What the declarations among some commands are answered with: what each sets off, or why it is
refused. -/
def answers (r : Registry) : List Command → List (Except Fault Propagation)
  | [] => []
  | .declare d :: rest => (r.declare d).map Prod.snd :: answers (r.obey (.declare d)) rest
  | command :: rest => answers (r.obey command) rest

/-- A declaration is recorded unless its name is built in. -/
theorem obey_declare (r : Registry) (d : Declaration) :
    r.obey (.declare d) = if d.name ∈ builtins then r else r.record d := by
  rw [obey, declare]
  by_cases builtin : d.name ∈ builtins
  · rw [if_pos builtin, if_pos (List.contains_iff_mem.mpr builtin)]
  · rw [if_neg builtin, if_neg (by simpa using builtin)]

/-- A command records a declaration, or it changes at most who watches. -/
theorem obey_cases (r : Registry) (command : Command) :
    (∃ d, d.name ∉ builtins ∧ r.obey command = r.record d) ∨
      ∃ watchers all, r.obey command = { r with watchers := watchers, watchersOfAll := all } := by
  cases command with
  | declare d =>
    rw [obey_declare]
    split
    next => exact .inr ⟨r.watchers, r.watchersOfAll, rfl⟩
    next allowed => exact .inl ⟨d, allowed, rfl⟩
  | watch | watchAll | unwatch => exact .inr ⟨_, _, rfl⟩

/-- What recording keeps, and watching does not touch, holds after every run. -/
theorem run_induction {P : Registry → Prop} (start : P empty)
    (record : ∀ r d, P r → d.name ∉ builtins → P (r.record d))
    (watches : ∀ r watchers all, P r → P { r with watchers := watchers, watchersOfAll := all })
    (commands : List Command) : P (empty.run commands) := by
  -- for every registry to start from, since a run goes on from the one after its first command
  suffices run : ∀ r, P r → P (r.run commands) from run empty start
  induction commands with
  | nil => exact fun r h => h
  | cons command rest ih =>
    intro r h
    refine ih (r.obey command) ?_
    rcases obey_cases r command with ⟨d, allowed, after⟩ | ⟨watchers, all, after⟩
    · rw [after]
      exact record r d h allowed
    · rw [after]
      exact watches r watchers all h

/-! ## Declarations and readers -/

/-- What the parts of a registry have to do with each other. -/
structure IsConsistent (r : Registry) : Prop where
  /-- The readers of a name are the declared names whose declaration depends on it. -/
  readers : ∀ read reader, r.readers.holds read reader = true ↔
    ∃ d, r.declaration? reader = some d ∧ read ∈ d.dependencies
  /-- No name is kept that has no readers. -/
  pruned : r.readers.IsPruned
  /-- A declaration is found under the name it declares. -/
  keyed : ∀ name d, r.declaration? name = some d → d.name = name
  /-- No built-in name is declared. -/
  builtin : ∀ name ∈ builtins, r.declaration? name = none

variable {r : Registry} {d : Declaration} {readers : Links String} {read reader name : String}

/-! ## One declaration -/

theorem declaration?_record :
    (r.record d).declaration? name = if name = d.name then some d else r.declaration? name := by
  show (r.declarations.insert d.name d)[name]? = _
  rw [Std.ExtTreeMap.getElem?_insert]
  simp only [Std.LawfulEqCmp.compare_eq_iff_eq, eq_comm (a := name)]
  rfl

theorem holds_unlink : (unlink readers d).holds read reader = true ↔
    readers.holds read reader = true ∧ ¬(read ∈ d.dependencies ∧ reader = d.name) := by
  rw [unlink, Links.holds_foldl_remove, Std.ExtTreeSet.mem_toList]

theorem holds_link : (link readers d).holds read reader = true ↔
    readers.holds read reader = true ∨ read ∈ d.dependencies ∧ reader = d.name := by
  rw [link, Links.holds_foldl_add, Std.ExtTreeSet.mem_toList]

/-- The links after a declaration: its own instead of those of the one before, and all others. -/
theorem holds_record (h : IsConsistent r) : (r.record d).readers.holds read reader = true ↔
    if reader = d.name then read ∈ d.dependencies else r.readers.holds read reader = true := by
  show (link _ d).holds read reader = true ↔ _
  rw [holds_link]
  cases before : r.declaration? d.name with
  | none =>
    dsimp only
    split
    next own =>
      -- a name that was not declared reads nothing
      rw [h.readers, own, before]
      simp
    next other => simp [other]
  | some previous =>
    dsimp only
    rw [holds_unlink, h.keyed _ _ before]
    split
    next own =>
      rw [h.readers, own, before]
      simp
    next other => simp [other]

theorem isPruned_record (pruned : r.readers.IsPruned) : (r.record d).readers.IsPruned := by
  show (link _ d).IsPruned
  refine Links.IsPruned.foldl (fun _ _ => Links.IsPruned.add) ?_ _
  split
  next previous _ => exact Links.IsPruned.foldl (fun _ _ => Links.IsPruned.remove) pruned _
  next => exact pruned

/-- A declaration that is accepted keeps the links, the keys and the built-in names right. -/
theorem IsConsistent.record (h : IsConsistent r) (allowed : d.name ∉ builtins) :
    IsConsistent (r.record d) where
  readers := by
    intro read reader
    rw [holds_record h, declaration?_record]
    split
    next => simp
    next => exact h.readers read reader
  pruned := isPruned_record h.pruned
  keyed := by
    intro name d' found
    rw [declaration?_record] at found
    split at found
    next own =>
      cases found
      exact own.symm
    next => exact h.keyed name d' found
  builtin := by
    intro name mem
    rw [declaration?_record, if_neg]
    · exact h.builtin name mem
    · rintro rfl
      exact allowed mem

theorem isConsistent_empty : IsConsistent empty where
  readers read reader := by simp [empty, declaration?]
  pruned := Links.isPruned_empty
  keyed name d found := by simp [empty, declaration?] at found
  builtin name mem := by simp [empty, declaration?]

theorem isConsistent_run (commands : List Command) : IsConsistent (empty.run commands) :=
  run_induction isConsistent_empty (fun _ _ h allowed => h.record allowed)
    (fun _ _ _ h => ⟨h.readers, h.pruned, h.keyed, h.builtin⟩) commands

/-! ## The known names -/

/-- Whether a name is listed before another one: it is longer, or equally long and smaller. -/
def ListedBefore (a b : String) : Prop :=
  b.utf8ByteSize < a.utf8ByteSize ∨ a.utf8ByteSize = b.utf8ByteSize ∧ a < b

/-- A name that is built in is not declared, so no name is left out for being there already. -/
theorem names_perm (h : IsConsistent r) : r.names.Perm (builtins ++ r.declarations.keys) := by
  refine (sortByKey_perm _ _).trans ?_
  have distinct : (builtins ++ r.declarations.keys).Nodup := by
    refine List.nodup_append.mpr ⟨by decide, Std.ExtTreeMap.nodup_keys, ?_⟩
    rintro name mem _ declared rfl
    have missing := h.builtin name mem
    rw [Std.ExtTreeMap.mem_keys, Std.ExtTreeMap.mem_iff_isSome_getElem?] at declared
    rw [declaration?] at missing
    rw [missing] at declared
    cases declared
  have listed : (NameSet.ofList (builtins ++ r.declarations.keys)).toList.Nodup :=
    Std.ExtTreeSet.distinct_toList.imp Std.ReflCmp.ne_of_cmp_ne_eq
  rw [List.perm_ext_iff_of_nodup listed distinct]
  simp

/-- The sort by length keeps the order of the set among equally long names. -/
theorem pairwise_names (r : Registry) : r.names.Pairwise ListedBefore := by
  have ascends : (NameSet.ofList (builtins ++ r.declarations.keys)).toList.Pairwise
      fun a b => compare a b = .lt := Std.ExtTreeSet.ordered_toList
  refine (pairwise_sortByKey_of_pairwise _ ascends).imp ?_
  intro a b before
  rcases before with longer | ⟨same, smaller⟩
  · exact .inl (by omega)
  · exact .inr ⟨by omega, compareOfLessAndEq_eq_lt.mp smaller⟩

theorem ListedBefore.ne {a b : String} (h : ListedBefore a b) : a ≠ b := by
  rintro rfl
  rcases h with longer | ⟨-, smaller⟩
  · exact Nat.lt_irrefl _ longer
  · exact String.lt_irrefl a smaller

/-! ## After every run -/

/-- Whatever was declared, refused or watched: the readers of a name are the names whose current
declaration depends on it, every declaration is found under its own name, which is not built in, and
the known names are the built-in and the declared ones, each once, longest first and then in
order. -/
theorem registry_mirrors_declarations (commands : List Command) :
    IsConsistent (empty.run commands) ∧
    (empty.run commands).names.Perm
      (["COS", "SIN", "EXP", "LOG"] ++ (empty.run commands).declarations.keys) ∧
    (∀ name, name ∈ (empty.run commands).declarations.keys ↔
      ∃ d, (empty.run commands).declaration? name = some d) ∧
    (empty.run commands).names.Nodup ∧
    (empty.run commands).names.Pairwise ListedBefore := by
  have consistent := isConsistent_run commands
  have ordered := pairwise_names (empty.run commands)
  refine ⟨consistent, names_perm consistent, ?_, ordered.imp ListedBefore.ne, ordered⟩
  intro name
  rw [Std.ExtTreeMap.mem_keys, Std.ExtTreeMap.mem_iff_isSome_getElem?, Option.isSome_iff_exists]
  rfl

end PenMath.Registry
