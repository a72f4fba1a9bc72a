import Mathlib.Data.List.Basic
import PenMath.Proofs.Registry.Edges
import PenMath.Proofs.Registry.Reach

/-!
# What a declaration sets off

A declaration invalidates its name and whatever depends on it by the declarations that now stand,
the nearest first, and tells the watchers of these names, then those of all names, each once
(`propagation_is_breadth_first`).

The search for what is invalidated follows the links to readers and knows the declared names only.
Both are enough because the links mirror the declarations (`IsConsistent`): a link leads to a name
that is declared.
-/

namespace PenMath

/-! ## First occurrences -/

section

variable {α : Type} [DecidableEq α]

/-- Whether a list has the elements of another one, each once, in the order in which they first
occur there. -/
structure IsFirsts (l all : List α) : Prop where
  mem_iff : ∀ a, a ∈ l ↔ a ∈ all
  ordered : l.Pairwise fun a b => all.idxOf a < all.idxOf b

variable {l all : List α} {a b : α}

theorem IsFirsts.nodup (h : IsFirsts l all) : l.Nodup := by
  refine h.ordered.imp ?_
  rintro a b before rfl
  exact Nat.lt_irrefl _ before

/-- Leaving out other elements does not change which of two comes first. -/
theorem idxOf_lt_of_filter {p : α → Bool} (keepsA : p a = true) (keepsB : p b = true)
    (before : (l.filter p).idxOf a < (l.filter p).idxOf b) : l.idxOf a < l.idxOf b := by
  induction l with
  | nil => exact absurd before (Nat.lt_irrefl _)
  | cons c rest ih =>
    by_cases isA : c = a
    · subst isA
      by_cases isB : c = b
      · subst isB
        exact absurd before (Nat.lt_irrefl _)
      · rw [List.idxOf_cons_eq _ rfl, List.idxOf_cons_ne _ isB]
        exact Nat.succ_pos _
    · by_cases isB : c = b
      · subst isB
        rw [List.filter_cons_of_pos keepsB, List.idxOf_cons_eq _ rfl] at before
        exact absurd before (Nat.not_lt_zero _)
      · rw [List.idxOf_cons_ne _ isA, List.idxOf_cons_ne _ isB]
        refine Nat.succ_lt_succ (ih ?_)
        by_cases keeps : p c = true
        · rw [List.filter_cons_of_pos keeps, List.idxOf_cons_ne _ isA,
            List.idxOf_cons_ne _ isB] at before
          exact Nat.lt_of_succ_lt_succ before
        · rw [List.filter_cons_of_neg keeps] at before
          exact before

/-- The first occurrences go on with those among the rest that are not what the list begins with. -/
theorem IsFirsts.cons {rest : List α} (h : IsFirsts l (rest.filter fun b => !b == a)) :
    IsFirsts (a :: l) (a :: rest) where
  mem_iff b := by
    by_cases same : b = a
    · simp [same]
    · simp [same, h.mem_iff]
  ordered := by
    have other : ∀ b ∈ l, (!b == a) = true := fun b mem =>
      (List.mem_filter.mp ((h.mem_iff b).mp mem)).2
    have apart : ∀ b ∈ l, a ≠ b := fun b mem same => by
      simpa [same] using other b mem
    refine List.pairwise_cons.mpr ⟨?_, h.ordered.imp_of_mem ?_⟩
    · intro b mem
      rw [List.idxOf_cons_eq _ rfl, List.idxOf_cons_ne _ (apart b mem)]
      exact Nat.succ_pos _
    · intro b c memB memC before
      rw [List.idxOf_cons_ne _ (apart b memB), List.idxOf_cons_ne _ (apart c memC)]
      exact Nat.succ_lt_succ (idxOf_lt_of_filter (other b memB) (other c memC) before)

theorem isFirsts_eraseDups (l : List α) : IsFirsts l.eraseDups l := by
  cases l with
  | nil => exact ⟨fun a => Iff.rfl, List.Pairwise.nil⟩
  | cons a rest =>
    rw [List.eraseDups_cons]
    exact (isFirsts_eraseDups _).cons
termination_by l.length
decreasing_by exact Nat.lt_succ_of_le (List.length_filter_le _ _)

end

namespace Registry

/-! ## Dependence -/

/-- Whether a name is declared and its declaration depends on another name. -/
def DependsOn (r : Registry) (name read : String) : Prop :=
  ∃ d, r.declaration? name = some d ∧ read ∈ d.dependencies

/-- Whether a name depends on another one through a chain of so many declarations, and through no
shorter one. -/
def IsAway (r : Registry) (read : String) (n : Nat) (name : String) : Prop :=
  IsDistance (fun read name => r.DependsOn name read) read n name

variable {r : Registry} {name other : String}

theorem IsConsistent.leads (h : IsConsistent r) :
    (fun read reader => r.readers.holds read reader = true) =
      fun read reader => r.DependsOn reader read := by
  funext read reader
  exact propext (h.readers read reader)

/-- Every link leads to a declared name. -/
theorem IsConsistent.known (h : IsConsistent r) (name : String) (read reader : String)
    (link : r.readers.holds read reader = true) :
    reader = name ∨ reader ∈ r.declarations.keys.filter (· ≠ name) := by
  obtain ⟨d, declared, -⟩ := (h.readers read reader).mp link
  by_cases same : reader = name
  · exact .inl same
  · refine .inr (List.mem_filter.mpr ⟨?_, by simpa using same⟩)
    rw [Std.ExtTreeMap.mem_keys, Std.ExtTreeMap.mem_iff_isSome_getElem?]
    exact Option.isSome_of_mem declared

theorem nodup_start_keys (r : Registry) (name : String) :
    (name :: r.declarations.keys.filter (· ≠ name)).Nodup := by
  refine List.nodup_cons.mpr ⟨?_, Std.ExtTreeMap.nodup_keys.filter _⟩
  intro mem
  simpa using (List.mem_filter.mp mem).2

theorem mem_reachedFrom (h : IsConsistent r) : other ∈ r.reachedFrom name ↔
    other = name ∨ Relation.TransGen r.DependsOn other name := by
  rw [reachedFrom, mem_breadthFirst_iff (h.known name), h.leads,
    Relation.reflTransGen_iff_eq_or_transGen, ← Relation.transGen_swap]

theorem nodup_reachedFrom (r : Registry) (name : String) : (r.reachedFrom name).Nodup :=
  nodup_breadthFirst (nodup_start_keys r name)

theorem pairwise_reachedFrom (h : IsConsistent r) (name : String) :
    (r.reachedFrom name).Pairwise fun a b =>
      ∀ m n, r.IsAway name m a → r.IsAway name n b → m ≤ n := by
  have ordered := pairwise_breadthFirst (nodup_start_keys r name) (h.known name)
  rw [h.leads] at ordered
  exact ordered

/-- Everything invalidated is at some distance from the name declared. -/
theorem exists_isAway (h : IsConsistent r) (mem : other ∈ r.reachedFrom name) :
    ∃ n, r.IsAway name n other := by
  rw [reachedFrom, mem_breadthFirst_iff (h.known name), h.leads] at mem
  obtain ⟨n, leadsIn⟩ := exists_leadsIn_iff.mpr mem
  obtain ⟨m, -, distance⟩ := leadsIn.exists_isDistance
  exact ⟨m, distance⟩

/-! ## Propagation -/

/-- All who are told when some names are invalidated: the watchers of each name in turn, then those
of every declaration. -/
def told (r : Registry) (invalidated : List String) : List WatcherId :=
  invalidated.flatMap r.watchers.valuesOf ++ r.watchersOfAll.toList

/-- What a propagation from a declared name is like. -/
structure IsPropagation (r : Registry) (name : String) (p : Propagation) : Prop where
  /-- The declared name comes first. -/
  first : p.invalidated.head? = some name
  once : p.invalidated.Nodup
  /-- What is invalidated is the declared name and what depends on it in the end. -/
  dependents : ∀ other, other ∈ p.invalidated ↔
    other = name ∨ Relation.TransGen r.DependsOn other name
  /-- Everything has a shortest chain of dependencies to the declared name, and what has a shorter
  one comes first. -/
  away : ∀ other ∈ p.invalidated, ∃ n, r.IsAway name n other
  nearest : p.invalidated.Pairwise fun a b =>
    ∀ m n, r.IsAway name m a → r.IsAway name n b → m ≤ n
  toldOnce : p.notified.Nodup
  firsts : IsFirsts p.notified (r.told p.invalidated)

/-- On links that mirror the declarations, the search finds the dependents, nearest first. -/
theorem isPropagation_propagate (h : IsConsistent r) (name : String) :
    IsPropagation r name (r.propagate name) where
  first := by
    show (r.reachedFrom name).head? = some name
    rw [reachedFrom, breadthFirst]
    rfl
  once := nodup_reachedFrom r name
  dependents other := mem_reachedFrom h
  away other mem := exists_isAway h mem
  nearest := pairwise_reachedFrom h name
  toldOnce := (isFirsts_eraseDups _).nodup
  firsts := isFirsts_eraseDups _

/-- A declaration is accepted unless its name is taken, and what it sets off is computed from the
registry that it leaves. -/
theorem declare_eq_ok {d : Declaration} {after : Registry} {p : Propagation} :
    r.declare d = .ok (after, p) ↔
      d.name ∉ builtins ∧ after = r.record d ∧ p = (r.record d).propagate d.name := by
  constructor
  · intro h
    rw [declare] at h
    split at h
    next => cases h
    next allowed =>
      cases h
      exact ⟨by simpa using allowed, rfl, rfl⟩
  · intro h
    obtain ⟨allowed, rfl, rfl⟩ := h
    rw [declare, if_neg (by simpa using allowed)]

/-- The watchers of one name, and those of all names, are listed in ascending order. -/
theorem pairwise_lt_toList (watchers : Std.ExtTreeSet WatcherId) :
    watchers.toList.Pairwise (· < ·) := by
  have ascends : watchers.toList.Pairwise fun a b => compare a b = .lt :=
    Std.ExtTreeSet.ordered_toList
  exact ascends.imp fun {_ _} before => compareOfLessAndEq_eq_lt.mp before

/-- Whatever was done before: an accepted declaration takes the place of the one before it and
changes nothing else that is declared or watched. By the declarations that then stand it invalidates
its name and all that depends on it, nearest first, and tells each of their watchers once, name by
name in ascending order, and those of all names after them. -/
theorem propagation_is_breadth_first (commands : List Command) (d : Declaration)
    (after : Registry) (p : Propagation) (h : (empty.run commands).declare d = .ok (after, p)) :
    (∀ name, after.declaration? name =
      if name = d.name then some d else (empty.run commands).declaration? name) ∧
    after.watchers = (empty.run commands).watchers ∧
    after.watchersOfAll = (empty.run commands).watchersOfAll ∧
    IsPropagation after d.name p ∧
    (∀ name, (after.watchers.valuesOf name).Pairwise (· < ·)) ∧
    after.watchersOfAll.toList.Pairwise (· < ·) := by
  obtain ⟨allowed, rfl, rfl⟩ := declare_eq_ok.mp h
  have consistent := (isConsistent_run commands).record allowed
  exact ⟨fun name => declaration?_record, rfl, rfl, isPropagation_propagate consistent d.name,
    fun name => pairwise_lt_toList _, pairwise_lt_toList _⟩

/-- Two constants that read each other, and watchers of both, of one, and of all names. -/
def mutualPair : List Command :=
  [.declare (.constant "A" "B" (NameSet.ofList ["B"])),
    .declare (.constant "B" "A*C" (NameSet.ofList ["A", "C"])),
    .watch "B" 2, .watch "A" 2, .watch "A" 1, .watchAll 9]

/-- A constant that reads itself. -/
def selfReader : Declaration := .constant "C" "C+1" (NameSet.ofList ["C"])

/-- Names that read each other in a circle are invalidated once each. -/
theorem propagation_is_breadth_first_of_cycle :
    ∃ after,
      (empty.run mutualPair).declare selfReader = .ok (after, ⟨["C", "B", "A"], [2, 1, 9]⟩) ∧
      IsPropagation after "C" ⟨["C", "B", "A"], [2, 1, 9]⟩ := by
  have sets : ((empty.run mutualPair).record selfReader).propagate "C" =
      ⟨["C", "B", "A"], [2, 1, 9]⟩ := by decide +kernel
  have accepted : (empty.run mutualPair).declare selfReader =
      .ok ((empty.run mutualPair).record selfReader, ⟨["C", "B", "A"], [2, 1, 9]⟩) :=
    declare_eq_ok.mpr ⟨by decide, rfl, sets.symm⟩
  have holds := propagation_is_breadth_first mutualPair selfReader _ _ accepted
  exact ⟨_, accepted, holds.2.2.2.1⟩

end Registry

end PenMath
