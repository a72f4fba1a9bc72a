import PenMath.Proofs.Registry.Propagation

/-!
# Watchers do not interfere

A registry that one watcher has left goes on like the registry it has not left: commands of others
are carried out before or after it goes just as well (`obey_unwatch`), and what it did itself is
undone when it goes (`unwatch_obey`). A run with its commands and a run without them are therefore
compared registry by registry, and only one declaration has to be looked at.

What is invalidated does not depend on watchers. Who is told is a list of first occurrences, and to
leave one watcher out of a list does not change which occurrence of another is its first
(`eraseDups_filter`).

A watcher watches nothing if its going changes nothing. That stays so under every command by which
it does not subscribe (`unwatch_obey_of_gone`).
-/

namespace PenMath

/-- First occurrences of some elements are those that are left of all first occurrences. -/
theorem eraseDups_filter {α : Type} [DecidableEq α] (p : α → Bool) (l : List α) :
    (l.filter p).eraseDups = l.eraseDups.filter p := by
  induction n : l.length using Nat.strongRecOn generalizing l with
  | ind n ih =>
    subst n
    cases l with
    | nil => rfl
    | cons a rest =>
      have shorter : (rest.filter fun b => !b == a).length < (a :: rest).length :=
        Nat.lt_succ_of_le (List.length_filter_le _ _)
      have others := ih _ shorter _ rfl
      rw [List.eraseDups_cons]
      by_cases keeps : p a = true
      · rw [List.filter_cons_of_pos keeps, List.filter_cons_of_pos keeps, List.eraseDups_cons,
          ← others, List.filter_filter, List.filter_filter]
        simp only [Bool.and_comm]
      · -- what is left out is not told apart from the copies that are left out with it
        rw [List.filter_cons_of_neg keeps, List.filter_cons_of_neg keeps, ← others,
          List.filter_filter]
        congr 1
        apply List.filter_congr
        intro b _
        by_cases same : b = a
        · subst same
          simp [keeps]
        · simp [same]

/-- The propagation without one who is told. -/
def Propagation.without (p : Propagation) (watcher : WatcherId) : Propagation :=
  { p with notified := p.notified.filter (· ≠ watcher) }

namespace Registry

/-- Whether a command is about what a watcher watches. -/
def Command.isOf (watcher : WatcherId) : Command → Bool
  | declare _ => false
  | watch _ other | watchAll other | unwatch other => other = watcher

/-- Whether a watcher subscribes by a command. -/
def Command.subscribes (watcher : WatcherId) : Command → Bool
  | declare _ | unwatch _ => false
  | watch _ other | watchAll other => other = watcher

/-- Commands without those about what a watcher watches. -/
def withoutWatcher (watcher : WatcherId) (commands : List Command) : List Command :=
  commands.filter fun command => !command.isOf watcher

variable {r : Registry} {watcher : WatcherId} {command : Command} {commands : List Command}

/-! ## One command -/

theorem unwatch_empty (watcher : WatcherId) : empty.unwatch watcher = empty := by
  rw [unwatch, empty, Links.removeEverywhere_empty, Std.ExtTreeSet.erase_empty]

theorem unwatch_unwatch (r : Registry) (watcher : WatcherId) :
    (r.unwatch watcher).unwatch watcher = r.unwatch watcher := by
  simp only [unwatch, Links.removeEverywhere_self, Links.erase_self]

/-- What others do is done before or after a watcher goes. -/
theorem obey_unwatch (others : command.isOf watcher = false) :
    (r.unwatch watcher).obey command = (r.obey command).unwatch watcher := by
  cases command with
  | declare d =>
    rw [obey_declare, obey_declare]
    split
    next => rfl
    next => rfl
  | watch name other =>
    have apart : other ≠ watcher := of_decide_eq_false others
    simp only [obey, watch, unwatch, Links.removeEverywhere_add_of_ne _ _ apart]
  | watchAll other =>
    have apart : other ≠ watcher := of_decide_eq_false others
    simp only [obey, watchAll, unwatch, Links.erase_insert_of_ne _ apart]
  | unwatch other =>
    simp only [obey, unwatch]
    rw [Links.removeEverywhere_comm, Links.erase_comm]

/-- What a watcher did is undone when it goes. -/
theorem unwatch_obey (own : command.isOf watcher = true) :
    (r.obey command).unwatch watcher = r.unwatch watcher := by
  cases command with
  | declare d => cases own
  | watch name other =>
    obtain rfl : other = watcher := of_decide_eq_true own
    simp only [obey, watch, unwatch, Links.removeEverywhere_add_self]
  | watchAll other =>
    obtain rfl : other = watcher := of_decide_eq_true own
    simp only [obey, watchAll, unwatch, Links.erase_insert_self]
  | unwatch other =>
    obtain rfl : other = watcher := of_decide_eq_true own
    exact unwatch_unwatch r other

/-- A watcher that watches nothing stays so if it does not subscribe. -/
theorem unwatch_obey_of_gone (gone : r.unwatch watcher = r)
    (silent : command.subscribes watcher = false) :
    (r.obey command).unwatch watcher = r.obey command := by
  cases isOf : command.isOf watcher with
  | false => rw [← obey_unwatch isOf, gone]
  | true =>
    cases command with
    | declare d => cases isOf
    | watch | watchAll => exact nomatch (isOf.symm.trans silent : true = false)
    | unwatch other =>
      obtain rfl : other = watcher := of_decide_eq_true isOf
      exact unwatch_unwatch r other

/-! ## One declaration -/

/-- Who unsubscribes is no longer told, and nobody else notices. -/
theorem told_unwatch (r : Registry) (invalidated : List String) (watcher : WatcherId) :
    (r.unwatch watcher).told invalidated = (r.told invalidated).filter (· ≠ watcher) := by
  rw [told, told, List.filter_append, List.filter_flatMap]
  congr 1
  · congr 1
    funext name
    exact Links.valuesOf_removeEverywhere ..
  · exact Links.toList_erase ..

theorem propagate_unwatch (r : Registry) (name : String) (watcher : WatcherId) :
    (r.unwatch watcher).propagate name = (r.propagate name).without watcher := by
  have told := told_unwatch r (r.reachedFrom name) watcher
  have notified := congrArg List.eraseDups told
  rw [eraseDups_filter] at notified
  exact congrArg (Propagation.mk (r.reachedFrom name)) notified

theorem declare_unwatch (r : Registry) (d : Declaration) (watcher : WatcherId) :
    ((r.unwatch watcher).declare d).map Prod.snd =
      ((r.declare d).map Prod.snd).map (·.without watcher) := by
  rw [declare, declare]
  split
  next => rfl
  next => exact congrArg Except.ok (propagate_unwatch (r.record d) d.name watcher)

/-! ## Runs -/

/-- From a registry that a watcher has left, the rest of a run answers what it would answer, without
the watcher. -/
theorem answers_withoutWatcher (r : Registry) (commands : List Command) (watcher : WatcherId) :
    (r.unwatch watcher).answers (withoutWatcher watcher commands) =
      (r.answers commands).map (·.map (·.without watcher)) := by
  induction commands generalizing r with
  | nil => rfl
  | cons command rest ih =>
    cases isOf : command.isOf watcher with
    | true =>
      have left : withoutWatcher watcher (command :: rest) = withoutWatcher watcher rest :=
        List.filter_cons_of_neg (by simp [isOf])
      rw [left, ← unwatch_obey isOf, ih]
      cases command with
      | declare d => cases isOf
      | watch | watchAll | unwatch => rfl
    | false =>
      have kept : withoutWatcher watcher (command :: rest) =
          command :: withoutWatcher watcher rest :=
        List.filter_cons_of_pos (by simp [isOf])
      have after := ih (r.obey command)
      rw [← obey_unwatch isOf] at after
      rw [kept]
      cases command with
      | declare d => exact congrArg₂ List.cons (declare_unwatch r d watcher) after
      | watch | watchAll | unwatch => exact after

/-- A watcher that watches nothing is not told of anything, as long as it does not subscribe. -/
theorem not_mem_notified_of_gone (gone : r.unwatch watcher = r)
    (silent : ∀ command ∈ commands, command.subscribes watcher = false) {p : Propagation}
    (told : .ok p ∈ r.answers commands) : watcher ∉ p.notified := by
  induction commands generalizing r with
  | nil => cases told
  | cons command rest ih =>
    obtain ⟨first, others⟩ := List.forall_mem_cons.mp silent
    have after := ih (unwatch_obey_of_gone gone first) others
    cases command with
    | declare d =>
      rcases List.mem_cons.mp told with now | later
      · -- what is set off is the same without the watcher
        have same := declare_unwatch r d watcher
        rw [gone, ← now] at same
        intro mem
        rw [Except.ok.inj same] at mem
        simp [Propagation.without] at mem
      · exact after later
    | watch | watchAll | unwatch => exact after told

/-- Leaving out everything a watcher asked for leaves all that is invalidated as it is, and of those
who are told only that watcher is missing. And a watcher that goes is told of nothing until it
subscribes again. -/
theorem watchers_do_not_interfere (watcher : WatcherId) :
    (∀ commands, empty.answers (withoutWatcher watcher commands) =
      (empty.answers commands).map (·.map (·.without watcher))) ∧
    (∀ before later, (∀ command ∈ later, command.subscribes watcher = false) →
      ∀ p, .ok p ∈ (empty.run (before ++ [.unwatch watcher])).answers later →
        watcher ∉ p.notified) := by
  constructor
  · intro commands
    have same := answers_withoutWatcher empty commands watcher
    rw [unwatch_empty] at same
    exact same
  · intro before later silent p told
    have gone := unwatch_unwatch (empty.run before) watcher
    rw [run_append] at told
    exact not_mem_notified_of_gone gone silent told

/-- Watchers of a name, of one that depends on it, of both, and of all names. -/
def threeWatchers : List Command :=
  [.watch "A" 1, .watch "B" 2, .watch "B" 1, .watchAll 3, .watchAll 2,
    .declare (.constant "B" "A" (NameSet.ofList ["A"])), .declare (.constant "A" "1" ∅)]

/-- What may follow when one of them has gone: another one subscribes, and the name is declared
again. -/
def withoutTheFirst : List Command := [.watch "A" 2, .declare (.constant "A" "2" ∅)]

/-- Watcher 1 stands before and among the others, who are told in the order they had. -/
theorem watchers_do_not_interfere_of_three :
    empty.answers threeWatchers = [.ok ⟨["B"], [1, 2, 3]⟩, .ok ⟨["A", "B"], [1, 2, 3]⟩] ∧
    empty.answers (withoutWatcher 1 threeWatchers) =
      [.ok ⟨["B"], [2, 3]⟩, .ok ⟨["A", "B"], [2, 3]⟩] ∧
    (∀ command ∈ withoutTheFirst, command.subscribes 1 = false) ∧
    .ok ⟨["A", "B"], [2, 3]⟩ ∈
      (empty.run (threeWatchers ++ [.unwatch 1])).answers withoutTheFirst ∧
    (1 : WatcherId) ∉ (⟨["A", "B"], [2, 3]⟩ : Propagation).notified := by
  have answered : empty.answers threeWatchers =
      [.ok ⟨["B"], [1, 2, 3]⟩, .ok ⟨["A", "B"], [1, 2, 3]⟩] := by decide +kernel
  have silent : ∀ command ∈ withoutTheFirst, command.subscribes 1 = false := by decide
  have told : .ok ⟨["A", "B"], [2, 3]⟩ ∈
      (empty.run (threeWatchers ++ [.unwatch 1])).answers withoutTheFirst := by decide +kernel
  obtain ⟨left, gone⟩ := watchers_do_not_interfere 1
  refine ⟨answered, ?_, silent, told, gone threeWatchers withoutTheFirst silent _ told⟩
  rw [left threeWatchers, answered]
  rfl

end Registry

end PenMath
