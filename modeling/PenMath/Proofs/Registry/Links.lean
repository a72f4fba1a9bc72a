import Mathlib.Tactic.ByContra
import Mathlib.Tactic.Tauto
import PenMath.Registry.Basic

/-!
# Laws of links

What a name is linked to after one link is added or removed, and after a whole list of names was
treated so. Adding and removing keep links pruned: a name without values is not kept. Pruned links
are determined by what they link (`ext_of_isPruned`).

Taking one value away from every name goes before or after any other change: the links to other
values do not notice.
-/

namespace PenMath.Links

variable {α : Type} [Ord α]

/-- Whether every name that is kept has a value. -/
def IsPruned (links : Links α) : Prop :=
  ∀ (name : String) (values : Std.ExtTreeSet α), links[name]? = some values → values ≠ ∅

variable {links : Links α} {name x : String} {a b : α}

theorem isPruned_empty : IsPruned (∅ : Links α) := by
  intro name values kept
  simp at kept

theorem IsPruned.foldl {step : Links α → String → Links α}
    (keeps : ∀ (links : Links α) (name : String), links.IsPruned → (step links name).IsPruned)
    (pruned : links.IsPruned) (names : List String) : (names.foldl step links).IsPruned := by
  induction names generalizing links with
  | nil => exact pruned
  | cons name rest ih => exact ih (keeps links name pruned)

variable [Std.TransOrd α]

theorem holds_eq_true :
    links.holds x b = true ↔ ∃ values, links[x]? = some values ∧ b ∈ values := by
  rw [holds, Std.ExtTreeMap.getD_eq_getD_getElem?, Std.ExtTreeSet.contains_iff_mem]
  cases links[x]? with
  | none => simp
  | some values => simp

@[simp] theorem holds_empty : holds (∅ : Links α) x b = false := by
  simp [holds]

/-- The name has the value that was added. -/
theorem IsPruned.add (pruned : links.IsPruned) : (links.add name a).IsPruned := by
  intro x values kept
  rw [Links.add, Std.ExtTreeMap.getElem?_alter] at kept
  split at kept
  · cases kept
    intro empty
    have mem : a ∈ (links[name]?.getD ∅).insert a := Std.ExtTreeSet.mem_insert_self
    rw [empty] at mem
    simp at mem
  · exact pruned x values kept

/-- What is left of a set is not empty. -/
theorem ne_empty_of_without {values left : Std.ExtTreeSet α} (h : without values a = some left) :
    left ≠ ∅ := by
  rw [without] at h
  split at h
  next => cases h
  next notEmpty =>
    cases h
    exact fun empty => notEmpty (Std.ExtTreeSet.isEmpty_iff.mpr empty)

/-- A name whose last value goes is not kept. -/
theorem IsPruned.remove (pruned : links.IsPruned) : (links.remove name a).IsPruned := by
  intro x values kept
  rw [Links.remove, Std.ExtTreeMap.getElem?_alter] at kept
  split at kept
  · obtain ⟨before, -, left⟩ := Option.bind_eq_some_iff.mp kept
    exact ne_empty_of_without left
  · exact pruned x values kept

theorem getElem?_removeEverywhere (links : Links α) (a : α) (x : String) :
    (links.removeEverywhere a)[x]? = links[x]?.bind (without · a) :=
  Std.ExtTreeMap.getElem?_filterMap'

theorem isPruned_removeEverywhere (links : Links α) (a : α) :
    (links.removeEverywhere a).IsPruned := by
  intro x values kept
  rw [getElem?_removeEverywhere] at kept
  obtain ⟨before, -, left⟩ := Option.bind_eq_some_iff.mp kept
  exact ne_empty_of_without left

/-! ## One link -/

variable [Std.LawfulEqOrd α]

/-- Pruned links that hold the same are the same. -/
theorem ext_of_isPruned {links' : Links α} (pruned : links.IsPruned) (pruned' : links'.IsPruned)
    (same : ∀ name a, links.holds name a = true ↔ links'.holds name a = true) : links = links' := by
  apply Std.ExtTreeMap.ext_getElem?
  intro name
  have members := same name
  simp only [holds_eq_true] at members
  cases kept : links[name]? with
  | none =>
    cases kept' : links'[name]? with
    | none => rfl
    | some values' =>
      -- a set that is kept has a member, and the other links would hold it too
      exfalso
      refine pruned' name values' kept' (Std.ExtTreeSet.ext_mem ?_)
      intro a
      simpa [kept, kept'] using (members a).symm
  | some values =>
    cases kept' : links'[name]? with
    | none =>
      exfalso
      refine pruned name values kept (Std.ExtTreeSet.ext_mem ?_)
      intro a
      simpa [kept, kept'] using members a
    | some values' =>
      congr 1
      apply Std.ExtTreeSet.ext_mem
      intro a
      simpa [kept, kept'] using members a

theorem mem_insert_iff {values : Std.ExtTreeSet α} :
    b ∈ values.insert a ↔ b ∈ values ∨ b = a := by
  rw [Std.ExtTreeSet.mem_insert, Std.LawfulEqCmp.compare_eq_iff_eq, or_comm, eq_comm (a := a)]

/-- A link is added and no other one is touched. -/
theorem holds_add : (links.add name a).holds x b = true ↔
    links.holds x b = true ∨ x = name ∧ b = a := by
  rw [holds_eq_true, holds_eq_true, add, Std.ExtTreeMap.getElem?_alter]
  by_cases here : name = x
  · subst here
    rw [if_pos Std.ReflCmp.compare_self]
    cases links[name]? <;> simp [mem_insert_iff, -Std.ExtTreeSet.mem_insert]
  · rw [if_neg (by simpa using here)]
    simp [Ne.symm here]

/-- What is left of a set has every other value; nothing is left if there is no other value. -/
theorem mem_without {values : Std.ExtTreeSet α} :
    (∃ left, without values a = some left ∧ b ∈ left) ↔ b ∈ values ∧ b ≠ a := by
  rw [without, ← mem_erase_iff]
  split
  next empty =>
    rw [Std.ExtTreeSet.isEmpty_iff.mp empty]
    simp
  next => simp

/-- A link is removed and no other one is touched, also where its name goes with it. -/
theorem holds_remove : (links.remove name a).holds x b = true ↔
    links.holds x b = true ∧ ¬(x = name ∧ b = a) := by
  rw [holds_eq_true, holds_eq_true, remove, Std.ExtTreeMap.getElem?_alter]
  by_cases here : name = x
  · subst here
    rw [if_pos Std.ReflCmp.compare_self]
    cases links[name]? with
    | none => simp
    | some values =>
      rw [Option.bind_some, mem_without]
      simp
  · rw [if_neg (by simpa using here)]
    simp [Ne.symm here]

/-! ## The links of a list of names to one value -/

theorem holds_foldl_add (names : List String) :
    (names.foldl (fun links name => links.add name a) links).holds x b = true ↔
      links.holds x b = true ∨ x ∈ names ∧ b = a := by
  induction names generalizing links with
  | nil => simp
  | cons name rest ih =>
    rw [List.foldl_cons, ih, holds_add, List.mem_cons]
    tauto

theorem holds_foldl_remove (names : List String) :
    (names.foldl (fun links name => links.remove name a) links).holds x b = true ↔
      links.holds x b = true ∧ ¬(x ∈ names ∧ b = a) := by
  induction names generalizing links with
  | nil => simp
  | cons name rest ih =>
    rw [List.foldl_cons, ih, holds_remove, List.mem_cons]
    tauto

/-! ## A value taken away from every name -/

/-- One value is gone from every name, and no other one is. -/
theorem holds_removeEverywhere : (links.removeEverywhere a).holds x b = true ↔
    links.holds x b = true ∧ b ≠ a := by
  rw [holds_eq_true, holds_eq_true, getElem?_removeEverywhere]
  cases links[x]? with
  | none => simp
  | some values =>
    rw [Option.bind_some, mem_without]
    simp

theorem removeEverywhere_empty (a : α) : (∅ : Links α).removeEverywhere a = ∅ := by
  apply ext_of_isPruned (isPruned_removeEverywhere _ a) isPruned_empty
  intro x b
  simp [holds_removeEverywhere]

theorem removeEverywhere_add_self (links : Links α) (name : String) (a : α) :
    (links.add name a).removeEverywhere a = links.removeEverywhere a := by
  apply ext_of_isPruned (isPruned_removeEverywhere _ a) (isPruned_removeEverywhere _ a)
  intro x b
  simp only [holds_removeEverywhere, holds_add]
  tauto

/-- A link to another value may be added before or after. -/
theorem removeEverywhere_add_of_ne (links : Links α) (name : String) (other : b ≠ a) :
    (links.add name b).removeEverywhere a = (links.removeEverywhere a).add name b := by
  apply ext_of_isPruned (isPruned_removeEverywhere _ a) (isPruned_removeEverywhere _ a).add
  intro x c
  simp only [holds_removeEverywhere, holds_add]
  constructor
  · rintro ⟨old | new, notA⟩
    · exact .inl ⟨old, notA⟩
    · exact .inr new
  · rintro (old | ⟨here, rfl⟩)
    · exact ⟨.inl old.1, old.2⟩
    · exact ⟨.inr ⟨here, rfl⟩, other⟩

theorem removeEverywhere_comm (links : Links α) (a b : α) :
    (links.removeEverywhere a).removeEverywhere b =
      (links.removeEverywhere b).removeEverywhere a := by
  apply ext_of_isPruned (isPruned_removeEverywhere _ b) (isPruned_removeEverywhere _ a)
  intro x c
  simp only [holds_removeEverywhere]
  tauto

theorem removeEverywhere_self (links : Links α) (a : α) :
    (links.removeEverywhere a).removeEverywhere a = links.removeEverywhere a := by
  apply ext_of_isPruned (isPruned_removeEverywhere _ a) (isPruned_removeEverywhere _ a)
  intro x b
  simp only [holds_removeEverywhere]
  tauto

/-! ## A value taken away from a set -/

section

variable (values : Std.ExtTreeSet α)

theorem erase_insert_self : (values.insert a).erase a = values.erase a := by
  apply Std.ExtTreeSet.ext_mem
  intro b
  simp only [mem_erase_iff, mem_insert_iff]
  tauto

/-- Another value may be put in before or after. -/
theorem erase_insert_of_ne (other : b ≠ a) :
    (values.insert b).erase a = (values.erase a).insert b := by
  apply Std.ExtTreeSet.ext_mem
  intro c
  simp only [mem_erase_iff, mem_insert_iff]
  constructor
  · rintro ⟨old | new, notA⟩
    · exact .inl ⟨old, notA⟩
    · exact .inr new
  · rintro (old | rfl)
    · exact ⟨.inl old.1, old.2⟩
    · exact ⟨.inr rfl, other⟩

theorem erase_comm : (values.erase a).erase b = (values.erase b).erase a := by
  apply Std.ExtTreeSet.ext_mem
  intro c
  simp only [mem_erase_iff]
  tauto

theorem erase_self : (values.erase a).erase a = values.erase a := by
  apply Std.ExtTreeSet.ext_mem
  intro b
  simp only [mem_erase_iff]
  tauto

end

variable [DecidableEq α]

/-- A set less one value lists all others in their order. -/
theorem toList_erase (values : Std.ExtTreeSet α) (a : α) :
    (values.erase a).toList = values.toList.filter (· ≠ a) := by
  have same : values.erase a = values.filter (· ≠ a) := by
    apply Std.ExtTreeSet.ext_mem
    intro b
    rw [mem_erase_iff]
    simp [Std.ExtTreeSet.mem_filter]
  rw [same, Std.ExtTreeSet.toList_filter]

/-- The values that a name keeps stay in their order. -/
theorem valuesOf_removeEverywhere (links : Links α) (a : α) (x : String) :
    (links.removeEverywhere a).valuesOf x = (links.valuesOf x).filter (· ≠ a) := by
  have same : (links.removeEverywhere a).getD x ∅ = (links.getD x ∅).erase a := by
    apply Std.ExtTreeSet.ext_mem
    intro b
    have linked : (links.removeEverywhere a).holds x b = true ↔ links.holds x b = true ∧ b ≠ a :=
      holds_removeEverywhere
    simp only [holds, Std.ExtTreeSet.contains_iff_mem] at linked
    rw [linked, mem_erase_iff]
  rw [valuesOf, same, toList_erase]
  rfl

end PenMath.Links
