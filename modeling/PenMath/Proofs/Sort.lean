import Mathlib.Data.List.Sort
import PenMath.Region.Line

/-!
# Laws of sorting by an integer key

Sorting by a key is insertion sort for the order of the keys, so its result ascends and it is
stable: `filter_sortByKey` says that the elements with one key stay as they are. Together the two
determine the result. Two lists that agree on the elements of every key are sorted into the same
list, whatever the order in which their keys were mixed (`sortByKey_eq_iff`).
-/

namespace PenMath

variable {α β : Type} (key : α → Int)

theorem insertByKey_eq_orderedInsert (a : α) (l : List α) :
    insertByKey key a l = l.orderedInsert (fun a b => key a ≤ key b) a := by
  induction l with
  | nil => rfl
  | cons b rest ih => rw [insertByKey, List.orderedInsert_cons, ih]

theorem sortByKey_eq_insertionSort (l : List α) :
    sortByKey key l = l.insertionSort fun a b => key a ≤ key b := by
  induction l with
  | nil => rfl
  | cons a rest ih =>
    rw [sortByKey_cons, List.insertionSort_cons, ih, insertByKey_eq_orderedInsert]

theorem pairwise_sortByKey (l : List α) :
    (sortByKey key l).Pairwise fun a b => key a ≤ key b := by
  have total : Std.Total fun a b : α => key a ≤ key b := ⟨fun a b => Int.le_total _ _⟩
  have trans : IsTrans α fun a b => key a ≤ key b := ⟨fun a b c => Int.le_trans⟩
  rw [sortByKey_eq_insertionSort]
  exact List.pairwise_insertionSort _ l

theorem sortByKey_of_pairwise {l : List α} (h : l.Pairwise fun a b => key a ≤ key b) :
    sortByKey key l = l := by
  rw [sortByKey_eq_insertionSort]
  exact h.insertionSort_eq

/-- Elements with one key keep their order. -/
theorem filter_sortByKey (k : Int) (l : List α) :
    (sortByKey key l).filter (key · = k) = l.filter (key · = k) := by
  have total : Std.Total fun a b : α => key a ≤ key b := ⟨fun a b => Int.le_total _ _⟩
  have trans : IsTrans α fun a b => key a ≤ key b := ⟨fun a b c => Int.le_trans⟩
  have level : (l.filter (key · = k)).Pairwise fun a b => key a ≤ key b := by
    apply List.pairwise_of_forall_mem_list
    intro a memA b memB
    have keyA : key a = k := by simpa using (List.mem_filter.mp memA).2
    have keyB : key b = k := by simpa using (List.mem_filter.mp memB).2
    rw [keyA, keyB]
  -- the elements of one key are an ascending sublist, which a stable sort keeps
  have kept : (l.filter (key · = k)).Sublist (sortByKey key l) := by
    rw [sortByKey_eq_insertionSort]
    exact List.sublist_insertionSort level List.filter_sublist
  have within := kept.filter (key · = k)
  rw [List.filter_filter, List.filter_congr (fun a _ => Bool.and_self _)] at within
  have count := ((sortByKey_perm key l).filter (key · = k)).length_eq
  exact (within.eq_of_length count.symm).symm

/-- An ascending list with the elements of another one in it has a head with no larger key than that
of the other. -/
theorem key_head_le {a b : α} {rest rest' : List α}
    (ascends : (a :: rest).Pairwise fun a b => key a ≤ key b)
    (same : (a :: rest).filter (key · = key b) = (b :: rest').filter (key · = key b)) :
    key a ≤ key b := by
  have mem : b ∈ (a :: rest).filter (key · = key b) := by
    rw [same]
    simp
  rcases List.mem_cons.mp (List.mem_filter.mp mem).1 with first | later
  · rw [first]
  · exact (List.pairwise_cons.mp ascends).1 b later

/-- An ascending list is determined by the elements of each key. -/
theorem eq_of_filter_eq {l l' : List α} (ascends : l.Pairwise fun a b => key a ≤ key b)
    (ascends' : l'.Pairwise fun a b => key a ≤ key b)
    (same : ∀ k, l.filter (key · = k) = l'.filter (key · = k)) : l = l' := by
  induction l generalizing l' with
  | nil =>
    cases l' with
    | nil => rfl
    | cons b rest' => simpa using same (key b)
  | cons a rest ih =>
    cases l' with
    | nil => simpa using same (key a)
    | cons b rest' =>
      -- each head occurs in the other list, so neither key is larger
      have keys : key a = key b := Int.le_antisymm (key_head_le key ascends (same (key b)))
        (key_head_le key ascends' (same (key a)).symm)
      have heads := same (key a)
      rw [List.filter_cons_of_pos (by simp), List.filter_cons_of_pos (by simp [keys])] at heads
      obtain ⟨rfl, tails⟩ := List.cons.inj heads
      congr 1
      apply ih (List.pairwise_cons.mp ascends).2 (List.pairwise_cons.mp ascends').2
      intro k
      by_cases first : key a = k
      · rw [← first]
        exact tails
      · have all := same k
        rw [List.filter_cons_of_neg (by simpa using first),
          List.filter_cons_of_neg (by simpa using first)] at all
        exact all

/-- Two lists are sorted into one exactly if they agree on the elements of every key. -/
theorem sortByKey_eq_iff {l l' : List α} :
    sortByKey key l = sortByKey key l' ↔
      ∀ k, l.filter (key · = k) = l'.filter (key · = k) := by
  constructor
  · intro h k
    rw [← filter_sortByKey key k l, h, filter_sortByKey]
  · intro same
    apply eq_of_filter_eq key (pairwise_sortByKey key l) (pairwise_sortByKey key l')
    intro k
    rw [filter_sortByKey, filter_sortByKey, same]

/-- Of a list in some order, the elements with one key stay in that order. -/
theorem pairwise_sortByKey_of_pairwise {R : α → α → Prop} {l : List α} (h : l.Pairwise R) :
    (sortByKey key l).Pairwise fun a b => key a < key b ∨ key a = key b ∧ R a b := by
  rw [List.pairwise_iff_forall_sublist] at h ⊢
  intro a b within
  have le : key a ≤ key b :=
    List.pairwise_iff_forall_sublist.mp (pairwise_sortByKey key l) within
  rcases Int.lt_or_eq_of_le le with lt | same
  · exact .inl lt
  · -- both have one key, and that part of the list is the same as before
    refine .inr ⟨same, h ?_⟩
    have pair := within.filter (key · = key b)
    rw [filter_sortByKey, List.filter_cons_of_pos (by simpa using same),
      List.filter_cons_of_pos (by simp), List.filter_nil] at pair
    exact pair.trans List.filter_sublist

theorem sortByKey_map (key' : β → Int) (f : β → α) (keeps : ∀ b, key (f b) = key' b)
    (l : List β) : sortByKey key (l.map f) = (sortByKey key' l).map f := by
  rw [sortByKey_eq_insertionSort, sortByKey_eq_insertionSort]
  exact (List.map_insertionSort _ _ f l (by simp [keeps])).symm

end PenMath
