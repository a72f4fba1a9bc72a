import Mathlib.Data.List.Perm.Basic
import Mathlib.Data.Nat.Find
import Mathlib.Logic.Relation
import PenMath.Registry.Basic

/-!
# What a breadth-first search meets, and in which order

A search that may meet everything its start leads to meets exactly that, each element once
(`mem_breadthFirst_iff`, `nodup_breadthFirst`), and of two elements never the farther one first
(`pairwise_breadthFirst`).

The order rests on an invariant of the search, `IsFrontier`: the queue holds elements at one
distance and then elements one step farther, what is not yet met is farther than the first of them,
and whatever leads to something not yet met has not left the queue. So a step never reaches back.
-/

namespace PenMath

variable {α : Type}

/-! ## Distances -/

/-- Whether a start leads to an element in so many steps. -/
inductive LeadsIn (leads : α → α → Prop) (start : α) : Nat → α → Prop
  | start : LeadsIn leads start 0 start
  | step {n a b} (before : LeadsIn leads start n a) (next : leads a b) :
      LeadsIn leads start (n + 1) b

/-- Whether a start leads to an element in so many steps, and not in fewer. -/
structure IsDistance (leads : α → α → Prop) (start : α) (n : Nat) (a : α) : Prop where
  leadsIn : LeadsIn leads start n a
  least : ∀ m, LeadsIn leads start m a → n ≤ m

/-- Whether an element is not farther from a start than another one. -/
def NotFarther (leads : α → α → Prop) (start a b : α) : Prop :=
  ∀ m n, IsDistance leads start m a → IsDistance leads start n b → m ≤ n

section

variable {leads : α → α → Prop} {start a b : α} {m n : Nat}

/-- A start leads to whatever it leads to in some number of steps. -/
theorem exists_leadsIn_iff :
    (∃ n, LeadsIn leads start n a) ↔ Relation.ReflTransGen leads start a := by
  constructor
  · intro h
    obtain ⟨n, h⟩ := h
    induction h with
    | start => exact .refl
    | step _ next ih => exact ih.tail next
  · intro h
    induction h with
    | refl => exact ⟨0, .start⟩
    | tail _ next ih =>
      obtain ⟨n, before⟩ := ih
      exact ⟨n + 1, before.step next⟩

theorem LeadsIn.exists_isDistance (h : LeadsIn leads start n a) :
    ∃ m ≤ n, IsDistance leads start m a := by
  classical
  have some : ∃ n, LeadsIn leads start n a := ⟨n, h⟩
  exact ⟨Nat.find some, Nat.find_min' some h, Nat.find_spec some, fun m => Nat.find_min' some⟩

theorem IsDistance.unique (h : IsDistance leads start m a) (h' : IsDistance leads start n a) :
    m = n :=
  Nat.le_antisymm (h.least n h'.leadsIn) (h'.least m h.leadsIn)

theorem IsDistance.eq_start (h : IsDistance leads start 0 a) : a = start := by
  cases h.leadsIn
  rfl

/-- The last step but one of a shortest way. -/
theorem IsDistance.before (h : IsDistance leads start (n + 1) b) :
    ∃ a, IsDistance leads start n a ∧ leads a b := by
  obtain ⟨leadsIn, least⟩ := h
  cases leadsIn with
  | @step _ a _ before next =>
    refine ⟨a, ⟨before, ?_⟩, next⟩
    intro m shorter
    exact Nat.le_of_succ_le_succ (least (m + 1) (shorter.step next))

end

/-! ## What is met -/

variable {follows : α → α → Bool} {start a b : α} {queue unmet : List α}

@[simp] theorem mem_followers : b ∈ followers follows a unmet ↔ b ∈ unmet ∧ follows a b = true :=
  List.mem_filter

@[simp] theorem mem_nonfollowers :
    b ∈ nonfollowers follows a unmet ↔ b ∈ unmet ∧ follows a b = false := by
  simp [nonfollowers]

theorem followers_perm (follows : α → α → Bool) (a : α) (unmet : List α) :
    (followers follows a unmet ++ nonfollowers follows a unmet).Perm unmet :=
  List.filter_append_perm _ _

/-- Whatever waits has its turn. -/
theorem mem_breadthFirst_of_mem_queue (mem : b ∈ queue) :
    b ∈ breadthFirst follows queue unmet := by
  fun_induction breadthFirst follows queue unmet with
  | case1 => cases mem
  | case2 a queue unmet ih =>
    rcases List.mem_cons.mp mem with rfl | later
    · exact List.mem_cons_self
    · exact List.mem_cons_of_mem _ (ih (List.mem_append_left _ later))

/-- Only what was waiting or not yet met is met. -/
theorem mem_of_mem_breadthFirst (mem : b ∈ breadthFirst follows queue unmet) :
    b ∈ queue ++ unmet := by
  fun_induction breadthFirst follows queue unmet with
  | case1 => cases mem
  | case2 a queue unmet ih =>
    rcases List.mem_cons.mp mem with rfl | later
    · exact List.mem_append_left _ List.mem_cons_self
    · have within := ih later
      rw [List.append_assoc, ((followers_perm follows a unmet).append_left queue).mem_iff] at within
      exact List.mem_cons_of_mem _ within

/-- Nothing is met twice. -/
theorem nodup_breadthFirst (distinct : (queue ++ unmet).Nodup) :
    (breadthFirst follows queue unmet).Nodup := by
  fun_induction breadthFirst follows queue unmet with
  | case1 => exact List.nodup_nil
  | case2 a queue unmet ih =>
    rw [List.cons_append, List.nodup_cons] at distinct
    obtain ⟨new, distinct⟩ := distinct
    -- the followers only move from one list to the other
    have moved := (followers_perm follows a unmet).append_left queue
    rw [← List.append_assoc] at moved
    refine List.nodup_cons.mpr ⟨?_, ih (moved.nodup_iff.mpr distinct)⟩
    intro again
    exact new (moved.mem_iff.mp (mem_of_mem_breadthFirst again))

/-- What is met has been led to. -/
theorem reached_of_mem_breadthFirst (mem : b ∈ breadthFirst follows queue unmet) :
    ∃ a ∈ queue, Relation.ReflTransGen (fun a b => follows a b = true) a b := by
  fun_induction breadthFirst follows queue unmet with
  | case1 => cases mem
  | case2 a queue unmet ih =>
    rcases List.mem_cons.mp mem with rfl | later
    · exact ⟨b, List.mem_cons_self, .refl⟩
    · obtain ⟨c, waiting, reaches⟩ := ih later
      rcases List.mem_append.mp waiting with old | follower
      · exact ⟨c, List.mem_cons_of_mem _ old, reaches⟩
      · exact ⟨a, List.mem_cons_self, .head (mem_followers.mp follower).2 reaches⟩

/-- What follows something met is met too. -/
theorem mem_breadthFirst_of_follows (mem : a ∈ breadthFirst follows queue unmet)
    (next : follows a b = true) (new : b ∈ unmet) : b ∈ breadthFirst follows queue unmet := by
  fun_induction breadthFirst follows queue unmet with
  | case1 => cases mem
  | case2 c queue unmet ih =>
    refine List.mem_cons_of_mem _ ?_
    cases isFollower : follows c b with
    | true =>
      have follower := mem_followers.mpr ⟨new, isFollower⟩
      exact mem_breadthFirst_of_mem_queue (List.mem_append_right _ follower)
    | false =>
      rcases List.mem_cons.mp mem with rfl | later
      · rw [next] at isFollower
        cases isFollower
      · exact ih later (mem_nonfollowers.mpr ⟨new, isFollower⟩)

/-- A search to which nothing that follows is unknown meets what its start leads to. -/
theorem mem_breadthFirst_iff (known : ∀ a b, follows a b = true → b = start ∨ b ∈ unmet) :
    b ∈ breadthFirst follows [start] unmet ↔
      Relation.ReflTransGen (fun a b => follows a b = true) start b := by
  constructor
  · intro mem
    obtain ⟨a, isStart, reaches⟩ := reached_of_mem_breadthFirst mem
    rw [List.mem_singleton.mp isStart] at reaches
    exact reaches
  · intro reaches
    induction reaches with
    | refl => exact mem_breadthFirst_of_mem_queue List.mem_cons_self
    | tail _ next ih =>
      rcases known _ _ next with rfl | new
      · exact mem_breadthFirst_of_mem_queue List.mem_cons_self
      · exact mem_breadthFirst_of_follows ih next new

/-! ## The order -/

/-- How far a search has come: `near` and `far` are the queue. -/
structure IsFrontier (follows : α → α → Bool) (start : α) (n : Nat) (near far unmet : List α) :
    Prop where
  atNear : ∀ a ∈ near, IsDistance (fun a b => follows a b = true) start n a
  atFar : ∀ a ∈ far, IsDistance (fun a b => follows a b = true) start (n + 1) a
  beyond : ∀ a ∈ unmet, ∀ m, IsDistance (fun a b => follows a b = true) start m a → n < m
  /-- What leads to something not yet met is still in the queue, or not yet met itself. -/
  waiting : ∀ a b m, LeadsIn (fun a b => follows a b = true) start m a → follows a b = true →
    b ∈ unmet → a ∈ near ∨ a ∈ far ∨ a ∈ unmet

namespace IsFrontier

variable {n : Nat} {near far : List α}

/-- A search begins with its start alone in the queue, at distance zero. -/
theorem init (distinct : (start :: unmet).Nodup)
    (known : ∀ a b, follows a b = true → b = start ∨ b ∈ unmet) :
    IsFrontier follows start 0 [start] [] unmet where
  atNear := by
    intro a isStart
    rw [List.mem_singleton.mp isStart]
    exact ⟨.start, fun m _ => Nat.zero_le m⟩
  atFar := List.forall_mem_nil _
  beyond := by
    intro a new m distance
    apply Nat.pos_of_ne_zero
    rintro rfl
    rw [distance.eq_start] at new
    exact (List.nodup_cons.mp distinct).1 new
  waiting := by
    intro a b m leadsIn _ _
    cases leadsIn with
    | start => exact .inl List.mem_cons_self
    | step before next =>
      rcases known _ _ next with rfl | new
      · exact .inl List.mem_cons_self
      · exact .inr (.inr new)

/-- The first of the queue leaves, and what follows it comes in one step farther. -/
theorem pop (h : IsFrontier follows start n (a :: near) far unmet) :
    IsFrontier follows start n near (far ++ followers follows a unmet)
      (nonfollowers follows a unmet) where
  atNear b mem := h.atNear b (List.mem_cons_of_mem _ mem)
  atFar := by
    intro b mem
    rcases List.mem_append.mp mem with old | follower
    · exact h.atFar b old
    · obtain ⟨new, next⟩ := mem_followers.mp follower
      -- it is one step from the first of the queue, and no nearer since it was not met before
      have leadsIn := (h.atNear a List.mem_cons_self).leadsIn.step next
      obtain ⟨m, le, distance⟩ := leadsIn.exists_isDistance
      have gt := h.beyond b new m distance
      obtain rfl : m = n + 1 := by omega
      exact distance
  beyond b mem := h.beyond b (mem_nonfollowers.mp mem).1
  waiting := by
    intro b c m leadsIn next mem
    obtain ⟨new, notFollower⟩ := mem_nonfollowers.mp mem
    rcases h.waiting b c m leadsIn next new with near | far | unmet
    · rcases List.mem_cons.mp near with rfl | near
      · rw [next] at notFollower
        cases notFollower
      · exact .inl near
    · exact .inr (.inl (List.mem_append_left _ far))
    · cases follower : follows a b with
      | true => exact .inr (.inl (List.mem_append_right _ (mem_followers.mpr ⟨unmet, follower⟩)))
      | false => exact .inr (.inr (mem_nonfollowers.mpr ⟨unmet, follower⟩))

/-- When all at one distance have left, the next distance is taken up. -/
theorem advance (h : IsFrontier follows start n [] far unmet) :
    IsFrontier follows start (n + 1) far [] unmet where
  atNear := h.atFar
  atFar := List.forall_mem_nil _
  beyond := by
    intro b new m distance
    refine Nat.lt_of_le_of_ne (h.beyond b new m distance) ?_
    rintro rfl
    -- it would have been met from the step before it, which has left the queue
    obtain ⟨a, before, next⟩ := distance.before
    rcases h.waiting a b n before.leadsIn next new with near | far | unmet
    · cases near
    · have same := before.unique (h.atFar a far)
      omega
    · exact Nat.lt_irrefl n (h.beyond a unmet n before)
  waiting := by
    intro a b m leadsIn next new
    rcases h.waiting a b m leadsIn next new with near | far | unmet
    · cases near
    · exact .inl far
    · exact .inr (.inr unmet)

/-- A queue that is not empty begins with an element at the distance the search has come to. -/
theorem exists_near (h : IsFrontier follows start n near far unmet)
    (split : near ++ far = a :: queue) :
    ∃ m near' far', n ≤ m ∧ IsFrontier follows start m (a :: near') far' unmet ∧
      queue = near' ++ far' := by
  cases near with
  | nil =>
    rw [List.nil_append] at split
    subst split
    exact ⟨n + 1, queue, [], Nat.le_succ n, h.advance, (List.append_nil queue).symm⟩
  | cons first near =>
    obtain ⟨rfl, rfl⟩ := List.cons.inj split
    exact ⟨n, near, far, Nat.le_refl n, h, rfl⟩

end IsFrontier

/-- From any frontier on, the search goes from near to far and does not come back. -/
theorem pairwise_breadthFirst_of_isFrontier {n : Nat} {near far : List α}
    (h : IsFrontier follows start n near far unmet) (split : near ++ far = queue) :
    (∀ b ∈ breadthFirst follows queue unmet,
      ∃ m, n ≤ m ∧ IsDistance (fun a b => follows a b = true) start m b) ∧
    (breadthFirst follows queue unmet).Pairwise
      (NotFarther (fun a b => follows a b = true) start) := by
  fun_induction breadthFirst follows queue unmet generalizing n near far with
  | case1 => exact ⟨List.forall_mem_nil _, List.Pairwise.nil⟩
  | case2 a queue unmet ih =>
    obtain ⟨m, near', far', le, h', rfl⟩ := h.exists_near split
    obtain ⟨later, ordered⟩ := ih h'.pop (List.append_assoc ..).symm
    have distance := h'.atNear a List.mem_cons_self
    refine ⟨?_, List.pairwise_cons.mpr ⟨?_, ordered⟩⟩
    · intro b mem
      rcases List.mem_cons.mp mem with rfl | mem
      · exact ⟨m, le, distance⟩
      · obtain ⟨k, ge, distance⟩ := later b mem
        exact ⟨k, Nat.le_trans le ge, distance⟩
    · intro b mem i j distanceA distanceB
      obtain ⟨k, ge, distance'⟩ := later b mem
      rw [distanceA.unique distance, distanceB.unique distance']
      exact ge

/-- The nearer elements are met first. -/
theorem pairwise_breadthFirst (distinct : (start :: unmet).Nodup)
    (known : ∀ a b, follows a b = true → b = start ∨ b ∈ unmet) :
    (breadthFirst follows [start] unmet).Pairwise
      (NotFarther (fun a b => follows a b = true) start) :=
  (pairwise_breadthFirst_of_isFrontier (IsFrontier.init distinct known) rfl).2

end PenMath
