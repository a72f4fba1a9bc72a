import Mathlib.Data.List.Forall2

/-!
# Steps that may fail

When one step after another has succeeded, each of them has, and when the sequence has failed, one
of them has. Later proofs take sequences of steps apart with `bind_eq_ok` and its kin, and one step
for each element of a list with `mapM_eq_ok` and `mapM_eq_error`. `bind_eq_of_map_eq` is for two
sequences that differ only in what their second step does not look at, and `map_bind_congr` for two
whose results are then looked at in one way.
-/

namespace PenMath

variable {ε α β γ δ : Type}

/-- Two steps succeed exactly if the first does and the second does after it. -/
theorem bind_eq_ok {x : Except ε α} {f : α → Except ε β} {b : β} :
    x >>= f = .ok b ↔ ∃ a, x = .ok a ∧ f a = .ok b := by
  cases x with
  | error e =>
    constructor
    · intro h
      cases h
    · intro h
      obtain ⟨a, h, -⟩ := h
      cases h
  | ok a =>
    constructor
    · intro h
      exact ⟨a, rfl, h⟩
    · intro h
      obtain ⟨a', ⟨⟩, h⟩ := h
      exact h

/-- Making something of a result succeeds exactly if there is a result. -/
theorem map_eq_ok {x : Except ε α} {f : α → β} {b : β} :
    x.map f = .ok b ↔ ∃ a, x = .ok a ∧ f a = b := by
  cases x with
  | error e =>
    constructor
    · intro h
      cases h
    · intro h
      obtain ⟨a, h, -⟩ := h
      cases h
  | ok a =>
    constructor
    · intro h
      exact ⟨a, rfl, Except.ok.inj h⟩
    · intro h
      obtain ⟨a', ⟨⟩, rfl⟩ := h
      rfl

/-- Making something of a result never fails itself. -/
theorem map_eq_error {x : Except ε α} {f : α → β} {e : ε} : x.map f = .error e ↔ x = .error e := by
  cases x with
  | error e' =>
    constructor
    · rintro ⟨⟩
      rfl
    · rintro ⟨⟩
      rfl
  | ok a =>
    constructor
    · rintro ⟨⟩
    · rintro ⟨⟩

/-- Rewording an error changes no result. -/
theorem mapError_eq_ok {ε' : Type} {x : Except ε α} {f : ε → ε'} {a : α} :
    x.mapError f = .ok a ↔ x = .ok a := by
  cases x with
  | error e =>
    constructor
    · rintro ⟨⟩
    · rintro ⟨⟩
  | ok a' =>
    constructor
    · rintro ⟨⟩
      rfl
    · rintro ⟨⟩
      rfl

/-- A second step that looks at its input through a view only gives one result for inputs that look
alike. -/
theorem bind_eq_of_map_eq {x y : Except ε α} {view : α → β} {f : α → Except ε γ}
    (same : x.map view = y.map view) (looks : ∀ a b, view a = view b → f a = f b) :
    x >>= f = y >>= f := by
  cases x with
  | error e =>
    cases y with
    | error e' =>
      cases same
      rfl
    | ok b => cases same
  | ok a =>
    cases y with
    | error e' => cases same
    | ok b => exact looks a b (Except.ok.inj same)

/-- Sequences whose first steps look alike have results that look alike, if second steps taken on
what looks alike do. -/
theorem map_bind_congr {x y : Except ε α} {view : α → β} {f g : α → Except ε γ} {look : γ → δ}
    (same : x.map view = y.map view)
    (following : ∀ a b, view a = view b → (f a).map look = (g b).map look) :
    (x >>= f).map look = (y >>= g).map look := by
  cases x with
  | error e =>
    cases y with
    | error e' =>
      cases same
      rfl
    | ok b => cases same
  | ok a =>
    cases y with
    | error e' => cases same
    | ok b => exact following a b (Except.ok.inj same)

/-- A step taken for every element of a list has succeeded if it has for each. -/
theorem mapM_eq_ok {f : α → Except ε β} {l : List α} {l' : List β} :
    l.mapM f = .ok l' ↔ List.Forall₂ (fun a b => f a = .ok b) l l' := by
  induction l generalizing l' with
  | nil =>
    rw [List.mapM_nil, List.forall₂_nil_left_iff]
    constructor
    · rintro ⟨⟩
      rfl
    · rintro rfl
      rfl
  | cons a rest ih =>
    rw [List.mapM_cons, bind_eq_ok, List.forall₂_cons_left_iff]
    refine exists_congr fun b => ?_
    constructor
    · intro h
      obtain ⟨first, h⟩ := h
      obtain ⟨others, taken, h⟩ := bind_eq_ok.mp h
      cases h
      exact ⟨others, first, ih.mp taken, rfl⟩
    · intro h
      obtain ⟨others, first, taken, rfl⟩ := h
      exact ⟨first, bind_eq_ok.mpr ⟨others, ih.mpr taken, rfl⟩⟩

/-- What is the same for an element and for what it became is the same for the lists. -/
theorem map_of_mapM {f : α → Except ε β} {l : List α} {l' : List β} {view : α → γ} {look : β → γ}
    (done : l.mapM f = .ok l') (keeps : ∀ a b, f a = .ok b → look b = view a) :
    l'.map look = l.map view := by
  replace done := mapM_eq_ok.mp done
  induction done with
  | nil => rfl
  | cons first _ ih => rw [List.map_cons, List.map_cons, keeps _ _ first, ih]

/-- What every step gives has what all of them give. -/
theorem forall_of_mapM {f : α → Except ε β} {l : List α} {l' : List β} {P : β → Prop}
    (done : l.mapM f = .ok l') (gives : ∀ a b, f a = .ok b → P b) : ∀ b ∈ l', P b := by
  replace done := mapM_eq_ok.mp done
  induction done with
  | nil => exact List.forall_mem_nil _
  | cons first _ ih => exact List.forall_mem_cons.mpr ⟨gives _ _ first, ih⟩

end PenMath
