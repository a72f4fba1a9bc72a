import PenMath.Json.Record
import PenMath.Proofs.Except

/-!
# What a reader gives

A property of all values that a reader gives follows from the readers it is made of. A record is
read field by field, in the order of the text or of the description; `Fields.Keep` says that what is
kept has a property at every moment, so that its value can be made of it at the end.
-/

namespace PenMath.Json

variable {α σ τ : Type}

/-- Whether everything that a reader gives has a property. -/
def Reader.Gives (read : Reader α) (P : α → Prop) : Prop :=
  ∀ document a, read document = .ok a → P a

/-- Whether what is kept of fields has a property, whatever has been taken. -/
structure Fields.Keep (f : Fields σ) (P : σ → Prop) : Prop where
  blank : P f.blank
  take : ∀ name document kept taken, P kept →
    f.take? name document kept = some (.ok taken) → P taken
  takeItems : ∀ documents kept rest, f.takeItems documents = .ok (kept, rest) → P kept

namespace Reader.Gives

variable {read : Reader α} {P : α → Prop}

/-- Every item of a list is given by the reader of the items. -/
theorem items (h : read.Gives P) {documents : List Document} {all : List α}
    (done : Reader.items read documents = .ok all) : ∀ a ∈ all, P a := by
  induction documents generalizing all with
  | nil =>
    cases done
    exact List.forall_mem_nil _
  | cons document rest ih =>
    obtain ⟨a, first, done⟩ := bind_eq_ok.mp done
    obtain ⟨others, following, done⟩ := bind_eq_ok.mp done
    cases done
    exact List.forall_mem_cons.mpr ⟨h document a first, ih following⟩

/-- What holds of all that a reader gives holds of every item of a list. -/
theorem list (h : read.Gives P) : (Reader.list read).Gives fun all => ∀ a ∈ all, P a := by
  intro document all done
  rw [Reader.list.eq_def] at done
  split at done
  next documents ended =>
    obtain ⟨taken, listed, done⟩ := bind_eq_ok.mp done
    split at done
    next =>
      cases done
      exact h.items listed
    next => cases done
  next => cases done

/-- A text is read as the one value it is, and nothing may follow it. -/
theorem readText (h : read.Gives P) {text : String} {a : α}
    (done : Reader.readText read text = .ok a) : P a := by
  rw [Reader.readText] at done
  generalize Document.ofText text = opened at done
  obtain ⟨document, isWhole⟩ := opened
  obtain ⟨value, read, done⟩ := bind_eq_ok.mp done
  cases isWhole with
  | false => cases done
  | true =>
    cases done
    exact h document a read

end Reader.Gives

/-- A field that is required has been found. -/
theorem required_eq_ok {kept : Option α} {a : α} : required kept = .ok a ↔ kept = some a := by
  cases kept with
  | none =>
    constructor
    · rintro ⟨⟩
    · rintro ⟨⟩
  | some b =>
    constructor
    · rintro ⟨⟩
      rfl
    · rintro ⟨⟩
      rfl

namespace Fields.Keep

variable {f : Fields σ} {g : Fields τ} {P : σ → Prop} {Q : τ → Prop}

/-- What is true of everything is true of what is kept. -/
theorem anything (f : Fields σ) : f.Keep fun _ => True :=
  ⟨trivial, fun _ _ _ _ _ _ => trivial, fun _ _ _ _ => trivial⟩

/-- One field keeps nothing, or a value that its reader gave. -/
theorem single {read : Reader α} {P : α → Prop} (h : read.Gives P) (name : String) :
    (Fields.single name read).Keep fun kept => ∀ a ∈ kept, P a where
  blank a none := nomatch none
  take other document kept taken _ done := by
    simp only [Fields.single] at done
    split at done
    next =>
      split at done
      next => cases done
      next =>
        obtain ⟨a, value, rfl⟩ := map_eq_ok.mp (Option.some.inj done)
        rintro _ ⟨⟩
        exact h _ _ value
    next => cases done
  takeItems documents kept rest done := by
    cases documents with
    | nil => cases done
    | cons document others =>
      obtain ⟨a, value, same⟩ := map_eq_ok.mp done
      cases same
      rintro _ ⟨⟩
      exact h _ _ value

/-- Two groups of fields keep what each of them keeps. -/
theorem both (hf : f.Keep P) (hg : g.Keep Q) :
    (f.both g).Keep fun kept => P kept.1 ∧ Q kept.2 where
  blank := ⟨hf.blank, hg.blank⟩
  take name document kept taken before done := by
    simp only [Fields.both] at done
    split at done
    next one first =>
      obtain ⟨left, value, rfl⟩ := map_eq_ok.mp (Option.some.inj done)
      subst value
      exact ⟨hf.take _ _ _ _ before.1 first, before.2⟩
    next =>
      obtain ⟨two, second, done⟩ := Option.map_eq_some_iff.mp done
      obtain ⟨right, value, rfl⟩ := map_eq_ok.mp done
      subst value
      exact ⟨before.1, hg.take _ _ _ _ before.2 second⟩
  takeItems documents kept rest done := by
    obtain ⟨⟨left, others⟩, first, done⟩ := bind_eq_ok.mp done
    obtain ⟨⟨right, last⟩, second, done⟩ := bind_eq_ok.mp done
    cases done
    exact ⟨hf.takeItems _ _ _ first, hg.takeItems _ _ _ second⟩

/-- Every field that is taken keeps the property, in whatever order they come. -/
theorem takeFields (h : f.Keep P) {fields : List Field} {kept taken : σ} (before : P kept)
    (done : f.takeFields fields kept = .ok taken) : P taken := by
  induction fields generalizing kept with
  | nil =>
    cases done
    exact before
  | cons field rest ih =>
    obtain ⟨name, document⟩ := field
    cases name with
    | none => cases done
    | some name =>
      rw [Fields.takeFields] at done
      split at done
      next one first =>
        obtain ⟨next, value, done⟩ := bind_eq_ok.mp done
        subst value
        exact ih (h.take _ _ _ _ before first) done
      next =>
        split at done
        next => exact ih before done
        next => cases done

/-- What is made of what is kept is what a record is read as. -/
theorem read (h : f.Keep P) {make : σ → Except Flaw α} {R : α → Prop}
    (makes : ∀ kept a, P kept → make kept = .ok a → R a) : (f.read make).Gives R := by
  intro document a done
  rw [Fields.read.eq_def] at done
  split at done
  next fields ended =>
    obtain ⟨kept, taken, done⟩ := bind_eq_ok.mp done
    split at done
    next => exact makes kept a (h.takeFields h.blank taken) done
    next => cases done
  next documents ended =>
    obtain ⟨⟨kept, rest⟩, taken, done⟩ := bind_eq_ok.mp done
    dsimp only at done
    split at done
    next => exact makes kept a (h.takeItems _ _ _ taken) done
    next => cases done
  next => cases done

end Fields.Keep

end PenMath.Json
