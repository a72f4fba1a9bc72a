import PenMath.Proofs.Json.Document

/-!
# Reading what was written

A reader inverts a way of writing if it gives back every value from what was written for it. The
readers of lists, of what may be absent and of records do if the readers of their parts do. A record
is written with its tag first and its fields in the order of the description, which is one of the
orders that are read. What is inverted on documents is inverted on texts as long as it is plain
(`Inverts.roundTrips`).
-/

namespace PenMath.Json

variable {α β σ τ : Type}

namespace Reader

/-- Whether a reader gives every value back that is written in a way. -/
def Inverts (read : Reader α) (write : α → Value) : Prop := ∀ a, read (write a).document = .ok a

theorem inverts_text : text.Inverts .text := fun _ => rfl

theorem natural_document {n : Nat} (fits : n < Numeral.wordLimit) :
    natural (Value.natural n).document = .ok n := by
  rw [Value.document, natural, Numeral.number_ofNat fits]

namespace Inverts

variable {read : Reader α} {write : α → Value}

/-- What is read of a part of a value determines the value. -/
theorem map (h : read.Inverts write) {make : α → β} {part : β → α}
    (back : ∀ b, make (part b) = b) :
    Inverts (fun document => (read document).map make) fun b => write (part b) := by
  intro b
  dsimp only
  rw [h, Except.map, back]

/-- A list that was written is read item by item. -/
theorem list (h : read.Inverts write) :
    (Reader.list read).Inverts fun l => .list (l.map write) := by
  intro l
  have each : items read (Value.documents (l.map write)) = .ok l := by
    induction l with
    | nil => rfl
    | cons a rest ih =>
      rw [List.map_cons, Value.documents, items, h, ih]
      rfl
  rw [Value.document, Reader.list, each]
  rfl

/-- What is absent is written as null, so nothing else may be. -/
theorem option (h : read.Inverts write) (present : ∀ a, (write a).document ≠ .null) :
    (Reader.option read).Inverts fun o => (o.map write).getD .null
  | none => rfl
  | some a => by
    dsimp only [Option.map_some, Option.getD_some]
    rw [Reader.option.eq_2 _ _ (present a), h]
    rfl

end Inverts

end Reader

/-! ## Records -/

namespace Fields

/-- Whether these fields are all taken, and what is kept of them. -/
def Takes (f : Fields σ) (fields : List (String × Value)) (kept : σ) : Prop :=
  f.takeFields (Value.fieldDocuments fields) f.blank = .ok kept

section

variable {g : Fields τ} {read : Reader α} {name : String} {value : Value} {a : α}
  {fields : List (String × Value)}

theorem take?_single (found : read value.document = .ok a) :
    (single name read).take? name value.document (single name read).blank =
      some (.ok (some a)) := by
  simp only [single, if_true, Option.isSome_none, Bool.false_eq_true, if_false, found, Except.map]

theorem takes_single (found : read value.document = .ok a) :
    (single name read).Takes [(name, value)] (some a) := by
  rw [Takes, Value.fieldDocuments, takeFields, take?_single found]
  rfl

/-- Fields of other names than a single one are taken by the description behind it. -/
theorem takeFields_both_of_ne (others : ∀ field ∈ fields, field.1 ≠ name) (kept : Option α)
    (rest : τ) :
    ((single name read).both g).takeFields (Value.fieldDocuments fields) (kept, rest) =
      (g.takeFields (Value.fieldDocuments fields) rest).map fun taken => (kept, taken) := by
  induction fields generalizing rest with
  | nil => rfl
  | cons field fields ih =>
    obtain ⟨ne, others⟩ := List.forall_mem_cons.mp others
    replace ih := ih others
    have unknown : (single name read).take? field.1 field.2.document kept = none := if_neg ne
    rw [Value.fieldDocuments, takeFields, takeFields]
    simp only [both, unknown]
    cases g.take? field.1 field.2.document rest with
    | none =>
      rw [Option.map_none]
      dsimp only
      split
      next => exact ih rest
      next => rfl
    | some taken =>
      cases taken with
      | error flaw => rfl
      | ok taken => exact ih taken

/-- A single field is taken, and then those behind it. -/
theorem Takes.cons {kept : τ} (following : g.Takes fields kept)
    (found : read value.document = .ok a) (others : ∀ field ∈ fields, field.1 ≠ name) :
    ((single name read).both g).Takes ((name, value) :: fields) (some a, kept) := by
  have first : ((single name read).both g).take? name value.document
      ((single name read).both g).blank = some (.ok (some a, g.blank)) := by
    simp only [both, take?_single found, Except.map]
  rw [Takes] at following ⊢
  rw [Value.fieldDocuments, takeFields, first]
  dsimp only [bind, Except.bind]
  rw [takeFields_both_of_ne others, following, Except.map]

end

theorem Takes.read {f : Fields σ} {fields : List (String × Value)} {kept : σ}
    (h : f.Takes fields kept) (make : σ → Except Flaw α) :
    f.read make (Value.record fields).document = make kept := by
  rw [Takes] at h
  rw [Value.document, Fields.read, h]
  rfl

end Fields

/-- A record with its tag is read by the reader of the tag. -/
theorem Reader.tagged_record {tag name : String} {isField : Bool}
    {readers : List (String × Reader α)} {read : Reader α} {fields : List (String × Value)}
    (whole : (Value.record ((tag, .text name) :: fields)).document.isWhole = true)
    (others : ∀ field ∈ fields, field.1 ≠ tag) (known : readers.lookup name = some read) :
    Reader.tagged tag isField readers (Value.record ((tag, .text name) :: fields)).document =
      read (Value.record fields).document := by
  have untagged : untag? tag (Value.record ((tag, .text name) :: fields)).document =
      some (.text (some name), (Value.record fields).document) := by
    have tags : ∀ field ∈ Value.fieldDocuments fields, field.1 ≠ some tag := by
      rw [Value.fieldDocuments_eq_map]
      exact List.forall_mem_map.mpr fun field mem same => others field mem (Option.some.inj same)
    have none : (Value.fieldDocuments fields).filter (fun field => field.1 = some tag) = [] := by
      simpa [List.filter_eq_nil_iff] using tags
    simpa [untag?, Value.document, Value.fieldDocuments, none] using tags
  rw [tagged, if_pos whole, untagged]
  simp only [tagReader?, known]

/-! ## Texts -/

/-- Whether every value is read from the text that is written for it, and whether the value that any
text is read as is read again from the text written for that. -/
structure Reader.RoundTrips (read : Reader α) (write : α → Value) : Prop where
  written : ∀ a, read.readText (write a).compact = .ok a
  again : ∀ text,
    (read.readText text >>= fun a => read.readText (write a).compact) = read.readText text

/-- The text of a value that nests no deeper than the reader goes is read as that value. -/
theorem Reader.Inverts.roundTrips {read : Reader α} {write : α → Value}
    (h : read.Inverts write) (plain : ∀ a, (write a).IsPlain State.deepest) :
    read.RoundTrips write := by
  have written (a : α) : read.readText (write a).compact = .ok a := by
    rw [readText_compact read (plain a), h]
  refine ⟨written, fun text => ?_⟩
  cases read.readText text with
  | error flaw => rfl
  | ok a => exact written a

end PenMath.Json
