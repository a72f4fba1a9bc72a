import PenMath.Proofs.Json.Tokens
import PenMath.Json.Record

/-!
# Written values as documents

The text of a value is read as the document that says the same (`ofText_compact`), if the value is
plain: it has no coordinates, its numbers fit 64 bits, and at most 127 containers stand in one
another.

A reading that awaits a value in some frames stands behind that value in the same frames when it
has passed its text (`Value.IsRead`). This holds of a container if it does of its parts: each part
is awaited where the one before it and a comma have been passed.
-/

namespace PenMath.Json

/-! ## Documents of values -/

namespace Value

mutual

/-- What the text of a value says. -/
def document : Value → Document
  | null => .null
  | bool value => .bool value
  | natural n => .number (.ofNat n)
  | coord a => ((numeral? (coordChars a)).map fun found => .number found.1).getD .null
  | text s => .text (some s)
  | list items => .list (documents items) true
  | record fields => .record (fieldDocuments fields) true

/-- What the texts of items say. -/
def documents : List Value → List Document
  | [] => []
  | item :: rest => item.document :: documents rest

/-- What the texts of fields say. -/
def fieldDocuments : List (String × Value) → List Field
  | [] => []
  | (name, value) :: rest => (some name, value.document) :: fieldDocuments rest

end

theorem documents_eq_map (items : List Value) : documents items = items.map document := by
  induction items with
  | nil => rfl
  | cons item rest ih => rw [documents, ih, List.map_cons]

theorem fieldDocuments_eq_map (fields : List (String × Value)) :
    fieldDocuments fields = fields.map fun field => (some field.1, field.2.document) := by
  induction fields with
  | nil => rfl
  | cons field rest ih => rw [fieldDocuments, ih, List.map_cons]

/-- Whether a value has no coordinates, no numbers beyond 64 bits, and at most so many containers in
one another. -/
inductive IsPlain : Nat → Value → Prop where
  | null {room : Nat} : IsPlain room null
  | bool {room : Nat} (value : Bool) : IsPlain room (bool value)
  | natural {room n : Nat} (fits : n < Numeral.wordLimit) : IsPlain room (natural n)
  | text {room : Nat} (s : String) : IsPlain room (text s)
  | list {room : Nat} {items : List Value} (each : ∀ item ∈ items, IsPlain room item) :
      IsPlain (room + 1) (list items)
  | record {room : Nat} {fields : List (String × Value)}
      (each : ∀ field ∈ fields, IsPlain room field.2) : IsPlain (room + 1) (record fields)

end Value

theorem Document.allWhole_iff {documents : List Document} :
    allWhole documents = true ↔ ∀ document ∈ documents, document.isWhole = true := by
  induction documents with
  | nil => simp [allWhole]
  | cons document rest ih => simp [allWhole, ih]

theorem Document.fieldsWhole_iff {fields : List Field} :
    fieldsWhole fields = true ↔
      ∀ field ∈ fields, field.1.isSome = true ∧ field.2.isWhole = true := by
  induction fields with
  | nil => simp [fieldsWhole]
  | cons field rest ih => simp [fieldsWhole, ih, and_assoc]

/-- Plain values can be read as a whole. -/
theorem Value.IsPlain.isWhole {room : Nat} {v : Value} (h : v.IsPlain room) :
    v.document.isWhole = true := by
  induction h with
  | null => rfl
  | bool => rfl
  | natural fits =>
    rw [document, Document.isWhole, Document.isReadable, Numeral.number_ofNat fits]
  | text => rfl
  | list each ih =>
    rw [document, Document.isWhole, Bool.and_true, documents_eq_map, Document.allWhole_iff]
    exact List.forall_mem_map.mpr ih
  | record each ih =>
    rw [document, Document.isWhole, Bool.and_true, fieldDocuments_eq_map,
      Document.fieldsWhole_iff]
    exact List.forall_mem_map.mpr fun field mem => ⟨rfl, ih field mem⟩

/-! ## Reading on -/

namespace State

/-- The state after a text. -/
def read (s : State) (chars : List Char) : State := (tokens chars).foldl step s

@[simp] theorem read_nil (s : State) : s.read [] = s := by
  rw [read, tokens, List.foldl_nil]

theorem read_of_tokens {s : State} {chars rest : List Char} {token : Token}
    (cut : tokens chars = token :: tokens rest) : s.read chars = (s.step token).read rest := by
  rw [read, cut, List.foldl_cons, read]

theorem read_mark {c : Char} {token : Token} (mark : punctuation? c = some token) (s : State)
    (rest : List Char) : s.read (c :: rest) = (s.step token).read rest :=
  read_of_tokens (tokens_of_punctuation? mark rest)

/-- Whether a value may come, which will stand in these frames. -/
def Awaits (s : State) (frames : List Frame) : Prop :=
  ∀ token next, begin? frames token = some next → s.step token = next

theorem awaits_expectValue (frames : List Frame) : (expectValue frames).Awaits frames := by
  intro token next begins
  rw [step, begins, Option.getD_some]

theorem awaits_expectItem (frames : List Frame) :
    (expectItem frames).Awaits (.list [] :: frames) := by
  intro token next begins
  have notEnd : token ≠ .endList := by
    rintro rfl
    cases begins
  rw [step.eq_3 _ _ notEnd, begins, Option.getD_some]

theorem close_of_lt {frames : List Frame} (shallow : frames.length < deepest)
    (container : Document) : close container frames = after container frames := by
  rw [close, inside, if_neg (Nat.not_le.mpr shallow)]

end State

namespace Value

open State

/-- Whether a value is read wherever one may come that leaves room for so many containers in one
another. -/
def IsRead (room : Nat) (v : Value) : Prop :=
  ∀ {s : State} {frames : List Frame} {rest : List Char}, s.Awaits frames →
    frames.length + room ≤ deepest → Closes rest →
      s.read (v.chars ++ rest) = (after v.document frames).read rest

/-- The remaining items of a list are read up to its end. -/
theorem read_items {room : Nat} {item : Value} {items : List Value}
    (each : ∀ v ∈ item :: items, v.IsRead room) {s : State} {frames : List Frame}
    {before : List Document} (awaits : s.Awaits (.list before :: frames))
    (shallow : frames.length + 1 + room ≤ deepest) (rest : List Char) :
    s.read (itemsChars (item :: items) ++ ']' :: rest) =
      (close (.list (before.reverse ++ documents (item :: items)) true) frames).read rest := by
  -- what has been read stands in the frame, the last item first
  induction items generalizing item s before with
  | nil =>
    rw [itemsChars, each item List.mem_cons_self awaits shallow (closes_cons rfl rest),
      read_mark rfl, step, List.reverse_cons]
    rfl
  | cons next items ih =>
    rw [itemsChars, List.append_assoc, List.cons_append,
      each item List.mem_cons_self awaits shallow (closes_cons rfl _), read_mark rfl, step,
      ih (fun v mem => each v (List.mem_cons_of_mem _ mem)) (awaits_expectValue _),
      List.reverse_cons, List.append_assoc, documents]
    rfl

/-- A field is read where a name may come. -/
theorem read_field {room : Nat} {name : String} {value : Value} (isRead : value.IsRead room)
    {s : State} {frames : List Frame} {before : List Field} {rest : List Char}
    (named : ∀ key, s.step (.text key) = expectColon before key frames)
    (shallow : frames.length + 1 + room ≤ deepest) (closes : Closes rest) :
    s.read (textChars name ++ ':' :: (value.chars ++ rest)) =
      (after value.document (.record before (some name) :: frames)).read rest := by
  rw [read_of_tokens (tokens_textChars name _), named, read_mark rfl, step]
  exact isRead (awaits_expectValue _) shallow closes

/-- The remaining fields of a record are read up to its end. -/
theorem read_fields {room : Nat} {name : String} {value : Value} {fields : List (String × Value)}
    (each : ∀ field ∈ (name, value) :: fields, field.2.IsRead room) {s : State}
    {frames : List Frame} {before : List Field}
    (named : ∀ key, s.step (.text key) = expectColon before key frames)
    (shallow : frames.length + 1 + room ≤ deepest) (rest : List Char) :
    s.read (fieldsChars ((name, value) :: fields) ++ '\x7d' :: rest) =
      (close (.record (before.reverse ++ fieldDocuments ((name, value) :: fields)) true)
        frames).read rest := by
  have isRead : value.IsRead room := each _ List.mem_cons_self
  induction fields generalizing name value s before with
  | nil =>
    rw [fieldsChars, List.append_assoc, List.cons_append,
      read_field isRead named shallow (closes_cons rfl rest), read_mark rfl, step,
      List.reverse_cons]
    rfl
  | cons next fields ih =>
    have others : ∀ field ∈ next :: fields, field.2.IsRead room :=
      fun field mem => each field (List.mem_cons_of_mem _ mem)
    rw [fieldsChars, List.append_assoc, List.cons_append, List.append_assoc, List.cons_append,
      read_field isRead named shallow (closes_cons rfl _), read_mark rfl, step,
      ih others (fun key => rfl) (others _ List.mem_cons_self), List.reverse_cons,
      List.append_assoc, fieldDocuments]
    rfl

/-- A list is read one level above what its items need. -/
theorem isRead_list {room : Nat} {items : List Value} (each : ∀ item ∈ items, item.IsRead room) :
    (list items).IsRead (room + 1) := by
  intro s frames rest awaits shallow _
  have below : frames.length < deepest := by omega
  rw [chars, List.cons_append, List.append_assoc, List.singleton_append, read_mark rfl,
    awaits .beginList _ rfl, document, ← close_of_lt below]
  cases items with
  | nil => exact read_mark (c := ']') rfl _ _
  | cons item items => exact read_items each (awaits_expectItem frames) (by omega) rest

/-- A record is read one level above what its values need. -/
theorem isRead_record {room : Nat} {fields : List (String × Value)}
    (each : ∀ field ∈ fields, field.2.IsRead room) : (record fields).IsRead (room + 1) := by
  intro s frames rest awaits shallow _
  have below : frames.length < deepest := by omega
  rw [chars, List.cons_append, List.append_assoc, List.singleton_append, read_mark rfl,
    awaits .beginRecord _ rfl, document, ← close_of_lt below]
  cases fields with
  | nil => exact read_mark (c := '\x7d') rfl _ _
  | cons field fields =>
    have named (key : Option String) : (expectName frames).step (.text key) =
      expectColon [] key frames := rfl
    exact read_fields each named (by omega) rest

/-- Plain values are read. -/
theorem IsPlain.isRead {room : Nat} {v : Value} (h : v.IsPlain room) : v.IsRead room := by
  induction h with
  | null =>
    intro s frames rest awaits _ _
    rw [chars, read_of_tokens (tokens_nullChars rest), awaits .null _ rfl, document]
  | bool value =>
    intro s frames rest awaits _ _
    rw [chars, read_of_tokens (tokens_boolChars value rest), awaits (.bool value) _ rfl, document]
  | @natural _ n =>
    intro s frames rest awaits _ closes
    rw [chars, read_of_tokens (tokens_digitChars n closes), awaits (.number (.ofNat n)) _ rfl,
      document]
  | text t =>
    intro s frames rest awaits _ _
    rw [chars, read_of_tokens (tokens_textChars t rest), awaits (.text (some t)) _ rfl, document]
  | list _ ih => exact isRead_list ih
  | record _ ih => exact isRead_record ih

end Value

/-! ## Texts of values -/

/-- The text of a plain value is one whole document, the one that says the same. -/
theorem Document.ofText_compact {v : Value} (h : v.IsPlain State.deepest) :
    ofText v.compact = (v.document, true) := by
  have read := h.isRead (State.awaits_expectValue []) (Nat.le_of_eq (Nat.zero_add _)) closes_nil
  rw [List.append_nil, State.read_nil, State.read] at read
  rw [ofText, ofTokens, Value.compact, String.toList_ofList, read]
  rfl

/-- Reading the text of a plain value is reading what it says. -/
theorem Reader.readText_compact {α : Type} (read : Reader α) {v : Value}
    (h : v.IsPlain State.deepest) : read.readText v.compact = read v.document := by
  rw [readText, Document.ofText_compact h]
  exact bind_pure (read v.document)

end PenMath.Json
