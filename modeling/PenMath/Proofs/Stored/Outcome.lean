import PenMath.Proofs.Json.Written
import PenMath.Stored.Outcome

/-!
# Stored outcomes are read back

The text that is written for a request, a declaration, a propagation or an outcome is read as just
that again. What is stored is plain, so its text says what was stored; and the reader of each kind
of record inverts the way it is written, because the readers of its fields do. A set of names is
read as the set of the names listed, and there is only one with those.
-/

namespace PenMath

open Json

/-! ## What is stored is plain -/

theorem Json.Value.isPlain_texts (texts : List String) {room : Nat} :
    IsPlain (room + 1) (list (texts.map text)) :=
  .list (List.forall_mem_map.mpr fun s _ => .text s)

theorem Declaration.isPlain_stored (d : Declaration) {room : Nat} :
    d.stored.IsPlain (room + 2) := by
  have read (names : NameSet) : names.stored.IsPlain (room + 1) := Value.isPlain_texts _
  cases d with
  | constant | function => exact .record (by simp [Value.IsPlain.text, read])

theorem Request.isPlain_stored (r : Request) {room : Nat} : r.stored.IsPlain (room + 3) := by
  cases r with
  | evaluate | execute | solve => exact .record (by simp [Value.IsPlain.text])
  | declare d => exact .record (by simp [Value.IsPlain.text, d.isPlain_stored])

theorem Propagation.isPlain_stored (p : Propagation) {room : Nat} :
    p.stored.IsPlain (room + 2) := by
  have watchers : ∀ watcher ∈ p.notified, Value.IsPlain room (.natural watcher.toNat) :=
    fun watcher _ => .natural watcher.toNat_lt
  have notified := Value.IsPlain.list (List.forall_mem_map.mpr watchers)
  exact .record (by simp [Value.isPlain_texts, notified])

theorem Outcome.isPlain_stored (o : Outcome) {room : Nat} : o.stored.IsPlain (room + 4) := by
  have told : Value.IsPlain (room + 3) ((o.propagation.map (·.stored)).getD .null) := by
    cases o.propagation with
    | none => exact .null
    | some p => exact p.isPlain_stored
  exact .record (by simp [Request.isPlain_stored, told])

/-! ## What is stored is read back -/

theorem NameSet.inverts_ofStored : ofStored.Inverts stored :=
  Reader.inverts_text.list.map ofList_toList

/-- Both kinds are told apart by the tag and then read field by field. -/
theorem Declaration.inverts_ofStored (isField : Bool) : (ofStored isField).Inverts stored := by
  intro d
  have plain : d.stored.IsPlain 2 := d.isPlain_stored
  have whole := plain.isWhole
  cases d with
  | constant name body dependencies =>
    have taken : constantFields.Takes
        [("name", .text name), ("body", .text body), ("dependencies", dependencies.stored)]
        (some name, some body, some dependencies) :=
      .cons (.cons (Fields.takes_single (NameSet.inverts_ofStored dependencies)) rfl (by simp)) rfl
        (by simp)
    exact (Reader.tagged_record whole (by simp) rfl).trans (taken.read _)
  | function name parameter body dependencies =>
    have taken : functionFields.Takes
        [("name", .text name), ("parameter", .text parameter), ("body", .text body),
          ("dependencies", dependencies.stored)]
        (some name, some parameter, some body, some dependencies) :=
      .cons (.cons (.cons (Fields.takes_single (NameSet.inverts_ofStored dependencies)) rfl
        (by simp)) rfl (by simp)) rfl (by simp)
    exact (Reader.tagged_record whole (by simp) rfl).trans (taken.read _)

/-- All four kinds are told apart by the tag and then read field by field. -/
theorem Request.inverts_ofStored : ofStored.Inverts stored := by
  intro r
  have plain : r.stored.IsPlain 3 := r.isPlain_stored
  have whole := plain.isWhole
  cases r with
  | evaluate text | execute text =>
    exact (Reader.tagged_record whole (by simp) rfl).trans
      ((Fields.takes_single (Reader.inverts_text text)).read _)
  | declare d =>
    -- a tag that is a number is known in a field, but none is written
    exact (Reader.tagged_record whole (by simp) rfl).trans
      ((Fields.takes_single (Declaration.inverts_ofStored true d)).read _)
  | solve unknown residual =>
    have taken : ((Fields.single "unknown" Reader.text).both (.single "residual" Reader.text)).Takes
        [("unknown", .text unknown), ("residual", .text residual)]
        (some unknown, some residual) :=
      .cons (Fields.takes_single (Reader.inverts_text residual)) rfl (by simp)
    exact (Reader.tagged_record whole (by simp) rfl).trans (taken.read _)

/-- The number of a watcher is written as it is and fits the 64 bits that are read. -/
theorem WatcherId.inverts_ofStored : ofStored.Inverts fun watcher => .natural watcher.toNat := by
  intro watcher
  rw [ofStored, Reader.natural_document watcher.toNat_lt, Except.map, UInt64.ofNat_toNat]

theorem Propagation.inverts_ofStored : ofStored.Inverts stored := by
  intro p
  have taken : fields.Takes
      [("invalidated", .list (p.invalidated.map .text)),
        ("notified", .list (p.notified.map fun watcher => .natural watcher.toNat))]
      (some p.invalidated, some p.notified) :=
    .cons (Fields.takes_single (WatcherId.inverts_ofStored.list p.notified))
      (Reader.inverts_text.list p.invalidated) (by simp)
  exact taken.read _

theorem Outcome.inverts_ofStored : ofStored.Inverts stored := by
  intro o
  have told := Propagation.inverts_ofStored.option (fun _ => nofun) o.propagation
  have taken : fields.Takes
      [("request", o.request.stored), ("propagation", (o.propagation.map (·.stored)).getD .null)]
      (some o.request, some o.propagation) :=
    .cons (Fields.takes_single told) (Request.inverts_ofStored o.request) (by simp)
  exact taken.read _

/-- Requests, declarations, propagations and outcomes are read from the texts that are written for
them, whatever they hold; and what any text is read as is read again from the text written for
it. -/
theorem stored_outcomes_round_trip :
    Request.ofStored.RoundTrips Request.stored ∧
      (Declaration.ofStored false).RoundTrips Declaration.stored ∧
      Propagation.ofStored.RoundTrips Propagation.stored ∧
      Outcome.ofStored.RoundTrips Outcome.stored :=
  ⟨Request.inverts_ofStored.roundTrips fun r => r.isPlain_stored,
    (Declaration.inverts_ofStored false).roundTrips fun d => d.isPlain_stored,
    Propagation.inverts_ofStored.roundTrips fun p => p.isPlain_stored,
    Outcome.inverts_ofStored.roundTrips fun o => o.isPlain_stored⟩

end PenMath
