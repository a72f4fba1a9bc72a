import PenMath.Proofs.Except
import PenMath.Proofs.Region.Bars
import PenMath.Region.Parse

/-!
# How a region has been read

A region that has been read has been read in steps: rounds of bar resolution, then a scan of the
line. `Stacked` and `Scanned` are these steps as relations, one constructor for each thing that a
step can do, over a relation between the items of a smaller region and the expression read from
them. What holds of every region read is then proved by two inductions that never look at a failure
or at a length, put together by `parse_induction`.
-/

namespace PenMath.Region

/-- What may be said of the items of a region and the expression read from them. -/
abbrev Reading := List Item → Expression → Prop

/-! ## Rounds -/

/-- The rounds that lead from a list and the division signs met before to a list without bars. -/
inductive Stacked (R : Reading) : List Glyph → List Item → List Item → Prop
  /-- No bar is left. -/
  | settled {signs items} (notTaken : takeWidestBar? items = none) :
      Stacked R signs items (items ++ signs.map .glyph)
  /-- A bar with nothing around it is a division sign of the line. -/
  | sign {signs items bar others out} (taken : takeWidestBar? items = some (bar, others))
      (noneAbove : above bar others = []) (noneBelow : below bar others = [])
      (following : Stacked R (signs ++ [bar]) (beside bar others) out) : Stacked R signs items out
  /-- A bar with something on one side only is dropped. -/
  | dropped {signs items bar others out} (taken : takeWidestBar? items = some (bar, others))
      (oneSided : above bar others = [] ↔ below bar others ≠ [])
      (following :
        Stacked R signs (beside bar others ++ above bar others ++ below bar others) out) :
      Stacked R signs items out
  /-- A bar with something on both sides is a fraction. -/
  | fraction {signs items bar others numerator denominator out}
      (taken : takeWidestBar? items = some (bar, others))
      (someAbove : above bar others ≠ []) (someBelow : below bar others ≠ [])
      (upper : R (above bar others) numerator) (lower : R (below bar others) denominator)
      (following : Stacked R signs
        (beside bar others ++ [.fraction (.stacked numerator denominator)]) out) :
      Stacked R signs items out

/-- Bars that have been resolved have been resolved in rounds, which read shorter regions only. -/
theorem stacked_of_stack {read : Reader} {n : Nat} {signs : List Glyph} {items out : List Item}
    (h : stack read signs items = .ok out) (short : items.length ≤ n) :
    Stacked (fun l e => l.length < n ∧ read l = .ok e) signs items out := by
  fun_induction stack read signs items generalizing out with
  | case1 signs items notTaken =>
    cases h
    exact .settled notTaken
  | case2 signs items bar others taken empty ih =>
    rw [Bool.and_eq_true, List.isEmpty_iff, List.isEmpty_iff] at empty
    have fewer := length_beside_lt taken
    exact .sign taken empty.1 empty.2 (ih h (by omega))
  | case3 signs items bar others taken notEmpty oneSided ih =>
    rw [Bool.and_eq_true, List.isEmpty_iff, List.isEmpty_iff] at notEmpty
    rw [Bool.or_eq_true, List.isEmpty_iff, List.isEmpty_iff] at oneSided
    have fewer := length_dropped_lt taken
    exact .dropped taken ⟨fun none other => notEmpty ⟨none, other⟩, oneSided.resolve_right⟩
      (ih h (by omega))
  | case4 signs items bar others taken notEmpty twoSided ih =>
    obtain ⟨numerator, upper, h⟩ := bind_eq_ok.mp h
    obtain ⟨denominator, lower, h⟩ := bind_eq_ok.mp h
    have fewer := length_built_lt taken twoSided (.stacked numerator denominator)
    rw [Bool.or_eq_true, List.isEmpty_iff, List.isEmpty_iff, not_or] at twoSided
    refine .fraction taken twoSided.1 twoSided.2 ⟨?_, upper⟩ ⟨?_, lower⟩
      (ih numerator denominator h (by omega))
    · exact Nat.lt_of_lt_of_le (length_above_lt taken) short
    · exact Nat.lt_of_lt_of_le (length_below_lt taken) short

/-- What glyphs have, and fractions of sides that were read from items that have it, all items have
after the rounds if they had it before. -/
theorem Stacked.forall_items {R : Reading} {Q : Item → Prop} {signs : List Glyph}
    {items out : List Item} (glyph : ∀ g, Q (.glyph g))
    (fraction : ∀ upper lower n d, upper ≠ [] → lower ≠ [] → (∀ item ∈ upper, Q item) →
      (∀ item ∈ lower, Q item) → R upper n → R lower d → Q (.fraction (.stacked n d)))
    (h : Stacked R signs items out) (all : ∀ item ∈ items, Q item) : ∀ item ∈ out, Q item := by
  induction h with
  | @settled signs items _ =>
    intro item mem
    rcases List.mem_append.mp mem with old | sign
    · exact all item old
    · obtain ⟨g, -, rfl⟩ := List.mem_map.mp sign
      exact glyph g
  | sign taken _ _ _ ih =>
    exact ih fun item mem => all item (mem_of_taken taken (List.mem_filter.mp mem).1)
  | @dropped signs items bar others out taken _ _ ih =>
    exact ih fun item mem => all item (mem_of_taken taken ((around_perm bar others).mem_iff.mp mem))
  | @fraction signs items bar others numerator denominator out taken someAbove someBelow upper lower
      _ ih =>
    have allOthers : ∀ item ∈ others, Q item := fun item mem => all item (mem_of_taken taken mem)
    have built := fraction _ _ _ _ someAbove someBelow
      (fun item mem => allOthers item (List.mem_filter.mp mem).1)
      (fun item mem => allOthers item (List.mem_filter.mp mem).1) upper lower
    apply ih
    intro item mem
    rcases List.mem_append.mp mem with old | new
    · exact allOthers item (List.mem_filter.mp old).1
    · rw [List.mem_singleton.mp new]
      exact built

/-! ## Scans -/

/-- An entry and the items of its exponent make the entry with that exponent. -/
inductive Attached (R : Reading) (base : Node) : List Item → Node → Prop
  | bare : Attached R base [] base
  | raised {power e} (notEmpty : power ≠ []) (reads : R power e) :
      Attached R base power (base.withPower e)

/-- An entry that has been closed has its exponent from the items above it. -/
theorem attached_of_attach {read : Reader} {n : Nat} {base closed : Node} {power : List Item}
    (h : attach read base power = .ok closed) (short : power.length < n) :
    Attached (fun l e => l.length < n ∧ read l = .ok e) base power closed := by
  rw [attach] at h
  split at h
  next empty =>
    cases h
    rw [List.isEmpty_iff.mp empty]
    exact .bare
  next notEmpty =>
    obtain ⟨e, reads, rfl⟩ := map_eq_ok.mp h
    exact .raised (by simpa using notEmpty) ⟨short, reads⟩

/-- The scan that leads from an entry, the items of its exponent so far and the rest of the line to
the entries of the line. -/
inductive Scanned (R : Reading) (deepest : Bool) : Node → List Item → List Item → List Node → Prop
  /-- The line ends. -/
  | last {current power closed} (closing : Attached R current power closed) :
      Scanned R deepest current power [] [closed]
  /-- An item goes into the exponent. -/
  | raise {current power item rest nodes} (raised : takesAsPower current item = true)
      (shallow : deepest = false)
      (following : Scanned R deepest current (power ++ [item]) rest nodes) :
      Scanned R deepest current power (item :: rest) nodes
  /-- An item continues the entry. -/
  | grow {current item grown rest nodes} (level : takesAsPower current item = false)
      (joined : join? current item = some grown)
      (following : Scanned R deepest grown [] rest nodes) :
      Scanned R deepest current [] (item :: rest) nodes
  /-- An item starts the next entry. -/
  | close {current power item closed rest nodes} (level : takesAsPower current item = false)
      (apart : power ≠ [] ∨ join? current item = none)
      (closing : Attached R current power closed)
      (following : Scanned R deepest item.toNode [] rest nodes) :
      Scanned R deepest current power (item :: rest) (closed :: nodes)

/-- The entries of a line: those of a scan from its leftmost item on. -/
inductive Lined (R : Reading) (deepest : Bool) (items : List Item) : List Node → Prop
  | empty (none : items = []) : Lined R deepest items []
  | scan {first rest nodes} (sorted : leftToRight items = first :: rest)
      (scanned : Scanned R deepest first.toNode [] rest nodes) : Lined R deepest items nodes

theorem Attached.mono {R R' : Reading} {base closed : Node} {power : List Item}
    (h : Attached R base power closed) (weaken : ∀ l e, R l e → R' l e) :
    Attached R' base power closed := by
  cases h with
  | bare => exact .bare
  | raised notEmpty reads => exact .raised notEmpty (weaken _ _ reads)

/-- Bars that are read in a stricter way are read in a laxer one. -/
theorem Stacked.mono {R R' : Reading} {signs : List Glyph} {items out : List Item}
    (h : Stacked R signs items out) (weaken : ∀ l e, R l e → R' l e) :
    Stacked R' signs items out := by
  induction h with
  | settled notTaken => exact .settled notTaken
  | sign taken noneAbove noneBelow _ ih => exact .sign taken noneAbove noneBelow ih
  | dropped taken oneSided _ ih => exact .dropped taken oneSided ih
  | fraction taken someAbove someBelow upper lower _ ih =>
    exact .fraction taken someAbove someBelow (weaken _ _ upper) (weaken _ _ lower) ih

/-- A line that is scanned in a stricter way is scanned in a laxer one. -/
theorem Scanned.mono {R R' : Reading} {deepest : Bool} {current : Node} {power rest : List Item}
    {nodes : List Node} (h : Scanned R deepest current power rest nodes)
    (weaken : ∀ l e, R l e → R' l e) : Scanned R' deepest current power rest nodes := by
  induction h with
  | last closing => exact .last (closing.mono weaken)
  | raise raised shallow _ ih => exact .raise raised shallow ih
  | grow level joined _ ih => exact .grow level joined ih
  | close level apart closing _ ih => exact .close level apart (closing.mono weaken) ih

theorem Lined.mono {R R' : Reading} {deepest : Bool} {items : List Item} {nodes : List Node}
    (h : Lined R deepest items nodes) (weaken : ∀ l e, R l e → R' l e) :
    Lined R' deepest items nodes := by
  cases h with
  | empty none => exact .empty none
  | scan sorted scanned => exact .scan sorted (scanned.mono weaken)

/-- A line that has been read has been scanned, and only regions shorter than the line were read for
its exponents. -/
theorem scanned_of_scan {read : Reader} {deepest : Bool} {n : Nat} {current : Node}
    {power rest : List Item} {nodes : List Node}
    (h : scan read deepest current power rest = .ok nodes)
    (short : power.length + rest.length < n) :
    Scanned (fun l e => l.length < n ∧ read l = .ok e) deepest current power rest nodes := by
  induction rest generalizing current power nodes with
  | nil =>
    obtain ⟨closed, closing, h⟩ := bind_eq_ok.mp h
    cases h
    exact .last (attached_of_attach closing short)
  | cons item rest ih =>
    rw [List.length_cons] at short
    have shortRest : ([] : List Item).length + rest.length < n := by
      rw [List.length_nil]
      omega
    cases raised : takesAsPower current item with
    | true =>
      rw [scan_of_raised raised] at h
      -- an item that goes up can be read only where an exponent is allowed
      cases deepest with
      | true => cases h
      | false =>
        refine .raise raised rfl (ih h ?_)
        rw [List.length_append, List.length_singleton]
        omega
    | false =>
      rcases apart_or_joined current power item with apart | ⟨rfl, grown, joined⟩
      · rw [scan_of_apart raised apart] at h
        obtain ⟨closed, closing, h⟩ := bind_eq_ok.mp h
        obtain ⟨following, scanned, h⟩ := bind_eq_ok.mp h
        cases h
        exact .close raised apart (attached_of_attach closing (by omega)) (ih scanned shortRest)
      · rw [scan_of_joined raised joined] at h
        exact .grow raised joined (ih h shortRest)

/-- A line that has been read is empty or has been scanned from its leftmost item on. -/
theorem lined_of_line {read : Reader} {deepest : Bool} {items : List Item} {nodes : List Node}
    (h : line read deepest items = .ok nodes) :
    Lined (fun l e => l.length < items.length ∧ read l = .ok e) deepest items nodes := by
  have count := length_sortByKey (·.rect.x.place) items
  rw [line] at h
  split at h
  next sorted =>
    cases h
    rw [← leftToRight, sorted] at count
    exact .empty (List.length_eq_zero_iff.mp count.symm)
  next first rest sorted =>
    rw [← leftToRight, sorted, List.length_cons] at count
    exact .scan sorted (scanned_of_scan h (by rw [List.length_nil]; omega))

/-! ## Regions -/

/-- What every region keeps if its smaller regions have kept it holds of every region read. -/
theorem parse_induction (s : Setting) {P : Nat → Reading}
    (step : ∀ (depth : Nat) (items built : List Item) (entries : List Node),
      Stacked (fun l e => parse s depth l = .ok e ∧ P depth l e) [] items built →
      Lined (fun l e => parse s (depth + 1) l = .ok e ∧ P (depth + 1) l e)
        (decide (s.maxDepth ≤ depth)) built entries →
      P depth items (cutWords s.names entries))
    {depth : Nat} {items : List Item} {e : Expression} (h : parse s depth items = .ok e) :
    P depth items e := by
  -- exponents are read from what the rounds have left, which is no longer than the region was
  induction n : items.length using Nat.strongRecOn generalizing depth items e with
  | ind n ih =>
    subst n
    rw [parse_eq] at h
    obtain ⟨built, resolved, h⟩ := bind_eq_ok.mp h
    obtain ⟨entries, read, h⟩ := bind_eq_ok.mp h
    cases h
    have notLonger : built.length ≤ items.length := by simpa using length_stack_le resolved
    apply step depth items built entries
    · refine (stacked_of_stack resolved (Nat.le_refl _)).mono ?_
      intro l e read
      obtain ⟨short, reads⟩ := read
      exact ⟨reads, ih l.length short reads rfl⟩
    · refine (lined_of_line read).mono ?_
      intro l e read
      obtain ⟨short, reads⟩ := read
      exact ⟨reads, ih l.length (Nat.lt_of_lt_of_le short notLonger) reads rfl⟩

end PenMath.Region
