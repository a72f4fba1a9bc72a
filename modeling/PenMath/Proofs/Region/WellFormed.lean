import PenMath.Proofs.Region.Conservation
import PenMath.Proofs.Region.Words

/-!
# What a region is read as is well formed

The scan of a line makes runs out of glyphs that go together and gives exponents only to what may
carry one (`Scanned.isProper`), and it starts a new run of digits after digits, or of letters after
letters, only when an exponent is in between (`Scanned.apart`). A round of bar resolution leaves
something of whatever it was given, so the sides of a fraction are never read from nothing
(`Stacked.ne_nil`). Both put together over all smaller regions: what is read is well formed, and
empty only if there was nothing to read (`wellFormed_of_parse`).
-/

namespace PenMath.Region

variable {R : Reading} {names : List String} {items : List Item}

/-! ## Items -/

/-- Whether an item is one that a region may hold: a glyph, or a fraction of two sides that were
read. -/
inductive IsReady (names : List String) : Item → Prop
  | glyph {g} : IsReady names (.glyph g)
  | fraction {n d} (upper : WellFormed names n) (lower : WellFormed names d) (someUpper : n ≠ [])
      (someLower : d ≠ []) : IsReady names (.fraction (.stacked n d))

/-- Whether an entry may still grow: it is as it should be, but for its letters, and has no exponent
yet. -/
structure IsOpen (names : List String) (node : Node) : Prop where
  proper : node.IsProper fun _ => True
  inner : AreInner names node.lines
  bare : node.power = none

theorem IsReady.isOpen {item : Item} (ready : IsReady names item) : IsOpen names item.toNode := by
  cases ready with
  | glyph =>
    refine ⟨.run (Run.isToken_single _) (fun _ => rfl) (fun _ => trivial), ?_, rfl⟩
    exact List.forall_mem_nil _
  | fraction upper lower someUpper someLower =>
    refine ⟨isProper_stacked someUpper someLower, ?_, rfl⟩
    have sides := (upper.areInner someUpper).append (lower.areInner someLower)
    simpa [Item.toNode, Fraction.toNode, Fraction.stacked, Node.lines, powerLines] using sides

theorem IsOpen.join {current grown : Node} {item : Item} (h : IsOpen names current)
    (joined : join? current item = some grown) : IsOpen names grown := by
  have bare := power_of_join joined
  obtain ⟨g, rfl, accepted, rfl⟩ := join?_eq_some joined
  refine ⟨h.proper.append accepted, ?_, bare⟩
  rw [Node.lines_append]
  exact h.inner

/-- What reading a smaller region gives. -/
abbrev ReadsWell (names : List String) : Reading := fun l e =>
  (∀ item ∈ l, IsReady names item) → WellFormed names e ∧ (l ≠ [] → e ≠ [])

/-! ## Rounds -/

/-- Rounds leave ready items. -/
theorem Stacked.isReady {signs : List Glyph} {out : List Item}
    (reads : ∀ l e, R l e → ReadsWell names l e) (h : Stacked R signs items out)
    (ready : ∀ item ∈ items, IsReady names item) : ∀ item ∈ out, IsReady names item := by
  refine h.forall_items (fun g => .glyph) ?_ ready
  intro upper lower n d someUpper someLower readyUpper readyLower readsUpper readsLower
  obtain ⟨wellUpper, leftUpper⟩ := reads _ _ readsUpper readyUpper
  obtain ⟨wellLower, leftLower⟩ := reads _ _ readsLower readyLower
  exact .fraction wellUpper wellLower (leftUpper someUpper) (leftLower someLower)

/-- Rounds leave something if there was something. -/
theorem Stacked.ne_nil {signs : List Glyph} {out : List Item} (h : Stacked R signs items out)
    (some : items ++ signs.map .glyph ≠ []) : out ≠ [] := by
  induction h with
  | settled => exact some
  | sign _ _ _ _ ih => exact ih (by simp)
  | dropped _ oneSided _ ih =>
    refine ih ?_
    -- the side that is not empty stays
    intro none
    rw [List.append_eq_nil_iff, List.append_eq_nil_iff, List.append_eq_nil_iff] at none
    exact oneSided.mp none.1.1.2 none.1.2
  | fraction _ _ _ _ _ _ ih => exact ih (by simp)

/-! ## The line -/

/-- An entry that got an exponent has one, and keeps its kind. -/
theorem Attached.kind_eq {base closed : Node} {power : List Item}
    (h : Attached R base power closed) :
    closed.kind = base.kind ∧ (power ≠ [] → closed.power ≠ none) := by
  cases h with
  | bare => exact ⟨rfl, fun some => absurd rfl some⟩
  | @raised _ e notEmpty reads =>
    refine ⟨Node.kind_withPower base e, fun _ none => ?_⟩
    rw [Node.power_withPower] at none
    cases none

/-- An entry with its exponent, if it has one. -/
theorem Attached.isProper {base closed : Node} {power : List Item}
    (reads : ∀ l e, R l e → ReadsWell names l e) (h : Attached R base power closed)
    (opened : IsOpen names base) (carries : power ≠ [] → base.kind ≠ .operator)
    (ready : ∀ item ∈ power, IsReady names item) :
    closed.IsProper (fun _ => True) ∧ AreInner names closed.lines := by
  cases h with
  | bare => exact ⟨opened.proper, opened.inner⟩
  | @raised _ e notEmpty read =>
    obtain ⟨wellFormed, some⟩ := reads _ _ read ready
    refine ⟨opened.proper.withPower (carries notEmpty) e, ?_⟩
    rw [Node.lines_withPower opened.bare]
    exact opened.inner.append (wellFormed.areInner (some notEmpty))

/-- The entries of a scan are as they should be, with all within them. -/
theorem Scanned.isProper {deepest : Bool} {current : Node} {power rest : List Item}
    {nodes : List Node} (reads : ∀ l e, R l e → ReadsWell names l e)
    (h : Scanned R deepest current power rest nodes) (opened : IsOpen names current)
    (carries : power ≠ [] → current.kind ≠ .operator)
    (readyPower : ∀ item ∈ power, IsReady names item)
    (readyRest : ∀ item ∈ rest, IsReady names item) :
    (∀ node ∈ nodes, node.IsProper fun _ => True) ∧ AreInner names (baseLines nodes) := by
  induction h with
  | last closing =>
    obtain ⟨proper, inner⟩ := closing.isProper reads opened carries readyPower
    rw [baseLines, baseLines, List.append_nil]
    exact ⟨List.forall_mem_singleton.mpr proper, inner⟩
  | @raise current power item rest nodes raised _ _ ih =>
    obtain ⟨readyItem, readyRest⟩ := List.forall_mem_cons.mp readyRest
    rw [takesAsPower, Bool.and_eq_true, decide_eq_true_eq] at raised
    refine ih opened (fun _ => raised.1) ?_ readyRest
    exact List.forall_mem_append.mpr ⟨readyPower, List.forall_mem_singleton.mpr readyItem⟩
  | @grow current item grown rest nodes _ joined _ ih =>
    obtain ⟨-, readyRest⟩ := List.forall_mem_cons.mp readyRest
    exact ih (opened.join joined) (fun some => absurd rfl some) readyPower readyRest
  | @close current power item closed rest nodes _ _ closing _ ih =>
    obtain ⟨readyItem, readyRest⟩ := List.forall_mem_cons.mp readyRest
    obtain ⟨proper, innerFirst⟩ := closing.isProper reads opened carries readyPower
    obtain ⟨others, inner⟩ :=
      ih readyItem.isOpen (fun some => absurd rfl some) (List.forall_mem_nil _) readyRest
    rw [baseLines]
    exact ⟨List.forall_mem_cons.mpr ⟨proper, others⟩, innerFirst.append inner⟩

/-! ## Entries side by side -/

/-- A glyph of a kind that grows, after an entry of its kind without exponent, would have been
joined to it. -/
theorem kind_of_not_joined {k : Kind} (merges : k.merges = true) {current : Node} {item : Item}
    (bare : current.power = none) (apart : join? current item = none) (left : current.kind = k) :
    item.toNode.kind ≠ k := by
  intro right
  cases item with
  | fraction f =>
    rw [← right] at merges
    cases merges
  | glyph g =>
    cases current with
    | fraction =>
      rw [← left] at merges
      cases merges
    | run r power =>
      cases bare
      rw [join?, if_pos] at apart
      · cases apart
      · have own : r.kind = k := left
        have other : g.kind = k := right
        rw [Node.accepts, Run.accepts, own, other, merges]
        exact decide_eq_true rfl

/-- What starts an entry of a kind that grows is a glyph, which has no exponent yet. -/
theorem power_toNode {k : Kind} (merges : k.merges = true) {item : Item}
    (kind : item.toNode.kind = k) : item.toNode.power = none := by
  cases item with
  | glyph g => rfl
  | fraction f =>
    rw [← kind] at merges
    cases merges

/-- Entries of a scan of one kind that grows stand side by side only if an exponent ends the first;
and the first entry has the kind the scan began with. -/
theorem Scanned.apart {k : Kind} (merges : k.merges = true) {deepest : Bool} {current : Node}
    {power rest : List Item} {nodes : List Node} (h : Scanned R deepest current power rest nodes)
    (bare : current.kind = k → current.power = none) :
    (nodes.IsChain fun left right => left.kind = k → right.kind = k → left.power ≠ none) ∧
      nodes.head?.map Node.kind = some current.kind := by
  induction h with
  | last closing => exact ⟨List.isChain_singleton _, congrArg some closing.kind_eq.1⟩
  | raise _ _ _ ih => exact ih bare
  | @grow current item grown rest nodes _ joined _ ih =>
    obtain ⟨chain, head⟩ := ih fun _ => power_of_join joined
    obtain ⟨g, rfl, -, rfl⟩ := join?_eq_some joined
    refine ⟨chain, head.trans (congrArg some ?_)⟩
    cases current <;> rfl
  | @close current power item closed rest nodes _ apart closing _ ih =>
    obtain ⟨kind, raised⟩ := closing.kind_eq
    obtain ⟨chain, head⟩ := ih (power_toNode merges)
    refine ⟨List.isChain_cons.mpr ⟨?_, chain⟩, congrArg some kind⟩
    intro next mem left right
    rw [Option.mem_def.mp mem, Option.map_some, Option.some.injEq] at head
    rw [kind] at left
    -- either an exponent was attached, or the next item did not continue the entry
    rcases apart with notEmpty | notJoined
    · exact raised notEmpty
    · exact absurd (head.symm.trans right) (kind_of_not_joined merges (bare left) notJoined left)

theorem Lined.apart {k : Kind} (merges : k.merges = true) {deepest : Bool} {nodes : List Node}
    (h : Lined R deepest items nodes) :
    nodes.IsChain fun left right => left.kind = k → right.kind = k → left.power ≠ none := by
  cases h with
  | empty => exact List.isChain_nil
  | scan sorted scanned => exact (scanned.apart merges (power_toNode merges)).1

/-- The entries of a line are a base line, and there are some if there is anything on the line. -/
theorem Lined.isBaseLine {deepest : Bool} {nodes : List Node}
    (reads : ∀ l e, R l e → ReadsWell names l e) (h : Lined R deepest items nodes)
    (ready : ∀ item ∈ items, IsReady names item) :
    IsBaseLine (fun _ => True) nodes ∧ AreInner names (baseLines nodes) ∧
      (items ≠ [] → nodes ≠ []) := by
  have numbers := h.apart (k := .digit) rfl
  cases h with
  | empty none =>
    refine ⟨⟨List.forall_mem_nil _, numbers⟩, List.forall_mem_nil _, fun some => ?_⟩
    exact absurd none some
  | @scan first rest nodes sorted scanned =>
    have perm := sortByKey_perm (·.rect.x.place) items
    rw [← leftToRight, sorted] at perm
    have readySorted : ∀ item ∈ first :: rest, IsReady names item :=
      fun item mem => ready item (perm.mem_iff.mp mem)
    obtain ⟨readyFirst, readyRest⟩ := List.forall_mem_cons.mp readySorted
    obtain ⟨entries, inner⟩ := scanned.isProper reads readyFirst.isOpen
      (fun some => absurd rfl some) (List.forall_mem_nil _) readyRest
    refine ⟨⟨entries, numbers⟩, inner, fun _ => ?_⟩
    rintro rfl
    cases (scanned.apart (k := .digit) rfl (power_toNode rfl)).2

/-! ## Regions -/

/-- What is read of a region is well formed, and empty only if the region is. -/
theorem wellFormed_of_parse {s : Setting} {depth : Nat} {e : Expression}
    (h : parse s depth items = .ok e) : ReadsWell s.names items e := by
  refine parse_induction s (P := fun _ => ReadsWell s.names) ?_ h
  intro depth items built entries stacked lined ready
  have readyBuilt := stacked.isReady (fun l e read => read.2) ready
  have someBuilt := stacked.ne_nil
  rw [List.map_nil, List.append_nil] at someBuilt
  obtain ⟨line, inner, someEntries⟩ := lined.isBaseLine (fun l e read => read.2) readyBuilt
  refine ⟨⟨isBaseLine_cutWords line, ?_⟩, fun some => cutWords_ne_nil line ?_⟩
  · rw [baseLines_cutWords]
    exact inner
  · exact someEntries (someBuilt some)

end PenMath.Region
