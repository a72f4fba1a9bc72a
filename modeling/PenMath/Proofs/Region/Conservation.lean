import Mathlib.Tactic.Abel
import Mathlib.Tactic.Convert
import PenMath.Proofs.Region.Derivation
import PenMath.Proofs.Sort
import PenMath.Proofs.Tree.Ink

/-!
# Reading a region loses no glyph and makes none up

Each step of reading a region moves glyphs: a round moves them into a fraction, a scan into runs and
exponents, the last step into words. Only a round takes one away, and that is a bar: for one new
fraction, or for nothing. So what is read is drawn with what was there but for bars (`Spends`), step
by step and then through all smaller regions (`spends_of_parse`).

A region without bars keeps even the order. Its line is the sorted list, every exponent is a piece
of it and so sorted already, and what is read is that list (`glyphs_of_parse`).

Both need that an item carries no exponent before it is read, or the exponent would be replaced.
Fractions are built without one.
-/

namespace PenMath.Region

/-! ## Items without exponents -/

/-- Whether items carry no exponents yet. -/
def Bare (items : List Item) : Prop := ∀ item ∈ items, item.toNode.power = none

variable {R : Reading} {items others : List Item} {bar : Glyph}

theorem Bare.glyphs (glyphs : List Glyph) : Bare (glyphs.map .glyph) := by
  intro item mem
  obtain ⟨g, -, rfl⟩ := List.mem_map.mp mem
  rfl

theorem Bare.perm {items' : List Item} (h : Bare items) (perm : items.Perm items') : Bare items' :=
  fun item mem => h item (perm.mem_iff.mpr mem)

theorem Bare.append {more : List Item} (h : Bare items) (h' : Bare more) : Bare (items ++ more) :=
  fun item mem => (List.mem_append.mp mem).elim (h item) (h' item)

theorem Bare.filter (h : Bare items) (p : Item → Bool) : Bare (items.filter p) :=
  fun item mem => h item (List.mem_filter.mp mem).1

theorem Bare.stacked (n d : Expression) : Bare [.fraction (.stacked n d)] := by
  intro item mem
  rw [List.mem_singleton.mp mem]
  rfl

theorem Bare.of_taken (h : Bare items) (taken : takeWidestBar? items = some (bar, others)) :
    Bare others :=
  fun item mem => h item (mem_of_taken taken mem)

/-- A glyph that is joined to an entry stands at its end; the entry has no exponent. -/
theorem join?_eq_some {current grown : Node} {item : Item} (h : join? current item = some grown) :
    ∃ g, item = .glyph g ∧ current.accepts g = true ∧ grown = current.append g := by
  cases item with
  | fraction f => cases h
  | glyph g =>
    rw [join?] at h
    split at h
    next accepted =>
      cases h
      exact ⟨g, rfl, accepted, rfl⟩
    next => cases h

/-- Nothing joins a run once it has an exponent. -/
theorem power_of_join {current grown : Node} {item : Item} (h : join? current item = some grown) :
    grown.power = none := by
  obtain ⟨g, -, accepted, rfl⟩ := join?_eq_some h
  cases current with
  | fraction n d rect power => cases accepted
  | run r power =>
    cases power with
    | none => rfl
    | some p => cases accepted

/-! ## What is spent -/

/-- What items are drawn with: their glyphs in any order, and how many fractions they have. -/
def itemsInk (items : List Item) : Ink := baseInk (items.map Item.toNode)

@[simp] theorem itemsInk_nil : itemsInk [] = 0 := rfl

@[simp] theorem itemsInk_cons (item : Item) (rest : List Item) :
    itemsInk (item :: rest) = item.toNode.ink + itemsInk rest := baseInk_cons ..

@[simp] theorem itemsInk_append (front back : List Item) :
    itemsInk (front ++ back) = itemsInk front + itemsInk back := by
  rw [itemsInk, List.map_append, baseInk_append]
  rfl

theorem itemsInk_perm {items' : List Item} (perm : items.Perm items') :
    itemsInk items = itemsInk items' := baseInk_perm (perm.map _)

/-- A list with a bar is drawn with the bar and with what is around it. -/
theorem itemsInk_of_taken (taken : takeWidestBar? items = some (bar, others)) :
    itemsInk items = bar.ink + (itemsInk (beside bar others) + itemsInk (above bar others) +
      itemsInk (below bar others)) := by
  rw [← itemsInk_perm (takeWidestBar?_perm taken), itemsInk_cons, Node.ink_glyph,
    ← itemsInk_perm (around_perm bar others), itemsInk_append, itemsInk_append]

section

variable {signs : List Glyph} {ink : Ink} {numerator denominator : Expression}

/-- A bar that is a sign goes from the items to the signs. -/
theorem spends_of_sign (taken : takeWidestBar? items = some (bar, others))
    (noneAbove : above bar others = []) (noneBelow : Region.below bar others = [])
    (spends : Spends (itemsInk (beside bar others) + itemsInk ((signs ++ [bar]).map .glyph)) ink) :
    Spends (itemsInk items + itemsInk (signs.map .glyph)) ink := by
  rw [List.map_append, itemsInk_append, List.map_singleton, itemsInk_cons, itemsInk_nil,
    add_zero, Node.ink_glyph] at spends
  rw [itemsInk_of_taken taken, noneAbove, noneBelow, itemsInk_nil, add_zero, add_zero]
  convert spends using 1
  abel

/-- A bar that is dropped is given for nothing. -/
theorem spends_of_dropped (taken : takeWidestBar? items = some (bar, others))
    (spends : Spends (itemsInk (beside bar others ++ above bar others ++ Region.below bar others) +
      itemsInk (signs.map .glyph)) ink) :
    Spends (itemsInk items + itemsInk (signs.map .glyph)) ink := by
  rw [itemsInk_append, itemsInk_append] at spends
  have spent := (Spends.drop (takeWidestBar?_split taken).1).add spends
  rw [zero_add] at spent
  rw [itemsInk_of_taken taken, add_assoc]
  exact spent

/-- A bar that is a fraction is given for the fraction, and what its sides are drawn with goes into
it. -/
theorem spends_of_fraction (taken : takeWidestBar? items = some (bar, others))
    (numerators : Spends (itemsInk (above bar others)) (baseInk numerator))
    (denominators : Spends (itemsInk (Region.below bar others)) (baseInk denominator))
    (spends : Spends (itemsInk (beside bar others ++
      [.fraction (.stacked numerator denominator)]) + itemsInk (signs.map .glyph)) ink) :
    Spends (itemsInk items + itemsInk (signs.map .glyph)) ink := by
  rw [itemsInk_append, itemsInk_cons, itemsInk_nil, add_zero, Node.ink_stacked] at spends
  have built := (Spends.refl (itemsInk (beside bar others))).add
    ((numerators.add denominators).add (Spends.divide (takeWidestBar?_split taken).1))
  rw [itemsInk_of_taken taken]
  refine Spends.trans ?_ spends
  convert built.add (Spends.refl _) using 2
  abel

end

/-- Rounds of bar resolution spend bars only. -/
theorem Stacked.spends {signs : List Glyph} {out : List Item}
    (reads : ∀ l e, Bare l → R l e → Spends (itemsInk l) (baseInk e))
    (h : Stacked R signs items out) (bare : Bare items) :
    Spends (itemsInk items + itemsInk (signs.map .glyph)) (itemsInk out) ∧ Bare out := by
  induction h with
  | @settled signs items _ =>
    rw [itemsInk_append]
    exact ⟨Spends.refl _, bare.append (Bare.glyphs signs)⟩
  | @sign signs items bar others out taken noneAbove noneBelow _ ih =>
    obtain ⟨spends, bareOut⟩ := ih ((bare.of_taken taken).filter _)
    exact ⟨spends_of_sign taken noneAbove noneBelow spends, bareOut⟩
  | @dropped signs items bar others out taken _ _ ih =>
    obtain ⟨spends, bareOut⟩ := ih ((bare.of_taken taken).perm (around_perm bar others).symm)
    exact ⟨spends_of_dropped taken spends, bareOut⟩
  | @fraction signs items bar others numerator denominator out taken _ _ upper lower _ ih =>
    have bareOthers := bare.of_taken taken
    obtain ⟨spends, bareOut⟩ := ih ((bareOthers.filter _).append (Bare.stacked _ _))
    exact ⟨spends_of_fraction taken (reads _ _ (bareOthers.filter _) upper)
      (reads _ _ (bareOthers.filter _) lower) spends, bareOut⟩

/-- An exponent is drawn with the same glyphs before and after it is read. -/
theorem Attached.spends {base closed : Node} {power : List Item}
    (reads : ∀ l e, Bare l → R l e → Spends (itemsInk l) (baseInk e))
    (h : Attached R base power closed) (bareBase : base.power = none) (bare : Bare power) :
    Spends (base.ink + itemsInk power) closed.ink := by
  cases h with
  | bare =>
    rw [itemsInk_nil, add_zero]
    exact Spends.refl _
  | @raised _ e _ read =>
    rw [Node.ink_withPower bareBase]
    exact (Spends.refl _).add (reads _ _ bare read)

/-- A scan spends what its exponents spend. -/
theorem Scanned.spends {deepest : Bool} {current : Node} {power rest : List Item}
    {nodes : List Node} (reads : ∀ l e, Bare l → R l e → Spends (itemsInk l) (baseInk e))
    (h : Scanned R deepest current power rest nodes) (bareCurrent : current.power = none)
    (barePower : Bare power) (bareRest : Bare rest) :
    Spends (current.ink + itemsInk power + itemsInk rest) (baseInk nodes) := by
  induction h with
  | last closing =>
    rw [itemsInk_nil, add_zero, baseInk_cons, baseInk_nil, add_zero]
    exact closing.spends reads bareCurrent barePower
  | @raise current power item rest nodes _ _ _ ih =>
    obtain ⟨bareItem, bareRest⟩ := List.forall_mem_cons.mp bareRest
    have bareMore : Bare [item] := by simpa [Bare] using bareItem
    -- the item goes over from the rest to the exponent
    have spends := ih bareCurrent (barePower.append bareMore) bareRest
    rw [itemsInk_append, itemsInk_cons, itemsInk_nil, add_zero] at spends
    rw [itemsInk_cons]
    simpa only [add_assoc] using spends
  | @grow current item grown rest nodes _ joined _ ih =>
    obtain ⟨-, bareRest⟩ := List.forall_mem_cons.mp bareRest
    have spends := ih (power_of_join joined) barePower bareRest
    obtain ⟨g, rfl, accepted, rfl⟩ := join?_eq_some joined
    rw [Node.ink_append accepted, itemsInk_nil, add_zero] at spends
    rw [itemsInk_nil, add_zero, itemsInk_cons, Node.ink_glyph, ← add_assoc]
    exact spends
  | @close current power item closed rest nodes _ _ closing _ ih =>
    obtain ⟨bareItem, bareRest⟩ := List.forall_mem_cons.mp bareRest
    have spends := ih bareItem (List.forall_mem_nil _) bareRest
    rw [itemsInk_nil, add_zero] at spends
    rw [itemsInk_cons, baseInk_cons]
    exact (closing.spends reads bareCurrent barePower).add spends

/-- A region that is read is drawn with its items, but for bars. -/
theorem spends_of_parse {s : Setting} {depth : Nat} {e : Expression}
    (h : parse s depth items = .ok e) (bare : Bare items) :
    Spends (itemsInk items) (baseInk e) := by
  refine parse_induction s (P := fun _ l e => Bare l → Spends (itemsInk l) (baseInk e))
    ?_ h bare
  intro depth items built entries stacked lined bare
  obtain ⟨resolved, bareBuilt⟩ := stacked.spends (fun l e bare read => read.2 bare) bare
  rw [List.map_nil, itemsInk_nil, add_zero] at resolved
  refine resolved.trans ?_
  rw [baseInk_cutWords]
  cases lined with
  | empty none =>
    rw [none]
    exact Spends.refl _
  | @scan first rest nodes sorted scanned =>
    -- sorting moves no ink
    have perm := sortByKey_perm (·.rect.x.place) built
    rw [← leftToRight, sorted] at perm
    obtain ⟨bareFirst, bareRest⟩ := List.forall_mem_cons.mp (bareBuilt.perm perm.symm)
    have spends := scanned.spends (fun l e bare read => read.2 bare) bareFirst
      (List.forall_mem_nil _) bareRest
    rw [itemsInk_nil, add_zero, ← itemsInk_cons, itemsInk_perm perm] at spends
    exact spends

/-! ## The order of a region without bars -/

/-- The glyphs of items, in the order of the items. -/
def itemsGlyphs (items : List Item) : List Glyph := baseGlyphs (items.map Item.toNode)

@[simp] theorem itemsGlyphs_nil : itemsGlyphs [] = [] := rfl

@[simp] theorem itemsGlyphs_cons (item : Item) (rest : List Item) :
    itemsGlyphs (item :: rest) = item.toNode.glyphs ++ itemsGlyphs rest := rfl

@[simp] theorem itemsGlyphs_append (front back : List Item) :
    itemsGlyphs (front ++ back) = itemsGlyphs front ++ itemsGlyphs back := by
  rw [itemsGlyphs, List.map_append, baseGlyphs_append]
  rfl

theorem itemsGlyphs_map_glyph (glyphs : List Glyph) :
    itemsGlyphs (glyphs.map .glyph) = glyphs := by
  induction glyphs with
  | nil => rfl
  | cons g rest ih =>
    rw [List.map_cons, itemsGlyphs_cons, Node.glyphs_glyph, ih]
    rfl

/-- Whether items are read as they stand: no bar among them, from left to right. -/
structure InLine (items : List Item) : Prop where
  bare : Bare items
  noBars : barsOf items = []
  ascends : items.Pairwise fun a b => a.rect.x.place ≤ b.rect.x.place

theorem InLine.sublist {items' : List Item} (h : InLine items) (within : items'.Sublist items) :
    InLine items' where
  bare item mem := h.bare item (within.subset mem)
  noBars := by
    have bars := within.filterMap (·.glyphWith? '/')
    rw [← barsOf, ← barsOf, h.noBars] at bars
    exact List.sublist_nil.mp bars
  ascends := h.ascends.sublist within

/-- Sorting from left to right leaves a line as bare as it was. -/
theorem InLine.leftToRight (bare : Bare items) (noBars : barsOf items = []) :
    InLine (leftToRight items) where
  bare := bare.perm (sortByKey_perm _ items).symm
  noBars := by
    have bars : (barsOf (Region.leftToRight items)).Perm (barsOf items) :=
      (sortByKey_perm _ items).filterMap _
    rw [noBars] at bars
    exact bars.eq_nil
  ascends := pairwise_sortByKey _ items

theorem Attached.glyphs {base closed : Node} {power : List Item}
    (reads : ∀ l e, InLine l → R l e → baseGlyphs e = itemsGlyphs l)
    (h : Attached R base power closed) (bareBase : base.power = none) (inLine : InLine power) :
    closed.glyphs = base.glyphs ++ itemsGlyphs power := by
  cases h with
  | bare => rw [itemsGlyphs_nil, List.append_nil]
  | @raised _ e _ read => rw [Node.glyphs_withPower bareBase, reads _ _ inLine read]

/-- A scan keeps the order of the line: what goes into an exponent is next to what it is the
exponent of. -/
theorem Scanned.glyphs {deepest : Bool} {current : Node} {power rest : List Item}
    {nodes : List Node} (reads : ∀ l e, InLine l → R l e → baseGlyphs e = itemsGlyphs l)
    (h : Scanned R deepest current power rest nodes) (bareCurrent : current.power = none)
    (inLine : InLine (power ++ rest)) :
    baseGlyphs nodes = current.glyphs ++ itemsGlyphs power ++ itemsGlyphs rest := by
  induction h with
  | last closing =>
    rw [List.append_nil] at inLine
    rw [baseGlyphs, baseGlyphs, closing.glyphs reads bareCurrent inLine, itemsGlyphs_nil]
  | @raise current power item rest nodes _ _ _ ih =>
    rw [← List.append_cons] at ih
    rw [ih bareCurrent inLine, itemsGlyphs_append, itemsGlyphs_cons, itemsGlyphs_cons,
      itemsGlyphs_nil]
    simp only [List.append_assoc, List.nil_append]
  | @grow current item grown rest nodes _ joined _ ih =>
    rw [ih (power_of_join joined) (inLine.sublist (List.sublist_cons_self item rest))]
    obtain ⟨g, rfl, accepted, rfl⟩ := join?_eq_some joined
    rw [Node.glyphs_append accepted, itemsGlyphs_nil, itemsGlyphs_cons, Node.glyphs_glyph]
    simp only [List.append_assoc, List.nil_append]
  | @close current power item closed rest nodes _ _ closing _ ih =>
    have bareItem := inLine.bare item (by simp)
    have closedGlyphs := closing.glyphs reads bareCurrent
      (inLine.sublist (List.sublist_append_left _ _))
    have following := ih bareItem
      (inLine.sublist ((List.sublist_cons_self item rest).trans (List.sublist_append_right _ _)))
    rw [baseGlyphs, closedGlyphs, following, itemsGlyphs_nil, itemsGlyphs_cons]
    simp only [List.append_assoc, List.nil_append]

/-- A region without bars is read from left to right. -/
theorem glyphs_of_parse {s : Setting} {depth : Nat} {e : Expression}
    (h : parse s depth items = .ok e) (bare : Bare items) (noBars : barsOf items = []) :
    baseGlyphs e = itemsGlyphs (leftToRight items) := by
  refine parse_induction s (P := fun _ l e =>
    Bare l → barsOf l = [] → baseGlyphs e = itemsGlyphs (leftToRight l)) ?_ h bare noBars
  intro depth items built entries stacked lined bare noBars
  -- without bars there are no rounds
  obtain rfl : built = items := by
    have none := takeWidestBar?_eq_none.mpr noBars
    cases stacked with
    | settled => exact List.append_nil items
    | sign taken | dropped taken | fraction taken =>
      rw [none] at taken
      cases taken
  rw [baseGlyphs_cutWords]
  -- an exponent is in line already, so sorting it again changes nothing
  have reads : ∀ l e, InLine l → (parse s (depth + 1) l = .ok e ∧
      (Bare l → barsOf l = [] → baseGlyphs e = itemsGlyphs (leftToRight l))) →
      baseGlyphs e = itemsGlyphs l := by
    intro l e inLine read
    rw [read.2 inLine.bare inLine.noBars, leftToRight, sortByKey_of_pairwise _ inLine.ascends]
  cases lined with
  | empty none =>
    rw [none]
    rfl
  | @scan first rest nodes sorted scanned =>
    have inLine := InLine.leftToRight bare noBars
    rw [sorted] at inLine
    rw [sorted, scanned.glyphs reads (inLine.bare first List.mem_cons_self)
      (inLine.sublist (List.sublist_cons_self first rest)), itemsGlyphs_cons, itemsGlyphs_nil,
      List.append_nil]

end PenMath.Region
