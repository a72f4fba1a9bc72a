import PenMath.Proofs.Region.Conservation
import PenMath.Proofs.Region.Words
import PenMath.Proofs.Tree.Nesting

/-!
# How many levels of exponents a region takes

A limit on exponents is tested in the middle of a scan, before an exponent is read, and in every
numerator, denominator and exponent anew. Still each region has a number of levels, whatever the
limit and the depth it stands at: within them it is read as one expression, and short of them an
exponent is too deep. Steps one after another take as many levels as the one that takes the most
(`within_bind`), and an exponent takes one more than its region.

`Resolves`, `Closes`, `Scans` and `Lines` say so of the rounds, an entry with its exponent, a scan
and a line; each comes with what its levels are bounded by, the items from above and the nesting of
what is read. `exists_takes` is the recursion over regions.

The depth and the limit enter by their difference only, and that is cut off at zero: a region deeper
than the limit is like one right at it.
-/

namespace PenMath

/-! ## Results within a limit -/

/-- What comes out under a limit if it takes so many levels of exponents. -/
def within {α : Type} (levels limit : Nat) (a : α) : Except Fault α :=
  if levels ≤ limit then .ok a else .error .nestedExponent

section

variable {α β : Type} {levels levels' limit : Nat} {a : α} {b : β}

@[simp] theorem within_zero : within 0 limit a = .ok a := if_pos (Nat.zero_le _)

theorem within_of_le (le : levels ≤ limit) : within levels limit a = .ok a := if_pos le

theorem within_of_lt (lt : limit < levels) : within levels limit a = .error .nestedExponent :=
  if_neg (Nat.not_le.mpr lt)

/-- Steps one after another take as many levels as the one that takes the most. -/
theorem within_bind {f : α → Except Fault β} (following : f a = within levels' limit b) :
    within levels limit a >>= f = within (max levels levels') limit b := by
  rcases Nat.lt_or_ge limit levels with short | enough
  · rw [within_of_lt short, within_of_lt (Nat.lt_of_lt_of_le short (Nat.le_max_left _ _))]
    rfl
  · rw [within_of_le enough]
    show f a = _
    rw [following]
    unfold within
    simp only [Nat.max_le, enough, true_and]

theorem within_map (f : α → β) : (within levels limit a).map f = within levels limit (f a) := by
  unfold within
  split <;> rfl

end

namespace Region

/-! ## What is counted -/

/-- How many exponents stand in one another within the fractions of a region. -/
def itemsNesting (items : List Item) : Nat := Expression.nesting (items.map Item.toNode)

/-- Whether a region takes so many levels of exponents, and what is read from it if it may take
them. -/
structure Takes (names : List String) (items : List Item) (levels : Nat) (e : Expression) :
    Prop where
  reads : ∀ limit depth, parse ⟨names, limit⟩ depth items = within levels (limit - depth) e
  /-- Every level takes an item. -/
  short : levels ≤ items.length
  /-- Every level is there in the expression. -/
  nested : levels ≤ e.nesting
  /-- What stood in one another before still does. -/
  keeps : itemsNesting items ≤ e.nesting

/-- Whether every region with fewer than `n` items takes some number of levels: what the recursion
over regions has of the parts of a region with `n` items. -/
def TakesBelow (names : List String) (n : Nat) : Prop :=
  ∀ l : List Item, l.length < n → Bare l → ∃ levels e, Takes names l levels e

theorem itemsNesting_append (front back : List Item) :
    itemsNesting (front ++ back) = max (itemsNesting front) (itemsNesting back) := by
  rw [itemsNesting, List.map_append, Expression.nesting, baseDepth_append]
  rfl

theorem itemsNesting_cons (item : Item) (rest : List Item) :
    itemsNesting (item :: rest) = max (item.toNode.depth true) (itemsNesting rest) := rfl

theorem itemsNesting_singleton (item : Item) : itemsNesting [item] = item.toNode.depth true :=
  Nat.max_zero _

theorem itemsNesting_perm {items items' : List Item} (perm : items.Perm items') :
    itemsNesting items = itemsNesting items' := baseDepth_perm (perm.map _)

@[simp] theorem itemsNesting_nil : itemsNesting [] = 0 := rfl

variable {names : List String} {n : Nat} {items others : List Item} {bar : Glyph}

/-- What a list with a bar has in it, the things around the bar have. -/
theorem itemsNesting_of_taken (taken : takeWidestBar? items = some (bar, others)) :
    itemsNesting items = max
      (max (itemsNesting (beside bar others)) (itemsNesting (above bar others)))
      (itemsNesting (below bar others)) := by
  rw [← itemsNesting_perm (takeWidestBar?_perm taken), itemsNesting_cons,
    ← itemsNesting_perm (around_perm bar others), itemsNesting_append, itemsNesting_append]
  exact Nat.zero_max _

theorem itemsNesting_stacked (n d : Expression) :
    itemsNesting [.fraction (.stacked n d)] = max n.nesting d.nesting := by
  simp [itemsNesting, Expression.nesting, baseDepth, Item.toNode, Fraction.toNode,
    Fraction.stacked, Node.depth, powerDepth]

/-! ## Rounds -/

/-- Whether resolving the bars of a list takes so many levels of exponents, and what it comes to. -/
structure Resolves (names : List String) (signs : List Glyph) (items : List Item) (levels : Nat)
    (out : List Item) : Prop where
  runs : ∀ limit depth,
    stack (parse ⟨names, limit⟩ depth) signs items = within levels (limit - depth) out
  short : levels ≤ items.length
  nested : levels ≤ itemsNesting out
  keeps : itemsNesting items ≤ itemsNesting out
  bare : Bare out

section

variable {signs signs' : List Glyph} {items' out : List Item} {levels : Nat}

/-- A round that reads nothing takes no level. -/
theorem Resolves.of_round (resolves : Resolves names signs' items' levels out)
    (round : ∀ read, stack read signs items = stack read signs' items')
    (notMore : items'.length ≤ items.length) (kept : itemsNesting items = itemsNesting items') :
    Resolves names signs items levels out where
  runs limit depth := by rw [round, resolves.runs]
  short := Nat.le_trans resolves.short notMore
  nested := resolves.nested
  keeps := kept ▸ resolves.keeps
  bare := resolves.bare

/-- Without a bar there is nothing to read, and the signs found before go to the end. -/
theorem Resolves.of_none (notTaken : takeWidestBar? items = none) (bare : Bare items) :
    Resolves names signs items 0 (items ++ signs.map .glyph) where
  runs limit depth := by rw [stack_of_none notTaken, within_zero]
  short := Nat.zero_le _
  nested := Nat.zero_le _
  keeps := by
    rw [itemsNesting_append]
    exact Nat.le_max_left _ _
  bare := bare.append (Bare.glyphs signs)

/-- A bar with nothing above and below it is a sign between the things beside it. -/
theorem Resolves.of_inline (taken : takeWidestBar? items = some (bar, others))
    (empty : ((above bar others).isEmpty && (below bar others).isEmpty) = true)
    (resolves : Resolves names (signs ++ [bar]) (beside bar others) levels out) :
    Resolves names signs items levels out := by
  have kept := itemsNesting_of_taken taken
  have notMore := length_beside_lt taken
  rw [Bool.and_eq_true, List.isEmpty_iff, List.isEmpty_iff] at empty
  rw [empty.1, empty.2, itemsNesting_nil, Nat.max_zero, Nat.max_zero] at kept
  exact resolves.of_round (fun read => stack_of_inline taken (by simp [empty]))
    (Nat.le_of_lt notMore) kept

/-- A bar with one side empty is dropped, and the things around it stay. -/
theorem Resolves.of_oneSided (taken : takeWidestBar? items = some (bar, others))
    (notEmpty : ¬((above bar others).isEmpty && (below bar others).isEmpty) = true)
    (oneSided : ((above bar others).isEmpty || (below bar others).isEmpty) = true)
    (resolves : Resolves names signs
      (beside bar others ++ above bar others ++ below bar others) levels out) :
    Resolves names signs items levels out := by
  refine resolves.of_round (fun read => stack_of_oneSided taken notEmpty oneSided)
    (Nat.le_of_lt (length_dropped_lt taken)) ?_
  rw [itemsNesting_append, itemsNesting_append, itemsNesting_of_taken taken]

/-- What resolving comes to is nested as deep as the items it began with and the fraction built
before. -/
theorem Resolves.keeps_stacked {numerator denominator : Expression}
    (resolves : Resolves names signs (items ++ [.fraction (.stacked numerator denominator)])
      levels out) :
    max (itemsNesting items) (max numerator.nesting denominator.nesting) ≤ itemsNesting out := by
  rw [← itemsNesting_stacked, ← itemsNesting_append]
  exact resolves.keeps

/-- A round that builds a fraction takes the levels of its sides. -/
theorem Resolves.of_fraction (taken : takeWidestBar? items = some (bar, others))
    (twoSided : ¬((above bar others).isEmpty || (below bar others).isEmpty) = true)
    {upper lower : Nat} {numerator denominator : Expression}
    (takesUpper : Takes names (above bar others) upper numerator)
    (takesLower : Takes names (below bar others) lower denominator)
    (resolves : Resolves names signs
      (beside bar others ++ [.fraction (.stacked numerator denominator)]) levels out) :
    Resolves names signs items (max upper (max lower levels)) out where
  runs limit depth := by
    rw [stack_of_twoSided taken (by simp_all) twoSided, takesUpper.reads, takesLower.reads]
    exact within_bind (within_bind (resolves.runs limit depth))
  short := by
    -- the fraction takes the place of the bar, and each side has an item more than none
    have count := length_takeWidestBar? taken
    have around := length_around bar others
    have sides := length_sides_pos twoSided
    have shortUpper := takesUpper.short
    have shortLower := takesLower.short
    have short := resolves.short
    simp only [List.length_append, List.length_singleton] at short
    omega
  nested := by
    have keeps := resolves.keeps_stacked
    have nestedUpper := takesUpper.nested
    have nestedLower := takesLower.nested
    have nested := resolves.nested
    omega
  keeps := by
    have keeps := resolves.keeps_stacked
    have keepsUpper := takesUpper.keeps
    have keepsLower := takesLower.keeps
    rw [itemsNesting_of_taken taken]
    omega
  bare := resolves.bare

end

/-- Whatever bars there are, resolving them takes some number of levels. Only a bar with two sides
has regions to read; the rounds of the others take no level. -/
theorem exists_resolves (takes : TakesBelow names n) (signs : List Glyph) (items : List Item)
    (short : items.length ≤ n) (bare : Bare items) :
    ∃ levels out, Resolves names signs items levels out := by
  -- the rounds are the same whatever is read, so any reader will do to follow them
  fun_induction stack (fun _ => .ok []) signs items with
  | case1 signs items notTaken => exact ⟨0, _, .of_none notTaken bare⟩
  | case2 signs items bar others taken empty ih =>
    have fewer := length_beside_lt taken
    obtain ⟨levels, out, resolves⟩ := ih (by omega) ((bare.of_taken taken).filter _)
    exact ⟨levels, out, resolves.of_inline taken empty⟩
  | case3 signs items bar others taken notEmpty oneSided ih =>
    have notMore := length_dropped_lt taken
    obtain ⟨levels, out, resolves⟩ := ih (by omega)
      ((bare.of_taken taken).perm (around_perm bar others).symm)
    exact ⟨levels, out, resolves.of_oneSided taken notEmpty oneSided⟩
  | case4 signs items bar others taken notEmpty twoSided ih =>
    have count := length_takeWidestBar? taken
    have around := length_around bar others
    have bareOthers := bare.of_taken taken
    have sides := length_sides_pos twoSided
    obtain ⟨upper, numerator, takesUpper⟩ :=
      takes (above bar others) (by omega) (bareOthers.filter _)
    obtain ⟨lower, denominator, takesLower⟩ :=
      takes (below bar others) (by omega) (bareOthers.filter _)
    have fewer : (beside bar others ++
        [Item.fraction (.stacked numerator denominator)]).length ≤ n := by
      simp only [List.length_append, List.length_singleton]
      omega
    obtain ⟨levels, out, resolves⟩ := ih numerator denominator fewer
      ((bareOthers.filter _).append (Bare.stacked numerator denominator))
    exact ⟨_, out, .of_fraction taken twoSided takesUpper takesLower resolves⟩

/-! ## Lines -/

/-- Whether an entry with the items of its exponent takes so many levels, and what it comes to. The
exponent is read only below the limit. -/
structure Closes (names : List String) (base : Node) (power : List Item) (levels : Nat)
    (closed : Node) : Prop where
  runs : ∀ limit depth, (power ≠ [] → depth < limit) →
    attach (parse ⟨names, limit⟩ (depth + 1)) base power = within levels (limit - depth) closed
  short : levels ≤ power.length + 1
  raised : power ≠ [] → 0 < levels
  nested : levels ≤ closed.depth true
  keepsBase : base.depth true ≤ closed.depth true
  keepsPower : itemsNesting power ≤ closed.depth true

/-- An entry without an exponent takes no level. -/
theorem Closes.of_nil (base : Node) : Closes names base [] 0 base where
  runs _ _ _ := within_zero.symm
  short := Nat.zero_le _
  raised some := absurd rfl some
  nested := Nat.zero_le _
  keepsBase := Nat.le_refl _
  keepsPower := Nat.zero_le _

/-- An entry with an exponent takes one level more than the region that the exponent is. -/
theorem Closes.of_takes {base : Node} {power : List Item} {levels : Nat} {e : Expression}
    (some : power ≠ []) (bareBase : base.power = none) (takes : Takes names power levels e) :
    Closes names base power (levels + 1) (base.withPower e) where
  runs limit depth shallow := by
    have below : depth < limit := shallow some
    have room : levels ≤ limit - (depth + 1) ↔ levels + 1 ≤ limit - depth := by omega
    rw [attach, if_neg (by simpa using some), takes.reads, within_map, within, within]
    simp only [room]
  short := Nat.succ_le_succ takes.short
  raised _ := Nat.succ_pos _
  nested := by
    rw [Node.depth_withPower bareBase]
    exact le_max_of_le_right (Nat.succ_le_succ takes.nested)
  keepsBase := by
    rw [Node.depth_withPower bareBase]
    exact Nat.le_max_left _ _
  keepsPower := by
    rw [Node.depth_withPower bareBase]
    exact le_max_of_le_right (Nat.le_succ_of_le takes.keeps)

/-- An entry takes some number of levels, whatever stands above it. -/
theorem exists_closes (takes : TakesBelow names n) {base : Node} {power : List Item}
    (short : power.length < n) (bareBase : base.power = none) (bare : Bare power) :
    ∃ levels closed, Closes names base power levels closed := by
  by_cases some : power = []
  · subst some
    exact ⟨0, base, .of_nil base⟩
  · obtain ⟨levels, e, taking⟩ := takes power short bare
    exact ⟨levels + 1, base.withPower e, .of_takes some bareBase taking⟩

/-- Whether the scan of a line from an entry on takes so many levels, and what it comes to. Items of
an exponent have been met only below the limit. -/
structure Scans (names : List String) (current : Node) (power rest : List Item) (levels : Nat)
    (nodes : List Node) : Prop where
  runs : ∀ limit depth, (power ≠ [] → depth < limit) →
    scan (parse ⟨names, limit⟩ (depth + 1)) (decide (limit ≤ depth)) current power rest =
      within levels (limit - depth) nodes
  short : levels ≤ power.length + rest.length + 1
  raised : power ≠ [] → 0 < levels
  nested : levels ≤ Expression.nesting nodes
  keepsCurrent : current.depth true ≤ Expression.nesting nodes
  keepsPower : itemsNesting power ≤ Expression.nesting nodes
  keepsRest : itemsNesting rest ≤ Expression.nesting nodes

section

variable {current closed : Node} {item : Item} {power rest : List Item} {levels closing : Nat}
  {nodes : List Node}

/-- A line that ends takes the levels of its last entry. -/
theorem Scans.finish (closes : Closes names current power levels closed) :
    Scans names current power [] levels [closed] where
  runs limit depth shallow := by
    rw [scan, closes.runs limit depth shallow]
    exact within_map ([·])
  short := closes.short
  raised := closes.raised
  nested := le_max_of_le_left closes.nested
  keepsCurrent := le_max_of_le_left closes.keepsBase
  keepsPower := le_max_of_le_left closes.keepsPower
  keepsRest := Nat.zero_le _

/-- An exponent can begin below the limit only, which the levels of the rest of the line say. -/
theorem Scans.raise (scans : Scans names current (power ++ [item]) rest levels nodes)
    (raised : takesAsPower current item = true) :
    Scans names current power (item :: rest) levels nodes where
  runs limit depth _ := by
    have some : 0 < levels := scans.raised (by simp)
    rw [scan_of_raised raised]
    by_cases deepest : limit ≤ depth
    · rw [if_pos (by simpa using deepest), within_of_lt (by omega)]
    · rw [if_neg (by simpa using deepest)]
      exact scans.runs limit depth fun _ => Nat.lt_of_not_le deepest
  short := by
    have short := scans.short
    simp only [List.length_append, List.length_cons, List.length_nil] at short ⊢
    omega
  raised _ := scans.raised (by simp)
  nested := scans.nested
  keepsCurrent := scans.keepsCurrent
  keepsPower := (Nat.max_le.mp (itemsNesting_append power [item] ▸ scans.keepsPower)).1
  keepsRest := by
    have keepsPower := scans.keepsPower
    rw [itemsNesting_append, itemsNesting_singleton, Nat.max_le] at keepsPower
    exact Nat.max_le.mpr ⟨keepsPower.2, scans.keepsRest⟩

/-- A glyph that continues the current entry is no exponent and takes no level. -/
theorem Scans.grow {grown : Node} (scans : Scans names grown [] rest levels nodes)
    (level : takesAsPower current item = false) (joined : join? current item = some grown) :
    Scans names current [] (item :: rest) levels nodes where
  runs limit depth notRaised := by
    rw [scan_of_joined level joined]
    exact scans.runs limit depth notRaised
  short := Nat.le_succ_of_le scans.short
  raised some := absurd rfl some
  nested := scans.nested
  keepsCurrent := by
    obtain ⟨g, -, -, rfl⟩ := join?_eq_some joined
    rw [← Node.depth_append]
    exact scans.keepsCurrent
  keepsPower := Nat.zero_le _
  keepsRest := by
    obtain ⟨g, rfl, -, -⟩ := join?_eq_some joined
    exact Nat.max_le.mpr ⟨Nat.zero_le _, scans.keepsRest⟩

/-- Where an entry ends and another begins, the line takes the levels of the first or those of the
rest, whichever are more. -/
theorem Scans.close (scans : Scans names item.toNode [] rest levels nodes)
    (level : takesAsPower current item = false) (apart : power ≠ [] ∨ join? current item = none)
    (closes : Closes names current power closing closed) :
    Scans names current power (item :: rest) (max closing levels) (closed :: nodes) where
  runs limit depth shallow := by
    rw [scan_of_apart level apart, closes.runs limit depth shallow]
    refine within_bind ?_
    rw [scans.runs limit depth (fun some => absurd rfl some)]
    exact within_map (closed :: ·)
  short := by
    have shortPower := closes.short
    have shortRest := scans.short
    simp only [List.length_cons, List.length_nil] at shortRest ⊢
    omega
  raised some := Nat.lt_of_lt_of_le (closes.raised some) (Nat.le_max_left _ _)
  nested := max_le_max closes.nested scans.nested
  keepsCurrent := le_max_of_le_left closes.keepsBase
  keepsPower := le_max_of_le_left closes.keepsPower
  keepsRest := le_max_of_le_right (Nat.max_le.mpr ⟨scans.keepsCurrent, scans.keepsRest⟩)

end

/-- A scan takes some number of levels, wherever it stands. The induction is on the items to come,
for every current entry and every part of its exponent: the next item is raised, begins an entry or
grows the current one. -/
theorem exists_scans (takes : TakesBelow names n) (current : Node) (power rest : List Item)
    (short : power.length + rest.length < n) (bareCurrent : current.power = none)
    (barePower : Bare power) (bareRest : Bare rest) :
    ∃ levels nodes, Scans names current power rest levels nodes := by
  induction rest generalizing current power with
  | nil =>
    obtain ⟨levels, closed, closes⟩ := exists_closes takes short bareCurrent barePower
    exact ⟨levels, [closed], .finish closes⟩
  | cons item rest ih =>
    obtain ⟨bareItem, bareRest⟩ := List.forall_mem_cons.mp bareRest
    rw [List.length_cons] at short
    have shortRest : ([] : List Item).length + rest.length < n := by
      rw [List.length_nil]
      omega
    cases level : takesAsPower current item with
    | true =>
      have shortPower : (power ++ [item]).length + rest.length < n := by
        rw [List.length_append, List.length_singleton]
        omega
      obtain ⟨levels, nodes, scans⟩ := ih current (power ++ [item]) shortPower bareCurrent
        (barePower.append (List.forall_mem_singleton.mpr bareItem)) bareRest
      exact ⟨levels, nodes, scans.raise level⟩
    | false =>
      rcases apart_or_joined current power item with apart | ⟨rfl, grown, joined⟩
      · obtain ⟨closing, closed, closes⟩ := exists_closes takes (by omega) bareCurrent barePower
        obtain ⟨later, nodes, scans⟩ :=
          ih item.toNode [] shortRest bareItem (List.forall_mem_nil _) bareRest
        exact ⟨_, _, scans.close level apart closes⟩
      · obtain ⟨levels, nodes, scans⟩ :=
          ih grown [] shortRest (power_of_join joined) (List.forall_mem_nil _) bareRest
        exact ⟨levels, nodes, scans.grow level joined⟩

/-- Whether reading a line takes so many levels, and what it comes to. -/
structure Lines (names : List String) (items : List Item) (levels : Nat) (nodes : List Node) :
    Prop where
  runs : ∀ limit depth, lineAt ⟨names, limit⟩ depth items = within levels (limit - depth) nodes
  short : levels ≤ items.length
  nested : levels ≤ Expression.nesting nodes
  keeps : itemsNesting items ≤ Expression.nesting nodes

/-- A line takes the levels of the scan of its items from left to right. -/
theorem Lines.of_scans {first : Item} {rest : List Item} {levels : Nat} {nodes : List Node}
    (sorted : leftToRight items = first :: rest)
    (scans : Scans names first.toNode [] rest levels nodes) : Lines names items levels nodes where
  runs limit depth := by
    rw [lineAt, line, sorted]
    exact scans.runs limit depth fun some => absurd rfl some
  short := by
    have short := scans.short
    rw [List.length_nil] at short
    rw [← (sortByKey_perm _ items).length_eq, ← leftToRight, sorted, List.length_cons]
    omega
  nested := scans.nested
  keeps := by
    rw [← itemsNesting_perm (sortByKey_perm _ items), ← leftToRight, sorted]
    exact Nat.max_le.mpr ⟨scans.keepsCurrent, scans.keepsRest⟩

/-- Reading a line takes some number of levels. -/
theorem exists_lines (takes : TakesBelow names n) (short : items.length ≤ n) (bare : Bare items) :
    ∃ levels nodes, Lines names items levels nodes := by
  have perm : (leftToRight items).Perm items := sortByKey_perm _ items
  cases sorted : leftToRight items with
  | nil =>
    rw [sorted] at perm
    obtain rfl := perm.nil_eq
    exact ⟨0, [], fun _ _ => within_zero.symm, Nat.le_refl _, Nat.le_refl _, Nat.le_refl _⟩
  | cons first rest =>
    rw [sorted] at perm
    have count := perm.length_eq
    rw [List.length_cons] at count
    obtain ⟨bareFirst, bareRest⟩ := List.forall_mem_cons.mp (bare.perm perm.symm)
    have shortRest : ([] : List Item).length + rest.length < n := by
      rw [List.length_nil]
      omega
    obtain ⟨levels, nodes, scans⟩ :=
      exists_scans takes first.toNode [] rest shortRest bareFirst (List.forall_mem_nil _) bareRest
    exact ⟨levels, nodes, .of_scans sorted scans⟩

/-! ## Regions -/

/-- Every region takes some number of levels. -/
theorem exists_takes (names : List String) {items : List Item} (bare : Bare items) :
    ∃ levels e, Takes names items levels e := by
  induction n : items.length using Nat.strongRecOn generalizing items with
  | ind n ih =>
    subst n
    have smaller : TakesBelow names items.length := fun l short bare => ih l.length short bare rfl
    obtain ⟨inRounds, built, resolves⟩ := exists_resolves smaller [] items (Nat.le_refl _) bare
    have notLonger : built.length ≤ items.length := by
      simpa using length_stack_le ((resolves.runs inRounds 0).trans (within_of_le (Nat.le_refl _)))
    obtain ⟨inLine, nodes, lines⟩ := exists_lines smaller notLonger resolves.bare
    have cut : Expression.nesting (cutWords names nodes) = Expression.nesting nodes :=
      baseDepth_cutWords ..
    refine ⟨max inRounds inLine, cutWords names nodes, ?_, ?_, ?_, ?_⟩
    · intro limit depth
      rw [parse_eq, fractionsAt, fractions, resolves.runs]
      refine within_bind ?_
      rw [lines.runs]
      exact within_map (cutWords names)
    · exact Nat.max_le.mpr ⟨resolves.short, Nat.le_trans lines.short notLonger⟩
    · rw [cut]
      exact Nat.max_le.mpr ⟨Nat.le_trans resolves.nested lines.keeps, lines.nested⟩
    · rw [cut]
      exact Nat.le_trans resolves.keeps lines.keeps

/-! ## The levels of a drawing -/

/-- What glyphs are read as if there is room for every exponent. -/
def unlimited (names : List String) (glyphs : List Glyph) : Expression :=
  match parse ⟨names, glyphs.length⟩ 0 (glyphs.map .glyph) with
  | .ok e => e
  | .error _ => []

/-- The lowest limit under which glyphs are read. -/
def levels (names : List String) (glyphs : List Glyph) : Nat :=
  ((List.range glyphs.length).find? fun limit =>
    (parse ⟨names, limit⟩ 0 (glyphs.map .glyph)).isOk).getD glyphs.length

/-- The first of some numbers that is not below a bound is the bound. -/
theorem find?_range_of_le {least n : Nat} (le : least ≤ n) :
    ((List.range n).find? fun limit => decide (least ≤ limit)).getD n = least := by
  rcases Nat.lt_or_eq_of_le le with lt | same
  · have found : (List.range n).find? (fun limit => decide (least ≤ limit)) = some least := by
      rw [List.find?_range_eq_some]
      simp [lt]
    rw [found, Option.getD_some]
  · have none : (List.range n).find? (fun limit => decide (least ≤ limit)) = none := by
      rw [List.find?_range_eq_none]
      intro limit below
      simpa [same] using below
    rw [none, Option.getD_none, same]

/-- The lowest limit under which a drawing is read is the number of levels it takes. -/
theorem takes_levels (names : List String) (glyphs : List Glyph) :
    Takes names (glyphs.map .glyph) (levels names glyphs) (unlimited names glyphs) := by
  obtain ⟨least, e, takes⟩ := exists_takes names (Bare.glyphs glyphs)
  have short : least ≤ glyphs.length := by simpa using takes.short
  have isRead : ∀ limit,
      (parse ⟨names, limit⟩ 0 (glyphs.map .glyph)).isOk = decide (least ≤ limit) := by
    intro limit
    rw [takes.reads, within, Nat.sub_zero]
    split <;> simp_all [Except.isOk, Except.toBool]
  have same : unlimited names glyphs = e := by
    rw [unlimited, takes.reads, within_of_le (by omega)]
  have lowest : levels names glyphs = least := by
    simp only [levels, isRead]
    exact find?_range_of_le short
  rw [same, lowest]
  exact takes

end Region

end PenMath
