import Mathlib.Data.List.Forall2
import PenMath.Proofs.Relabel.NormalForm

/-!
# Blocks of one or two glyphs

What the corrections make of each glyph. The glyphs drawn fall into blocks, one for each glyph that
comes out: two strokes of similar width become an "=", and a glyph on its own keeps its rectangle
and its label, or has its label corrected.

The first round does all of this but the bars. `Corrects` pairs the blocks with what came of them
and carries, from block to block, whether a letter stands before the next glyph; the pass over
neighbours sees that letter only as it has become, `EndsInLetter` reads it off what was drawn.

After a first round no two neighbours are halves of an "=" and no round digit follows a letter. Both
survive when a "-" becomes a "/" (`IsParted.of_barred`), so this is all a later round can do
(`barred_round`): no glyph is merged any more and no digit is read as a letter.
-/

namespace PenMath.Relabel

variable {t : Thresholds}

/-! ## A letter before a row of round digits -/

/-- Whether a glyph was read as a round digit. -/
def IsRound (g : Glyph) : Prop := g.label = '0' ∨ g.label = '5'

/-- Whether the glyphs drawn end in a letter and, after it, round digits only. -/
def EndsInLetter (drawn : List Glyph) : Prop :=
  ∃ before letter between, drawn = before ++ letter :: between ∧ letter.kind = .letter ∧
    ∀ g ∈ between, IsRound g

theorem not_endsInLetter_nil : ¬EndsInLetter [] := by
  intro h
  obtain ⟨before, letter, between, drawn, -⟩ := h
  simp at drawn

/-- The letter is the last glyph drawn, or a round digit stands between. -/
theorem endsInLetter_concat (drawn : List Glyph) (g : Glyph) :
    EndsInLetter (drawn ++ [g]) ↔ g.kind = .letter ∨ IsRound g ∧ EndsInLetter drawn := by
  constructor
  · intro h
    obtain ⟨before, letter, between, eq, isLetter, round⟩ := h
    rcases List.eq_nil_or_concat between with rfl | ⟨between, last, rfl⟩
    · -- the letter is the last glyph
      left
      have last := List.append_inj_right' eq rfl
      rw [(List.cons.inj last).1]
      exact isLetter
    · -- the last glyph is one of the round digits after it
      right
      rw [List.concat_eq_append, ← List.cons_append, ← List.append_assoc] at eq
      obtain ⟨same, same'⟩ := List.append_inj' eq rfl
      cases same'
      rw [List.concat_eq_append] at round
      refine ⟨round g (by simp), before, letter, between, same, isLetter, ?_⟩
      intro other mem
      exact round other (by simp [mem])
  · intro h
    rcases h with isLetter | ⟨isRound, before, letter, between, rfl, isLetter, round⟩
    · refine ⟨drawn, g, [], rfl, isLetter, ?_⟩
      intro other mem
      cases mem
    · refine ⟨before, letter, between ++ [g], by simp, isLetter, ?_⟩
      intro other mem
      rcases List.mem_append.mp mem with mem | mem
      · exact round other mem
      · rw [List.mem_singleton.mp mem]
        exact isRound

theorem not_endsInLetter_of_dash {drawn : List Glyph} {g : Glyph} (dash : g.label = '-') :
    ¬EndsInLetter (drawn ++ [g]) := by
  rw [endsInLetter_concat, g.kind_of_label dash rfl, IsRound, dash]
  simp

/-- A round digit goes on with what was drawn before it. -/
theorem endsInLetter_concat_of_isRound {drawn : List Glyph} {g : Glyph} (round : IsRound g) :
    EndsInLetter (drawn ++ [g]) ↔ EndsInLetter drawn := by
  have digit : g.kind = .digit := by
    rcases round with zero | five
    · exact g.kind_of_label zero rfl
    · exact g.kind_of_label five rfl
  rw [endsInLetter_concat, digit]
  simp [round]

/-! ## What one glyph may become -/

/-- The second glyph is the first or, where the first is a stroke, a bar in its place. -/
inductive Barred : Glyph → Glyph → Prop
  | kept (g : Glyph) : Barred g g
  | bar {g : Glyph} (dash : g.label = '-') : Barred g (g.relabel '/' Kind.isSome_divide)

theorem Barred.rect_eq {g g' : Glyph} (h : Barred g g') : g'.rect = g.rect := by
  cases h with
  | kept => rfl
  | bar dash => rfl

theorem Barred.kind_eq {g g' : Glyph} (h : Barred g g') : g'.kind = g.kind := by
  cases h with
  | kept => rfl
  | bar dash => rw [g.kind_of_label dash rfl]; rfl

/-- A label other than "/" was there before. -/
theorem Barred.eq_of_ne {g g' : Glyph} (h : Barred g g') (other : g'.label ≠ '/') : g' = g := by
  cases h with
  | kept => rfl
  | bar dash => exact absurd rfl other

theorem Barred.trans {g g' g'' : Glyph} (h : Barred g g') (h' : Barred g' g'') :
    Barred g g'' := by
  cases h' with
  | kept => exact h
  | bar dash =>
    have same := h.eq_of_ne (by rw [dash]; decide)
    rw [same] at dash ⊢
    exact .bar dash

theorem forall₂_barred_bars (glyphs : List Glyph) :
    List.Forall₂ Barred glyphs (bars glyphs) := by
  rw [bars, List.forall₂_map_right_iff, List.forall₂_same]
  intro g mem
  split
  next isBar => exact .bar (Glyph.label_of_isBarUnder isBar)
  next => exact .kept g

/-- What a block of one or two glyphs may become. -/
inductive Becomes (t : Thresholds) : List Glyph → Glyph → Prop
  | kept (g : Glyph) : Becomes t [g] g
  | bar {g : Glyph} (dash : g.label = '-') : Becomes t [g] (g.relabel '/' Kind.isSome_divide)
  | letterO {g : Glyph} (zero : g.label = '0') : Becomes t [g] (g.relabel 'O' Kind.isSome_O)
  | letterS {g : Glyph} (five : g.label = '5') : Becomes t [g] (g.relabel 'S' Kind.isSome_S)
  | equals {g h : Glyph} (dash : g.label = '-') (dash' : h.label = '-')
      (similar : similarWidths t g h = true) : Becomes t [g, h] (equalsOf g h)

theorem Barred.becomes {g g' : Glyph} (h : Barred g g') : Becomes t [g] g' := by
  cases h with
  | kept => exact .kept g
  | bar dash => exact .bar dash

/-- What is still a stroke is its whole block. -/
theorem Becomes.block_of_dash {block : List Glyph} {g : Glyph} (h : Becomes t block g)
    (dash : g.label = '-') : block = [g] := by
  cases h with
  | kept => rfl
  | bar => exact absurd dash (by simp)
  | letterO => exact absurd dash (by simp)
  | letterS => exact absurd dash (by simp)
  | equals => exact absurd dash (by simp [equalsOf])

theorem Becomes.barred {block : List Glyph} {g g' : Glyph} (h : Becomes t block g)
    (barred : Barred g g') : Becomes t block g' := by
  cases barred with
  | kept => exact h
  | bar dash =>
    rw [h.block_of_dash dash]
    exact .bar dash

/-- A round digit on its own has become a letter or is still what it was. -/
theorem Becomes.label_eq_iff_of_isRound {g after : Glyph} (h : Becomes t [g] after) :
    (g.label = '0' → (after.label = 'O' ↔ after.kind = .letter)) ∧
      (g.label = '5' → (after.label = 'S' ↔ after.kind = .letter)) := by
  refine ⟨?_, ?_⟩
  · intro zero
    cases h with
    | kept => simp [zero, g.kind_of_label zero rfl]
    | bar dash => exact absurd (zero.symm.trans dash) (by decide)
    | letterO => exact ⟨fun _ => rfl, fun _ => rfl⟩
    | letterS five => exact absurd (zero.symm.trans five) (by decide)
  · intro five
    cases h with
    | kept => simp [five, g.kind_of_label five rfl]
    | bar dash => exact absurd (five.symm.trans dash) (by decide)
    | letterO zero => exact absurd (five.symm.trans zero) (by decide)
    | letterS => exact ⟨fun _ => rfl, fun _ => rfl⟩

/-! ## The first round -/

/-- What the second of two neighbours becomes, by the rule that applies. -/
theorem follower_cases (t : Thresholds) (previous : Glyph) {next next' : Glyph}
    (barred : Barred next next') :
    (Barred next (afterLetter previous (afterDrop t previous next')) ∧
      (previous.kind = .letter → ¬IsRound next)) ∨
    (previous.kind = .letter ∧ next.label = '0' ∧
      afterLetter previous (afterDrop t previous next') = next.relabel 'O' Kind.isSome_O) ∨
    (previous.kind = .letter ∧ next.label = '5' ∧
      afterLetter previous (afterDrop t previous next') = next.relabel 'S' Kind.isSome_S) := by
  have dropped : Barred next (afterDrop t previous next') := by
    unfold afterDrop
    split
    next drop => exact barred.trans (.bar (label_of_hasDropped drop))
    next => exact barred
  generalize afterDrop t previous next' = bar at dropped
  unfold afterLetter
  split
  next zero =>
    have same := dropped.eq_of_ne (by rw [zero.2]; decide)
    rw [same] at zero ⊢
    exact .inr (.inl ⟨zero.1, zero.2, rfl⟩)
  next notZero =>
    split
    next five =>
      have same := dropped.eq_of_ne (by rw [five.2]; decide)
      rw [same] at five ⊢
      exact .inr (.inr ⟨five.1, five.2, rfl⟩)
    next notFive =>
      refine .inl ⟨dropped, ?_⟩
      intro letter round
      -- a round digit is no stroke, so it has not dropped and a rule would have applied
      cases dropped with
      | kept =>
        rcases round with zero | five
        · exact notZero ⟨letter, zero⟩
        · exact notFive ⟨letter, five⟩
      | bar dash => simp [IsRound, dash] at round

/-- A glyph after a letter becomes what the two rules in turn make of it. -/
theorem becomes_follower (t : Thresholds) (previous : Glyph) {next next' : Glyph}
    (barred : Barred next next') :
    Becomes t [next] (afterLetter previous (afterDrop t previous next')) := by
  rcases follower_cases t previous barred with ⟨found, -⟩ | ⟨-, zero, eq⟩ | ⟨-, five, eq⟩
  · exact found.becomes
  · rw [eq]
    exact .letterO zero
  · rw [eq]
    exact .letterS five

/-- The second of two neighbours is a letter where it was drawn as one, or after a letter. -/
theorem kind_follower (t : Thresholds) {previous next next' : Glyph} {drawn : List Glyph}
    (letter : previous.kind = .letter ↔ EndsInLetter drawn) (barred : Barred next next') :
    (afterLetter previous (afterDrop t previous next')).kind = .letter ↔
      EndsInLetter (drawn ++ [next]) := by
  rcases follower_cases t previous barred with
    ⟨found, notRound⟩ | ⟨after, zero, eq⟩ | ⟨after, five, eq⟩
  · rw [found.kind_eq, endsInLetter_concat, ← letter]
    constructor
    · exact .inl
    · intro h
      rcases h with isLetter | ⟨round, after⟩
      · exact isLetter
      · exact absurd round (notRound after)
  · rw [eq, endsInLetter_concat_of_isRound (.inl zero), ← letter]
    exact ⟨fun _ => after, fun _ => rfl⟩
  · rw [eq, endsInLetter_concat_of_isRound (.inr five), ← letter]
    exact ⟨fun _ => after, fun _ => rfl⟩

/-- Blocks and what has become of them, after glyphs drawn before them. -/
inductive Corrects (t : Thresholds) : List Glyph → List (List Glyph) → List Glyph → Prop
  | nil (drawn : List Glyph) : Corrects t drawn [] []
  | cons {drawn block : List Glyph} {after : Glyph} {blocks : List (List Glyph)}
      {out : List Glyph} (becomes : Becomes t block after)
      (letter : after.kind = .letter ↔ EndsInLetter (drawn ++ block))
      (rest : Corrects t (drawn ++ block) blocks out) :
      Corrects t drawn (block :: blocks) (after :: out)

/-- The pass over neighbours from a glyph that has become of its block. -/
theorem corrects_pairsAfter {rest rest' : List Glyph} (barred : List.Forall₂ Barred rest rest')
    {drawn block : List Glyph} {previous : Glyph} (becomes : Becomes t block previous)
    (letter : previous.kind = .letter ↔ EndsInLetter (drawn ++ block)) :
    ∃ blocks, blocks.flatten = block ++ rest ∧
      Corrects t drawn blocks (pairsAfter t previous rest') := by
  induction barred generalizing drawn block previous with
  | nil => exact ⟨[block], by simp, .cons becomes letter (.nil _)⟩
  | @cons next next' rest rest' nextBarred barred ih =>
    rw [pairsAfter, absorb]
    cases halves : areHalvesOfEquals t previous next' with
    | true =>
      -- both are strokes still, so they were drawn as they stand
      simp only [areHalvesOfEquals, Bool.and_eq_true, decide_eq_true_eq] at halves
      obtain ⟨⟨dash, dash'⟩, similar⟩ := halves
      have same := nextBarred.eq_of_ne (by rw [dash']; decide)
      rw [same] at dash' similar ⊢
      rw [becomes.block_of_dash dash]
      have noLetter : (equalsOf previous next).kind = .letter ↔
          EndsInLetter (drawn ++ [previous, next]) := by
        have ends : ¬EndsInLetter ((drawn ++ [previous]) ++ [next]) :=
          not_endsInLetter_of_dash dash'
        rw [List.append_assoc] at ends
        have operator : (equalsOf previous next).kind = .operator := rfl
        rw [operator]
        exact ⟨fun h => absurd h (by decide), fun h => absurd h ends⟩
      obtain ⟨blocks, flat, corrects⟩ := ih (.equals dash dash' similar) noLetter
      exact ⟨blocks, by rw [flat]; rfl, corrects⟩
    | false =>
      obtain ⟨blocks, flat, corrects⟩ :=
        ih (becomes_follower t previous nextBarred) (kind_follower t letter nextBarred)
      exact ⟨block :: blocks, by simp [flat], .cons becomes letter corrects⟩

/-- A round corrects blocks of one glyph or of two strokes. -/
theorem corrects_round (t : Thresholds) (glyphs : List Glyph) :
    ∃ blocks, blocks.flatten = glyphs ∧ Corrects t [] blocks (round t glyphs) := by
  have barred := forall₂_barred_bars glyphs
  unfold round
  generalize bars glyphs = glyphs' at barred
  cases barred with
  | nil => exact ⟨[], rfl, .nil _⟩
  | @cons g g' rest rest' barred tail =>
    have letter : g'.kind = .letter ↔ EndsInLetter ([] ++ [g]) := by
      rw [barred.kind_eq, endsInLetter_concat]
      simp [not_endsInLetter_nil]
    exact corrects_pairsAfter tail barred.becomes letter

/-! ## The later rounds -/

/-- Whether the pass over neighbours has nothing to merge and no digit to read as a letter. -/
structure IsParted (t : Thresholds) (previous next : Glyph) : Prop where
  apart : areHalvesOfEquals t previous next = false
  not_round : previous.kind = .letter → ¬IsRound next

/-- A bar is no half of an "=", and neither a letter nor a round digit. -/
theorem IsParted.of_barred {previous previous' next next' : Glyph} (h : IsParted t previous next)
    (barred : Barred previous previous') (barred' : Barred next next') :
    IsParted t previous' next' := by
  refine ⟨?_, ?_⟩
  · by_cases divide : previous'.label = '/' ∨ next'.label = '/'
    · rcases divide with divide | divide <;> simp [areHalvesOfEquals, divide]
    · obtain ⟨other, other'⟩ := not_or.mp divide
      rw [barred.eq_of_ne other, barred'.eq_of_ne other']
      exact h.apart
  · intro letter round
    rw [barred.kind_eq] at letter
    have other : next'.label ≠ '/' := by
      rcases round with zero | five
      · rw [zero]; decide
      · rw [five]; decide
    rw [barred'.eq_of_ne other] at round
    exact h.not_round letter round

/-- Neighbours that are parted stay so, whichever strokes become bars. -/
theorem isChain_of_barred {glyphs glyphs' : List Glyph} (chain : glyphs.IsChain (IsParted t))
    (barred : List.Forall₂ Barred glyphs glyphs') : glyphs'.IsChain (IsParted t) := by
  induction barred with
  | nil => exact .nil
  | cons first tail ih =>
    cases tail with
    | nil => exact .singleton _
    | cons second tail =>
      rw [List.isChain_cons_cons] at chain
      exact .cons_cons (chain.1.of_barred first second) (ih chain.2)

/-- A round digit that would follow a letter has become a letter. -/
theorem isParted_follower {previous next : Glyph}
    (apart : areHalvesOfEquals t previous next = false) :
    IsParted t previous (afterLetter previous (afterDrop t previous next)) := by
  rcases follower_cases t previous (.kept next) with ⟨found, notRound⟩ | ⟨-, -, eq⟩ | ⟨-, -, eq⟩
  · exact IsParted.of_barred ⟨apart, notRound⟩ (.kept previous) found
  · rw [eq]
    exact ⟨by simp [areHalvesOfEquals], fun _ round => by simp [IsRound] at round⟩
  · rw [eq]
    exact ⟨by simp [areHalvesOfEquals], fun _ round => by simp [IsRound] at round⟩

/-- The pass leaves its neighbours parted, also from a glyph before the first if that was parted
from it. -/
theorem isChain_pairsAfter (previous : Glyph) (rest : List Glyph) :
    (pairsAfter t previous rest).IsChain (IsParted t) ∧
      ∀ before, IsParted t before previous →
        (before :: pairsAfter t previous rest).IsChain (IsParted t) := by
  induction rest generalizing previous with
  | nil => exact ⟨.singleton _, fun before parted => .cons_cons parted (.singleton _)⟩
  | cons next rest ih =>
    rw [pairsAfter, absorb]
    cases halves : areHalvesOfEquals t previous next with
    | true =>
      obtain ⟨chain, head⟩ := ih (equalsOf previous next)
      refine ⟨chain, ?_⟩
      intro before parted
      exact head before ⟨by simp [areHalvesOfEquals, equalsOf],
        fun _ round => by simp [IsRound, equalsOf] at round⟩
    | false =>
      have chain := (ih _).2 previous (isParted_follower halves)
      exact ⟨chain, fun before parted => .cons_cons parted chain⟩

theorem isChain_round (t : Thresholds) (glyphs : List Glyph) :
    (round t glyphs).IsChain (IsParted t) := by
  unfold round
  cases bars glyphs with
  | nil => exact .nil
  | cons g rest => exact (isChain_pairsAfter g rest).1

/-- Over parted neighbours the pass finds bars only. -/
theorem barred_pairsAfter {previous : Glyph} {rest : List Glyph}
    (chain : (previous :: rest).IsChain (IsParted t)) :
    List.Forall₂ Barred (previous :: rest) (pairsAfter t previous rest) := by
  induction rest generalizing previous with
  | nil => exact .cons (.kept previous) .nil
  | cons next rest ih =>
    rw [List.isChain_cons_cons] at chain
    obtain ⟨parted, chain⟩ := chain
    have barred : Barred next (afterLetter previous (afterDrop t previous next)) := by
      rcases follower_cases t previous (.kept next) with
        ⟨found, -⟩ | ⟨letter, zero, -⟩ | ⟨letter, five, -⟩
      · exact found
      · exact absurd (.inl zero) (parted.not_round letter)
      · exact absurd (.inr five) (parted.not_round letter)
    rw [pairsAfter, absorb, parted.apart, if_neg Bool.false_ne_true]
    refine .cons (.kept previous) ?_
    have same : List.Forall₂ Barred rest rest := List.forall₂_same.mpr fun g _ => .kept g
    obtain ⟨first, out, head, tail, eq⟩ :=
      List.forall₂_cons_left_iff.mp (ih (isChain_of_barred chain (.cons barred same)))
    show List.Forall₂ Barred (next :: rest) (pairsAfter t _ rest)
    rw [eq]
    exact .cons (barred.trans head) tail

theorem map_rect_of_barred {l l' : List Glyph} (h : List.Forall₂ Barred l l') :
    l'.map (·.rect) = l.map (·.rect) := by
  induction h with
  | nil => rfl
  | cons head tail ih => rw [List.map_cons, List.map_cons, head.rect_eq, ih]

theorem forall₂_barred_trans {l l' l'' : List Glyph} (h : List.Forall₂ Barred l l')
    (h' : List.Forall₂ Barred l' l'') : List.Forall₂ Barred l l'' := by
  induction h generalizing l'' with
  | nil => exact h'
  | cons head tail ih =>
    cases h' with
    | cons head' tail' => exact .cons (head.trans head') (ih tail')

/-- A round over parted neighbours finds bars only. -/
theorem barred_round {glyphs : List Glyph} (chain : glyphs.IsChain (IsParted t)) :
    List.Forall₂ Barred glyphs (round t glyphs) := by
  have barred := forall₂_barred_bars glyphs
  have chain' := isChain_of_barred chain barred
  unfold round
  cases glyphs' : bars glyphs with
  | nil =>
    rw [glyphs'] at barred
    exact barred
  | cons g rest =>
    rw [glyphs'] at barred chain'
    exact forall₂_barred_trans barred (barred_pairsAfter chain')

/-- After the first round the others find bars only. -/
theorem barred_iterate (t : Thresholds) (glyphs : List Glyph) (n : Nat) :
    List.Forall₂ Barred (round t glyphs) ((round t)^[n + 1] glyphs) := by
  induction n with
  | zero => exact List.forall₂_same.mpr fun g _ => .kept g
  | succ n ih =>
    rw [Function.iterate_succ_apply']
    exact forall₂_barred_trans ih (barred_round (isChain_of_barred (isChain_round t glyphs) ih))

/-- What a later round makes of a block it might have been from the beginning. -/
theorem Corrects.barred {drawn : List Glyph} {blocks : List (List Glyph)} {out out' : List Glyph}
    (h : Corrects t drawn blocks out) (barred : List.Forall₂ Barred out out') :
    Corrects t drawn blocks out' := by
  induction h generalizing out' with
  | nil drawn =>
    cases barred
    exact .nil drawn
  | cons becomes letter rest ih =>
    cases barred with
    | cons head tail =>
      exact .cons (becomes.barred head) (by rw [head.kind_eq]; exact letter) (ih tail)

/-- Settling takes one round at least. -/
theorem exists_settle_eq (t : Thresholds) (glyphs : List Glyph) :
    ∃ n, settle t glyphs = (round t)^[n + 1] glyphs := by
  rw [settle_eq_iterate, rounds]
  split
  · exact ⟨0, rfl⟩
  · exact ⟨_, rfl⟩

theorem corrects_settle (t : Thresholds) (glyphs : List Glyph) :
    ∃ blocks, blocks.flatten = glyphs ∧ Corrects t [] blocks (settle t glyphs) := by
  obtain ⟨blocks, flat, corrects⟩ := corrects_round t glyphs
  obtain ⟨n, settled⟩ := exists_settle_eq t glyphs
  rw [settled]
  exact ⟨blocks, flat, corrects.barred (barred_iterate t glyphs n)⟩

/-! ## What the corrections do -/

theorem Corrects.forall₂ {drawn : List Glyph} {blocks : List (List Glyph)} {out : List Glyph}
    (h : Corrects t drawn blocks out) : List.Forall₂ (Becomes t) blocks out := by
  induction h with
  | nil => exact .nil
  | cons becomes letter rest ih => exact .cons becomes ih

/-- What has become of one block among the others, and whether it is a letter. -/
theorem Corrects.getElem? {drawn : List Glyph} {front back : List (List Glyph)}
    {block out : List Glyph} (h : Corrects t drawn (front ++ block :: back) out) :
    ∃ after, out[front.length]? = some after ∧ Becomes t block after ∧
      (after.kind = .letter ↔ EndsInLetter (drawn ++ front.flatten ++ block)) := by
  induction front generalizing drawn out with
  | nil =>
    cases h with
    | @cons _ _ after _ _ becomes letter rest => exact ⟨after, rfl, becomes, by simpa using letter⟩
  | cons first front ih =>
    cases h with
    | cons becomes letter rest =>
      obtain ⟨after, found, becomes, letter⟩ := ih rest
      exact ⟨after, found, becomes, by simpa using letter⟩

/-- The corrections do what their rules allow and nothing else. The glyphs fall into blocks of one
or two, one for each glyph that comes out: two strokes of similar width are an "=" around both, and
one glyph keeps its rectangle and its label or is a "/" for "-", an "O" for "0", an "S" for "5". Of
these a digit is a letter exactly where the glyphs before it end in a letter and round digits after
that, however they lie. Kinds go with labels, and no round after the first merges anything. -/
theorem settle_blocks (t : Thresholds) (glyphs : List Glyph) :
    (∃ blocks, blocks.flatten = glyphs ∧ List.Forall₂ (Becomes t) blocks (settle t glyphs) ∧
      ∀ front g back, blocks = front ++ [g] :: back →
        ∃ after, (settle t glyphs)[front.length]? = some after ∧
          (g.label = '0' → (after.label = 'O' ↔ EndsInLetter front.flatten)) ∧
          (g.label = '5' → (after.label = 'S' ↔ EndsInLetter front.flatten))) ∧
      (∀ g ∈ settle t glyphs, Kind.ofLabel? g.label = some g.kind) ∧
      (∃ n, settle t glyphs = (round t)^[n + 1] glyphs) ∧
      ∀ n, ((round t)^[n + 1] glyphs).map (·.rect) = (round t glyphs).map (·.rect) := by
  refine ⟨?_, fun g _ => g.ofLabel?_label, exists_settle_eq t glyphs, ?_⟩
  · obtain ⟨blocks, flat, corrects⟩ := corrects_settle t glyphs
    refine ⟨blocks, flat, corrects.forall₂, ?_⟩
    intro front g back eq
    rw [eq] at corrects
    obtain ⟨after, found, becomes, letter⟩ := corrects.getElem?
    rw [List.nil_append] at letter
    obtain ⟨zeroRead, fiveRead⟩ := becomes.label_eq_iff_of_isRound
    refine ⟨after, found, ?_, ?_⟩
    · intro zero
      rw [zeroRead zero, letter, endsInLetter_concat_of_isRound (.inl zero)]
    · intro five
      rw [fiveRead five, letter, endsInLetter_concat_of_isRound (.inr five)]
  · intro n
    exact map_rect_of_barred (barred_iterate t glyphs n)

/-- A row of round digits goes on with the letter before it, and stops at a sign. -/
example : labels (settle .standard [.drawn 'C' 0 50 8 12, .drawn '0' 10 50 8 12,
    .drawn '5' 20 50 8 12, .drawn '+' 30 50 8 8, .drawn '0' 40 50 8 12]) =
    ['C', 'O', 'S', '+', '0'] := by decide +kernel

end PenMath.Relabel
