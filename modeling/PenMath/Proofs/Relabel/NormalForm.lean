import Mathlib.Data.List.Chain
import Mathlib.Logic.Function.Iterate
import PenMath.Relabel

/-!
# Settled labels are a normal form

The loop of correction rounds stops when a round changes no label, although a round also changes
rectangles. That this is enough rests on `round_eq_or_lt`: a round that changes anything uses up a
label that could still be corrected, so a round that keeps the labels keeps the glyphs
(`round_eq_of_labels`).

The same count bounds the rounds (`rounds_le`). And since the count never rises within a round, a
round that changes nothing is made of two passes that change nothing (`passes_of_round_eq`), from
which it is read off pass by pass that no rule applies anywhere: `isBarUnder_of_bars_eq` for the
strokes under a digit or a letter, `chain_of_pairsAfter_eq` for the neighbours.
-/

namespace PenMath.Relabel

variable {t : Thresholds} {glyphs : List Glyph}

/-! ## The number of rounds -/

/-- How many rounds are run until one changes no label, that one included. -/
def rounds (t : Thresholds) (glyphs : List Glyph) : Nat :=
  if labels (round t glyphs) = labels glyphs then 1 else rounds t (round t glyphs) + 1
termination_by openCount glyphs
decreasing_by
  next changed => exact openCount_round_lt changed

/-- Whether a label may still be corrected follows from the label alone. -/
theorem openCount_eq_of_labels {before after : List Glyph} (h : labels after = labels before) :
    openCount after = openCount before := by
  have count : ∀ l : List Glyph,
      openCount l = (labels l).countP fun c => c = '-' || c = '0' || c = '5' := by
    intro l
    rw [labels, List.countP_map]
    rfl
  rw [count, count, h]

/-- A round that keeps the labels changes nothing. -/
theorem round_eq_of_labels (h : labels (round t glyphs) = labels glyphs) :
    round t glyphs = glyphs := by
  rcases round_eq_or_lt t glyphs with same | less
  · exact same
  · have count := openCount_eq_of_labels h
    omega

/-- There are at most as many rounds as labels to correct, and the one that changes none. -/
theorem rounds_le (t : Thresholds) (glyphs : List Glyph) :
    rounds t glyphs ≤ 1 + openCount glyphs := by
  fun_induction rounds t glyphs with
  | case1 glyphs settled => omega
  | case2 glyphs changed ih =>
    have less := openCount_round_lt changed
    omega

/-- The corrected glyphs are what that many rounds make of the glyphs. -/
theorem settle_eq_iterate (t : Thresholds) (glyphs : List Glyph) :
    settle t glyphs = (round t)^[rounds t glyphs] glyphs := by
  fun_induction rounds t glyphs with
  | case1 glyphs settled =>
    rw [settle, if_pos settled]
    rfl
  | case2 glyphs changed ih =>
    rw [settle, if_neg changed, Function.iterate_succ_apply]
    exact ih

/-! ## Nothing changes any more -/

theorem round_settle (t : Thresholds) (glyphs : List Glyph) :
    round t (settle t glyphs) = settle t glyphs := by
  fun_induction settle t glyphs with
  | case1 glyphs settled =>
    rw [round_eq_of_labels settled]
    exact round_eq_of_labels settled
  | case2 glyphs changed ih => exact ih

/-- A round more at the beginning makes no difference. -/
theorem settle_round (t : Thresholds) (glyphs : List Glyph) :
    settle t (round t glyphs) = settle t glyphs := by
  by_cases settled : labels (round t glyphs) = labels glyphs
  · rw [round_eq_of_labels settled]
  · conv_rhs => rw [settle, if_neg settled]

theorem settle_eq_of_round_eq (h : round t glyphs = glyphs) : settle t glyphs = glyphs := by
  rw [settle, if_pos (congrArg labels h), h]

/-- A round that changes nothing is two passes that change nothing. -/
theorem passes_of_round_eq (h : round t glyphs = glyphs) :
    bars glyphs = glyphs ∧ pairs t glyphs = glyphs := by
  have barsSame : bars glyphs = glyphs := by
    rcases bars_eq_or_lt glyphs with same | less
    · exact same
    · -- the pass over neighbours cannot bring back what the bar pass used up
      exfalso
      have le := openCount_le (pairs_eq_or_lt t (bars glyphs))
      rw [← round, h] at le
      omega
  refine ⟨barsSame, ?_⟩
  rw [round, barsSame] at h
  exact h

/-! ## No rule applies -/

/-- No rule applies to the second of two neighbours. -/
structure IsSettledPair (t : Thresholds) (previous next : Glyph) : Prop where
  /-- Two neighbouring "-" differ in width. -/
  not_similar : previous.label = '-' → next.label = '-' → similarWidths t previous next = false
  /-- A "-" is not too far below its predecessor. -/
  not_dropped : next.label = '-' →
    ¬previous.rect.height * t.fractionDropRatio < next.rect.y - previous.rect.y
  /-- After a letter there is no "0" and no "5". -/
  not_round : previous.kind = .letter → next.label ≠ '0' ∧ next.label ≠ '5'

/-- No rule applies anywhere in a list of glyphs. -/
structure IsNormal (t : Thresholds) (glyphs : List Glyph) : Prop where
  /-- The nearest glyph above a "-" and within its width is neither a digit nor a letter. -/
  no_bar : ∀ g ∈ glyphs, g.label = '-' → ∀ above, Glyph.nearestAbove? glyphs g = some above →
    above.kind ≠ .digit ∧ above.kind ≠ .letter
  /-- No rule applies to two neighbours. -/
  neighbours : glyphs.IsChain (IsSettledPair t)

/-- Where the bar pass changes nothing, there is no bar left to find. -/
theorem isBarUnder_of_bars_eq (h : bars glyphs = glyphs) {g : Glyph} (mem : g ∈ glyphs) :
    g.isBarUnder glyphs = false := by
  have same : (if g.isBarUnder glyphs then g.relabel '/' Kind.isSome_divide else g) = g :=
    List.map_inj_left.mp (h.trans (List.map_id glyphs).symm) g mem
  cases isBar : g.isBarUnder glyphs with
  | false => rfl
  | true =>
    -- a bar that was found has become a "/", and yet it was a "-"
    rw [isBar, if_pos rfl] at same
    have divide : g.label = '/' := by rw [← same, Glyph.label_relabel]
    rw [Glyph.label_of_isBarUnder isBar] at divide
    exact absurd divide (by decide)

/-- A glyph that a correction leaves as it is has not dropped: what has is a "/", which no later
rule turns back into a "-". -/
theorem hasDropped_of_correct_eq {previous next : Glyph}
    (same : afterLetter previous (afterDrop t previous next) = next) :
    hasDropped t previous next = false := by
  cases dropped : hasDropped t previous next with
  | false => rfl
  | true =>
    rw [afterDrop, if_pos dropped] at same
    have divide : next.label = '/' := by
      rw [← same]
      simp [afterLetter]
    rw [label_of_hasDropped dropped] at divide
    exact absurd divide (by decide)

/-- A glyph that the letter before it leaves as it is was not read as a round digit. -/
theorem not_round_of_afterLetter_eq {previous next : Glyph} (letter : previous.kind = .letter)
    (same : afterLetter previous next = next) : next.label ≠ '0' ∧ next.label ≠ '5' := by
  constructor
  · intro zero
    rw [afterLetter, if_pos ⟨letter, zero⟩] at same
    have becomes : next.label = 'O' := by rw [← same, Glyph.label_relabel]
    rw [zero] at becomes
    exact absurd becomes (by decide)
  · intro five
    rw [afterLetter, if_neg (by simp [five]), if_pos ⟨letter, five⟩] at same
    have becomes : next.label = 'S' := by rw [← same, Glyph.label_relabel]
    rw [five] at becomes
    exact absurd becomes (by decide)

/-- No rule applies to a pair whose second glyph a correction leaves as it is. -/
theorem isSettledPair_of_correct_eq {previous next : Glyph}
    (apart : areHalvesOfEquals t previous next = false)
    (same : afterLetter previous (afterDrop t previous next) = next) :
    IsSettledPair t previous next := by
  have notDropped := hasDropped_of_correct_eq same
  rw [afterDrop, notDropped, if_neg Bool.false_ne_true] at same
  refine ⟨?_, ?_, fun letter => not_round_of_afterLetter_eq letter same⟩
  · intro dash dash'
    simpa [areHalvesOfEquals, dash, dash'] using apart
  · intro dash
    simpa [hasDropped, dash] using notDropped

/-- The pass over neighbours makes no glyph. -/
theorem length_pairsAfter_le (t : Thresholds) (previous : Glyph) (rest : List Glyph) :
    (pairsAfter t previous rest).length ≤ rest.length + 1 := by
  induction rest generalizing previous with
  | nil => exact Nat.le_refl _
  | cons next rest ih =>
    rw [pairsAfter]
    split
    next merged _ =>
      have le := ih merged
      rw [List.length_cons]
      omega
    next follower _ =>
      have le := ih follower
      rw [List.length_cons, List.length_cons]
      omega

theorem pairsAfter_ne_nil (previous : Glyph) (rest : List Glyph) :
    pairsAfter t previous rest ≠ [] := by
  induction rest generalizing previous with
  | nil => exact List.cons_ne_nil _ _
  | cons next rest ih =>
    rw [pairsAfter]
    split
    next => exact ih _
    next => exact List.cons_ne_nil _ _

/-- Where the pass over neighbours changes nothing, no rule applies to any of them. -/
theorem chain_of_pairsAfter_eq {previous : Glyph} {rest : List Glyph}
    (h : pairsAfter t previous rest = previous :: rest) :
    (previous :: rest).IsChain (IsSettledPair t) := by
  induction rest generalizing previous with
  | nil => exact .singleton _
  | cons next rest ih =>
    rw [pairsAfter, absorb] at h
    cases halves : areHalvesOfEquals t previous next with
    | true =>
      -- two strokes that went into one leave too few glyphs
      exfalso
      rw [halves] at h
      have short := length_pairsAfter_le t (equalsOf previous next) rest
      have long := congrArg List.length h
      simp only [reduceIte, List.length_cons] at long
      omega
    | false =>
      rw [halves, if_neg Bool.false_ne_true] at h
      have tails := (List.cons.inj h).2
      have same : afterLetter previous (afterDrop t previous next) = next := by
        rcases eq_or_lt_of_closes (correct_eq_or_closes t previous next) rest with same | less
        · exact (List.cons.inj same).1
        · -- a label that was closed is missing in the count of what comes out
          exfalso
          have le := openCount_le
            (pairsAfter_eq_or_lt t (afterLetter previous (afterDrop t previous next)) rest)
          rw [tails] at le
          omega
      rw [same] at tails
      exact .cons_cons (isSettledPair_of_correct_eq halves same) (ih tails)

/-- A list that a round leaves alone has nothing left to correct. -/
theorem isNormal_of_round_eq (h : round t glyphs = glyphs) : IsNormal t glyphs := by
  obtain ⟨barsSame, pairsSame⟩ := passes_of_round_eq h
  refine ⟨?_, ?_⟩
  · intro g mem dash above nearest
    have noBar := isBarUnder_of_bars_eq barsSame mem
    simpa [Glyph.isBarUnder, dash, nearest] using noBar
  · cases glyphs with
    | nil => exact .nil
    | cons g rest => exact chain_of_pairsAfter_eq pairsSame

/-- Correcting labels ends in a normal form: after at most one round more than there are labels to
correct, in glyphs that neither another round nor another correction changes, and to which no rule
applies. -/
theorem settle_isNormal (t : Thresholds) (glyphs : List Glyph) :
    settle t glyphs = (round t)^[rounds t glyphs] glyphs ∧
      rounds t glyphs ≤ 1 + openCount glyphs ∧
      round t (settle t glyphs) = settle t glyphs ∧
      settle t (settle t glyphs) = settle t glyphs ∧
      IsNormal t (settle t glyphs) :=
  ⟨settle_eq_iterate t glyphs, rounds_le t glyphs, round_settle t glyphs,
    settle_eq_of_round_eq (round_settle t glyphs), isNormal_of_round_eq (round_settle t glyphs)⟩

/-- An "=" that reaches up without end has no lower edge, so its gap to the last stroke is no number
and comes before that of the "1". The stroke stays a "-". -/
example : labels (settle .standard [.drawn '-' 0 (-3 * 10 ^ 38) 10 (3 * 10 ^ 38),
    .drawn '-' 0 30 10 1, .drawn '1' 0 20 12 5, .drawn 'A' 100 40 5 5, .drawn '-' 0 40 20 1]) =
    ['=', '1', 'A', '-'] := by decide +kernel

end PenMath.Relabel
