import PenMath.Proofs.Relabel.Blocks

/-!
# Strokes judged one by one

The bar pass judges all strokes at once, on the labels as they stood before it. Judging them one
after the other, each on the labels as they have become by then, ends in the same glyphs, whatever
the order of the places.

A stroke is judged by where the glyphs lie and by the kind of the nearest one above it. A bar found
on the way changes neither: "-" and "/" are both operators and the rectangle stays. So a stroke is
judged alike on any two lists that differ by such bars only (`asBar_of_barred`), and after any
visits, repeated ones included, the places visited hold what the whole pass makes of them and the
others what they held before (`foldl_barAt`). A second pass is a second visit of every place.
-/

namespace PenMath

/-- Elements with the same keys in two lists: the first ones with the smallest key correspond. -/
theorem rel_firstLeast? {α β : Type} {R : α → β → Prop} {key : α → Int} {key' : β → Int}
    (keys : ∀ a b, R a b → key a = key' b) {l : List α} {l' : List β} (h : List.Forall₂ R l l') :
    Option.Rel R (firstLeast? key l) (firstLeast? key' l') := by
  induction h with
  | nil => exact .none
  | @cons a b rest rest' first _ ih =>
    unfold firstLeast?
    generalize firstLeast? key rest = least at ih ⊢
    generalize firstLeast? key' rest' = least' at ih ⊢
    cases ih with
    | none => exact .some first
    | @some c d later =>
      dsimp only
      rw [keys a b first, keys c d later]
      split
      · exact .some first
      · exact .some later

namespace Relabel

variable {glyphs glyphs' : List Glyph}

/-! ## A stroke among glyphs of which some have become bars -/

/-- A glyph keeps its rectangle and its kind, and of the labels only "-" changes. -/
theorem Barred.keeps {g g' : Glyph} (h : Barred g g') :
    g'.rect = g.rect ∧ g'.kind = g.kind ∧
      (g'.label = g.label ∨ g.label = '-' ∧ g'.label = '/') := by
  refine ⟨h.rect_eq, h.kind_eq, ?_⟩
  cases h with
  | kept => exact .inl rfl
  | bar dash => exact .inr ⟨dash, rfl⟩

/-- What is nearest above does not depend on which strokes are bars already. -/
theorem rel_nearestAbove? (barred : List.Forall₂ Barred glyphs glyphs') (bar : Glyph) :
    Option.Rel Barred (Glyph.nearestAbove? glyphs bar) (Glyph.nearestAbove? glyphs' bar) := by
  unfold Glyph.nearestAbove?
  apply rel_firstLeast?
  · intro g g' h
    rw [Glyph.gapBelow, Glyph.gapBelow, h.rect_eq]
  · refine List.rel_filter ?_ barred
    intro g g' h
    have same : g'.isAbove bar = g.isAbove bar := by
      unfold Glyph.isAbove
      rw [h.rect_eq]
    exact Bool.coe_iff_coe.mpr same.symm

/-- Bars found among the others make no difference to whether a glyph is one. -/
theorem isBarUnder_of_barred (barred : List.Forall₂ Barred glyphs glyphs') (g : Glyph) :
    g.isBarUnder glyphs' = g.isBarUnder glyphs := by
  have nearest := rel_nearestAbove? barred g
  unfold Glyph.isBarUnder
  generalize Glyph.nearestAbove? glyphs g = above at nearest ⊢
  generalize Glyph.nearestAbove? glyphs' g = above' at nearest ⊢
  cases nearest with
  | none => rfl
  | some became => simp only [Option.any_some, became.kind_eq]

/-! ## Visits -/

/-- What becomes of a glyph judged among others. -/
def asBar (glyphs : List Glyph) (g : Glyph) : Glyph :=
  if g.isBarUnder glyphs then g.relabel '/' Kind.isSome_divide else g

/-- The glyphs after the one at a place has been judged on the labels as they stand. -/
def barAt (glyphs : List Glyph) (place : Nat) : List Glyph := glyphs.modify place (asBar glyphs)

theorem bars_eq_map (glyphs : List Glyph) : bars glyphs = glyphs.map (asBar glyphs) := rfl

theorem asBar_of_barred (barred : List.Forall₂ Barred glyphs glyphs') (g : Glyph) :
    asBar glyphs' g = asBar glyphs g := by
  rw [asBar, asBar, isBarUnder_of_barred barred]

/-- A bar is no stroke any more, so judging it again changes nothing. -/
theorem asBar_asBar (glyphs : List Glyph) (g : Glyph) :
    asBar glyphs (asBar glyphs g) = asBar glyphs g := by
  by_cases isBar : g.isBarUnder glyphs = true
  · have bar : asBar glyphs g = g.relabel '/' Kind.isSome_divide := if_pos isBar
    rw [bar]
    exact if_neg (by simp [Glyph.isBarUnder])
  · have kept : asBar glyphs g = g := if_neg isBar
    rw [kept, kept]

theorem barred_asBar {g : Glyph} (mem : g ∈ glyphs) : Barred g (asBar glyphs g) := by
  have barred := forall₂_barred_bars glyphs
  rw [bars_eq_map, List.forall₂_map_right_iff, List.forall₂_same] at barred
  exact barred g mem

/-- The glyphs with what the bar pass makes of those at some places. -/
def barsAt (places : List Nat) (glyphs : List Glyph) : List Glyph :=
  glyphs.mapIdx fun place g => if place ∈ places then asBar glyphs g else g

theorem getElem?_barsAt (places : List Nat) (glyphs : List Glyph) (place : Nat) :
    (barsAt places glyphs)[place]? =
      glyphs[place]?.map fun g => if place ∈ places then asBar glyphs g else g :=
  List.getElem?_mapIdx

theorem barsAt_nil (glyphs : List Glyph) : barsAt [] glyphs = glyphs := by
  apply List.ext_getElem?
  intro place
  simp [getElem?_barsAt]

/-- Visiting every place, in any order, is the whole pass. -/
theorem barsAt_of_all {places : List Nat} (all : ∀ place < glyphs.length, place ∈ places) :
    barsAt places glyphs = bars glyphs := by
  apply List.ext_getElem?
  intro place
  rw [getElem?_barsAt, bars_eq_map, List.getElem?_map]
  by_cases inside : place < glyphs.length
  · simp only [all place inside, if_true]
  · rw [List.getElem?_eq_none (Nat.le_of_not_lt inside)]
    rfl

/-- A partial pass only turns strokes into bars. -/
theorem forall₂_barred_barsAt (places : List Nat) (glyphs : List Glyph) :
    List.Forall₂ Barred glyphs (barsAt places glyphs) := by
  rw [List.forall₂_iff_get]
  refine ⟨by simp [barsAt], ?_⟩
  intro place inside inside'
  simp only [List.get_eq_getElem, barsAt, List.getElem_mapIdx]
  split
  · exact barred_asBar (List.getElem_mem inside)
  · exact .kept _

/-- One visit more. -/
theorem barAt_barsAt (places : List Nat) (glyphs : List Glyph) (place : Nat) :
    barAt (barsAt places glyphs) place = barsAt (places ++ [place]) glyphs := by
  apply List.ext_getElem?
  intro other
  rw [barAt, List.getElem?_modify, getElem?_barsAt, getElem?_barsAt]
  cases glyphs[other]? with
  | none => rfl
  | some g =>
    by_cases here : place = other
    · -- the glyph here is judged anew, or for the second time
      have judged : asBar (barsAt places glyphs) (if other ∈ places then asBar glyphs g else g) =
          asBar glyphs g := by
        rw [asBar_of_barred (forall₂_barred_barsAt places glyphs)]
        split
        · exact asBar_asBar glyphs g
        · rfl
      simp [here, judged]
    · have elsewhere : other ≠ place := fun same => here same.symm
      simp [here, elsewhere]

/-- Visits after others. -/
theorem foldl_barAt_barsAt (places visits : List Nat) (glyphs : List Glyph) :
    visits.foldl barAt (barsAt places glyphs) = barsAt (places ++ visits) glyphs := by
  induction visits generalizing places with
  | nil => rw [List.append_nil]; rfl
  | cons place visits ih => rw [List.foldl_cons, barAt_barsAt, ih, List.append_assoc]; rfl

/-- Any number of visits. -/
theorem foldl_barAt (visits : List Nat) (glyphs : List Glyph) :
    visits.foldl barAt glyphs = barsAt visits glyphs := by
  have walk := foldl_barAt_barsAt [] visits glyphs
  rw [barsAt_nil, List.nil_append] at walk
  exact walk

theorem foldl_barAt_of_all {order : List Nat} (all : ∀ place < glyphs.length, place ∈ order) :
    order.foldl barAt glyphs = bars glyphs := by
  rw [foldl_barAt, barsAt_of_all all]

/-- A second pass finds nothing new. -/
theorem bars_bars (glyphs : List Glyph) : bars (bars glyphs) = bars glyphs := by
  have all : ∀ place < glyphs.length, place ∈ List.range glyphs.length := by
    intro place inside
    exact List.mem_range.mpr inside
  have all' : ∀ place < (bars glyphs).length, place ∈ List.range glyphs.length := by
    rw [length_bars]
    exact all
  -- two passes are one walk that comes to every place twice
  calc bars (bars glyphs)
      = (List.range glyphs.length).foldl barAt (bars glyphs) := (foldl_barAt_of_all all').symm
    _ = (List.range glyphs.length ++ List.range glyphs.length).foldl barAt glyphs := by
        rw [List.foldl_append, foldl_barAt_of_all all]
    _ = bars glyphs := by
        apply foldl_barAt_of_all
        intro place inside
        exact List.mem_append_left _ (all place inside)

/-! ## Any order -/

/-- Judging all strokes at once and judging them one by one, in any order and each on the labels as
they stand by then, end in the same glyphs; and after some of the visits the places visited already
hold what they will hold in the end, the others what they held before. So a second pass changes
nothing. A pass keeps number, rectangles and kinds, and changes no label but "-". -/
theorem bars_one_by_one (glyphs : List Glyph) :
    (∀ order : List Nat, order.Perm (List.range glyphs.length) →
      order.foldl barAt glyphs = bars glyphs) ∧
    (∀ (visits : List Nat) (place : Nat), (visits.foldl barAt glyphs)[place]? =
      if place ∈ visits then (bars glyphs)[place]? else glyphs[place]?) ∧
    bars (bars glyphs) = bars glyphs ∧
    (bars glyphs).length = glyphs.length ∧
    List.Forall₂ (fun g g' => g'.rect = g.rect ∧ g'.kind = g.kind ∧
      (g'.label = g.label ∨ g.label = '-' ∧ g'.label = '/')) glyphs (bars glyphs) := by
  refine ⟨?_, ?_, bars_bars glyphs, length_bars glyphs, ?_⟩
  · intro order perm
    apply foldl_barAt_of_all
    intro place inside
    exact perm.mem_iff.mpr (List.mem_range.mpr inside)
  · intro visits place
    rw [foldl_barAt, getElem?_barsAt, bars_eq_map, List.getElem?_map]
    split
    · rfl
    · exact congrFun Option.map_id _
  · exact (forall₂_barred_bars glyphs).imp fun _ _ => Barred.keeps

/-- Three strokes under each other and two symbols above the first and the last: the stroke in the
middle has a stroke above it, bar or not. -/
def strokesUnderSymbols : List Glyph :=
  [.drawn '1' 20 10 6 12, .drawn '-' 20 25 20 2, .drawn '-' 20 40 30 2, .drawn 'A' 20 55 8 12,
    .drawn '-' 20 70 40 2]

/-- Five glyphs visited out of order, of which two strokes become bars. -/
theorem bars_one_by_one_of_strokes :
    [4, 1, 2, 0, 3].Perm (List.range strokesUnderSymbols.length) ∧
    [4, 1, 2, 0, 3].foldl barAt strokesUnderSymbols = bars strokesUnderSymbols ∧
    labels ([4, 1, 2, 0, 3].foldl barAt strokesUnderSymbols) = ['1', '/', '-', 'A', '/'] := by
  have perm : [4, 1, 2, 0, 3].Perm (List.range strokesUnderSymbols.length) := by decide
  have walk := (bars_one_by_one strokesUnderSymbols).1 _ perm
  refine ⟨perm, walk, ?_⟩
  rw [walk]
  decide +kernel

end Relabel

end PenMath
