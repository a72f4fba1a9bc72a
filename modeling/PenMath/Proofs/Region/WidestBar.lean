import Mathlib.Data.List.Perm.Subperm
import PenMath.Proofs.Except
import PenMath.Proofs.Region.Bars

/-!
# The widest bar first

Which bar a round takes, by its place in the list: no "/" is wider, every "/" before it is narrower,
and the list that is left has lost this one place. There is one such place at most
(`IsWidestAt.unique`), so this is all there is to say of a take (`takeWidestBar?_eq_some`). The same
bar is found by two passes over the places of the list, one that keeps the best place so far and one
that sets the glyph at the place found apart (`takeByPlace_eq`).

Over the rounds, `tracedStack` notes the bars as they are taken. A round leaves no "/" that was not
there before, however it regroups the others (`resolveBar_leaves`); the bars noted are therefore
among those of the list, and no later one is wider than an earlier one.
-/

namespace PenMath.Region

variable {items others : List Item} {bar bar' : Glyph} {place place' : Nat}

/-! ## The place of the bar taken -/

/-- Whether the widest "/" of a list, the first of equally wide ones, stands at a place. -/
structure IsWidestAt (items : List Item) (place : Nat) (bar : Glyph) : Prop where
  found : items[place]? = some (.glyph bar)
  label : bar.label = '/'
  /-- No "/" is wider. -/
  widest : ∀ (other : Nat) (g : Glyph), items[other]? = some (.glyph g) → g.label = '/' →
    g.rect.width ≤ bar.rect.width
  /-- No "/" before it is as wide. -/
  first : ∀ (other : Nat) (g : Glyph), other < place → items[other]? = some (.glyph g) →
    g.label = '/' → g.rect.width < bar.rect.width

theorem IsWidestAt.not_lt (h : IsWidestAt items place bar) (h' : IsWidestAt items place' bar') :
    ¬place < place' := by
  intro before
  have narrower := h'.first place bar before h.found h.label
  exact Coord.not_le_of_lt narrower (h.widest place' bar' h'.found h'.label)

/-- There is one first place of a widest bar. -/
theorem IsWidestAt.unique (h : IsWidestAt items place bar) (h' : IsWidestAt items place' bar') :
    place = place' ∧ bar = bar' := by
  have before := h.not_lt h'
  have after := h'.not_lt h
  obtain rfl : place = place' := by omega
  have same := h.found.symm.trans h'.found
  cases same
  exact ⟨rfl, rfl⟩

/-- What is taken stood at the first place of a widest bar. -/
theorem exists_isWidestAt (taken : takeWidestBar? items = some (bar, others)) :
    ∃ place, IsWidestAt items place bar ∧ others = items.eraseIdx place := by
  have notWider : ∀ g ∈ barsOf items, g.rect.width ≤ bar.rect.width :=
    fun g mem => width_le_of_taken taken mem
  obtain ⟨label, front, back, rfl, rfl, narrower, -⟩ := takeWidestBar?_split taken
  have left : (front ++ .glyph bar :: back).eraseIdx front.length = front ++ back := by
    rw [List.eraseIdx_append_of_length_le (Nat.le_refl _), Nat.sub_self]
    rfl
  refine ⟨front.length, ⟨by simp, label, ?_, ?_⟩, left.symm⟩
  · intro other g found isBar
    exact notWider g (mem_barsOf.mpr ⟨List.mem_of_getElem? found, isBar⟩)
  · intro other g before found isBar
    rw [List.getElem?_append_left before] at found
    exact narrower g (mem_barsOf.mpr ⟨List.mem_of_getElem? found, isBar⟩)

/-- A bar is taken exactly from the first place of a widest one. -/
theorem takeWidestBar?_eq_some :
    takeWidestBar? items = some (bar, others) ↔
      ∃ place, IsWidestAt items place bar ∧ others = items.eraseIdx place := by
  constructor
  · exact exists_isWidestAt
  · intro h
    obtain ⟨place, widest, rfl⟩ := h
    cases taken : takeWidestBar? items with
    | none =>
      have mem : bar ∈ barsOf items :=
        mem_barsOf.mpr ⟨List.mem_of_getElem? widest.found, widest.label⟩
      rw [takeWidestBar?_eq_none.mp taken] at mem
      cases mem
    | some found =>
      obtain ⟨bar', others'⟩ := found
      obtain ⟨place', widest', rfl⟩ := exists_isWidestAt taken
      obtain ⟨rfl, rfl⟩ := widest.unique widest'
      rfl

/-! ## Two passes over the places -/

/-- The widest bar so far, by place and width, after one more: it stays unless the next is wider. -/
def widerOf : Option (Nat × Coord) → Nat × Coord → Option (Nat × Coord)
  | none, next => some next
  | some best, next => if next.2 ≤ best.2 then some best else some next

/-- The places and widths of the "/" of a list, counted from a first place on. -/
def barPlaces (first : Nat) (items : List Item) : List (Nat × Coord) :=
  (items.zipIdx first).filterMap fun entry =>
    (entry.1.glyphWith? '/').map fun g => (entry.2, g.rect.width)

/-- One item more of a list in which the glyph at a place is set apart. -/
def setApart (place : Nat) (parts : Option Glyph × List Item) (entry : Item × Nat) :
    Option Glyph × List Item :=
  match entry.1 with
  | .glyph g => if entry.2 = place then (some g, parts.2) else (parts.1, parts.2 ++ [.glyph g])
  | .fraction f => (parts.1, parts.2 ++ [.fraction f])

/-- The widest "/" of a list and the others: a pass finds its place and another sets it apart. -/
def takeByPlace (items : List Item) : Option Glyph × List Item :=
  match (barPlaces 0 items).foldl widerOf none with
  | none => (none, items)
  | some (place, _) => items.zipIdx.foldl (setApart place) (none, [])

theorem barPlaces_append (first : Nat) (front back : List Item) :
    barPlaces first (front ++ back) =
      barPlaces first front ++ barPlaces (first + front.length) back := by
  rw [barPlaces, List.zipIdx_append, List.filterMap_append]
  rfl

theorem barPlaces_glyph {first : Nat} (label : bar.label = '/') (rest : List Item) :
    barPlaces first (.glyph bar :: rest) =
      (first, bar.rect.width) :: barPlaces (first + 1) rest := by
  rw [barPlaces, List.zipIdx_cons, List.filterMap_cons, glyphWith?_eq_some.mpr ⟨rfl, label⟩]
  rfl

theorem exists_of_mem_barPlaces {first : Nat} {entry : Nat × Coord}
    (mem : entry ∈ barPlaces first items) : ∃ g ∈ barsOf items, entry.2 = g.rect.width := by
  obtain ⟨⟨item, here⟩, within, found⟩ := List.mem_filterMap.mp mem
  obtain ⟨g, isBar, rfl⟩ := Option.map_eq_some_iff.mp found
  exact ⟨g, List.mem_filterMap.mpr ⟨item, List.fst_mem_of_mem_zipIdx within, isBar⟩, rfl⟩

/-- Narrower bars leave a narrower one in front, if any. -/
theorem foldl_widerOf_lt {width : Coord} {entries : List (Nat × Coord)}
    (narrower : ∀ entry ∈ entries, entry.2 < width) {best : Option (Nat × Coord)}
    (before : ∀ entry ∈ best, entry.2 < width) :
    ∀ entry ∈ entries.foldl widerOf best, entry.2 < width := by
  induction entries generalizing best with
  | nil => exact before
  | cons next rest ih =>
    have rest_narrower := fun entry mem => narrower entry (List.mem_cons_of_mem next mem)
    refine ih rest_narrower ?_
    intro entry mem
    cases best with
    | none =>
      obtain rfl := Option.some.inj mem
      exact narrower next (List.mem_cons_self ..)
    | some known =>
      rw [widerOf] at mem
      split at mem
      next => exact before entry mem
      next =>
        obtain rfl := Option.some.inj mem
        exact narrower next (List.mem_cons_self ..)

theorem widerOf_of_lt {best : Option (Nat × Coord)} {next : Nat × Coord}
    (before : ∀ entry ∈ best, entry.2 < next.2) : widerOf best next = some next := by
  cases best with
  | none => rfl
  | some known => exact if_neg (Coord.not_le_of_lt (before known rfl))

/-- Bars that are no wider leave the one in front where it is. -/
theorem foldl_widerOf_of_le {best : Nat × Coord} {entries : List (Nat × Coord)}
    (notWider : ∀ entry ∈ entries, entry.2 ≤ best.2) :
    entries.foldl widerOf (some best) = some best := by
  induction entries with
  | nil => rfl
  | cons next rest ih =>
    have kept : widerOf (some best) next = some best :=
      if_pos (notWider next (List.mem_cons_self ..))
    rw [List.foldl_cons, kept]
    exact ih fun entry mem => notWider entry (List.mem_cons_of_mem next mem)

/-- Items at other places are kept in their order. -/
theorem foldl_setApart_of_ne {entries : List (Item × Nat)}
    (elsewhere : ∀ entry ∈ entries, entry.2 ≠ place) (parts : Option Glyph × List Item) :
    entries.foldl (setApart place) parts = (parts.1, parts.2 ++ entries.map Prod.fst) := by
  induction entries generalizing parts with
  | nil => simp
  | cons entry rest ih =>
    have kept : setApart place parts entry = (parts.1, parts.2 ++ [entry.1]) := by
      unfold setApart
      cases entry.1 with
      | glyph g => exact if_neg (elsewhere entry (List.mem_cons_self ..))
      | fraction f => rfl
    rw [List.foldl_cons, kept, ih fun other mem => elsewhere other (List.mem_cons_of_mem _ mem)]
    simp

/-- The first pass ends at the place of the widest bar. -/
theorem foldl_barPlaces {front back : List Item} (label : bar.label = '/')
    (narrower : ∀ g ∈ barsOf front, g.rect.width < bar.rect.width)
    (notWider : ∀ g ∈ barsOf back, g.rect.width ≤ bar.rect.width) :
    (barPlaces 0 (front ++ .glyph bar :: back)).foldl widerOf none =
      some (front.length, bar.rect.width) := by
  have before : ∀ entry ∈ (barPlaces 0 front).foldl widerOf none,
      entry.2 < (front.length, bar.rect.width).2 := by
    apply foldl_widerOf_lt
    · intro entry mem
      obtain ⟨g, isBar, width⟩ := exists_of_mem_barPlaces mem
      rw [width]
      exact narrower g isBar
    · intro entry mem
      cases mem
  rw [barPlaces_append, barPlaces_glyph label, Nat.zero_add, List.foldl_append, List.foldl_cons,
    widerOf_of_lt before]
  apply foldl_widerOf_of_le
  intro entry mem
  obtain ⟨g, isBar, width⟩ := exists_of_mem_barPlaces mem
  rw [width]
  exact notWider g isBar

/-- The second pass sets the glyph at a place apart and keeps the others in order. -/
theorem foldl_setApart (front back : List Item) (g : Glyph) :
    (front ++ .glyph g :: back).zipIdx.foldl (setApart front.length) (none, []) =
      (some g, front ++ back) := by
  have before : ∀ entry ∈ front.zipIdx, entry.2 ≠ front.length := by
    intro entry mem
    have inside := List.snd_lt_of_mem_zipIdx mem
    omega
  have after : ∀ entry ∈ back.zipIdx (front.length + 1), entry.2 ≠ front.length := by
    intro entry mem
    have beyond := List.le_snd_of_mem_zipIdx mem
    omega
  have here : setApart front.length (none, front) (.glyph g, front.length) = (some g, front) :=
    if_pos rfl
  rw [List.zipIdx_append, List.foldl_append, foldl_setApart_of_ne before, List.zipIdx_map_fst,
    List.nil_append, Nat.zero_add, List.zipIdx_cons, List.foldl_cons, here,
    foldl_setApart_of_ne after, List.zipIdx_map_fst]

/-- Taking a bar out by its place and by its width come to the same. -/
theorem takeByPlace_eq (items : List Item) :
    takeByPlace items =
      match takeWidestBar? items with
      | none => (none, items)
      | some (bar, others) => (some bar, others) := by
  cases taken : takeWidestBar? items with
  | none =>
    have noPlace : barPlaces 0 items = [] := by
      rw [List.eq_nil_iff_forall_not_mem]
      intro entry mem
      obtain ⟨g, isBar, -⟩ := exists_of_mem_barPlaces mem
      rw [takeWidestBar?_eq_none.mp taken] at isBar
      cases isBar
    rw [takeByPlace, noPlace]
    rfl
  | some found =>
    obtain ⟨bar, others⟩ := found
    obtain ⟨label, front, back, rfl, rfl, narrower, notWider⟩ := takeWidestBar?_split taken
    rw [takeByPlace, foldl_barPlaces label narrower notWider]
    exact foldl_setApart front back bar

/-! ## The bars of the rounds -/

/-- What a round makes of the bar it has taken: the division signs and the items that it leaves. -/
def resolveBar (read : Reader) (signs : List Glyph) (bar : Glyph) (others : List Item) :
    Except Fault (List Glyph × List Item) :=
  if (above bar others).isEmpty && (below bar others).isEmpty then
    .ok (signs ++ [bar], beside bar others)
  else if (above bar others).isEmpty || (below bar others).isEmpty then
    .ok (signs, beside bar others ++ above bar others ++ below bar others)
  else do
    let numerator ← read (above bar others)
    let denominator ← read (below bar others)
    return (signs, beside bar others ++ [.fraction (.stacked numerator denominator)])

variable {read : Reader} {signs signs' : List Glyph} {items' : List Item}

/-- The rounds are what their first one leaves and the rounds after it. -/
theorem stack_of_taken (taken : takeWidestBar? items = some (bar, others)) :
    stack read signs items =
      resolveBar read signs bar others >>= fun left => stack read left.1 left.2 := by
  unfold resolveBar
  split
  next empty =>
    rw [stack_of_inline taken empty]
    rfl
  next notEmpty =>
    split
    next oneSided =>
      rw [stack_of_oneSided taken notEmpty oneSided]
      rfl
    next twoSided =>
      rw [stack_of_twoSided taken notEmpty twoSided]
      cases read (above bar others) with
      | error => rfl
      | ok numerator =>
        cases read (below bar others) with
        | error => rfl
        | ok denominator => rfl

/-- A round leaves no more items than there are beside the bar it has taken, and no other bars. -/
theorem resolveBar_leaves (h : resolveBar read signs bar others = .ok (signs', items')) :
    items'.length ≤ others.length ∧ (barsOf items').Subperm (barsOf others) := by
  have around := length_around bar others
  have besides : (barsOf (beside bar others)).Subperm (barsOf others) :=
    (List.filter_sublist.filterMap _).subperm
  unfold resolveBar at h
  split at h
  next empty =>
    cases h
    exact ⟨by omega, besides⟩
  next notEmpty =>
    split at h
    next oneSided =>
      cases h
      have perm := around_perm bar others
      exact ⟨Nat.le_of_eq perm.length_eq, (perm.filterMap _).subperm⟩
    next twoSided =>
      obtain ⟨numerator, -, h⟩ := bind_eq_ok.mp h
      obtain ⟨denominator, -, h⟩ := bind_eq_ok.mp h
      cases h
      have sides := length_sides_pos twoSided
      rw [barsOf_append, barsOf_fraction, List.append_nil, List.length_append,
        List.length_singleton]
      exact ⟨by omega, besides⟩

/-- The rounds of `stack`, with the bars that they take noted in order. -/
def tracedStack (read : Reader) (signs : List Glyph) (items : List Item) :
    List Glyph × Except Fault (List Item) :=
  match _taken : takeWidestBar? items with
  | none => ([], .ok (items ++ signs.map .glyph))
  | some (bar, others) =>
    match _resolved : resolveBar read signs bar others with
    | .error fault => ([bar], .error fault)
    | .ok (signs', items') =>
      let following := tracedStack read signs' items'
      (bar :: following.1, following.2)
termination_by items.length
decreasing_by
  have count := length_takeWidestBar? _taken
  have notMore := (resolveBar_leaves _resolved).1
  omega

/-- Noting the bars changes nothing in what the rounds come to. -/
theorem tracedStack_snd (read : Reader) (signs : List Glyph) (items : List Item) :
    (tracedStack read signs items).2 = stack read signs items := by
  fun_induction tracedStack read signs items with
  | case1 signs items notTaken => rw [stack_of_none notTaken]
  | case2 signs items bar others taken fault resolved =>
    rw [stack_of_taken taken, resolved]
    rfl
  | case3 signs items bar others taken signs' items' resolved following ih =>
    rw [stack_of_taken taken, resolved]
    exact ih

/-- The bar noted first is the one taken from the list as it is, then come those that are taken from
what its round leaves. -/
theorem tracedStack_fst (read : Reader) (signs : List Glyph) (items : List Item) :
    (tracedStack read signs items).1 =
      match takeWidestBar? items with
      | none => []
      | some (bar, others) =>
        match resolveBar read signs bar others with
        | .error _ => [bar]
        | .ok left => bar :: (tracedStack read left.1 left.2).1 := by
  fun_cases tracedStack read signs items with
  | case1 notTaken => rw [notTaken]
  | case2 bar others taken fault resolved =>
    rw [taken]
    dsimp only
    rw [resolved]
  | case3 bar others taken signs' items' resolved following =>
    rw [taken]
    dsimp only
    rw [resolved]

theorem barsOf_of_taken (taken : takeWidestBar? items = some (bar, others)) :
    (bar :: barsOf others).Perm (barsOf items) := by
  obtain ⟨label, -⟩ := takeWidestBar?_split taken
  have perm : (barsOf (.glyph bar :: others)).Perm (barsOf items) :=
    (takeWidestBar?_perm taken).filterMap _
  rw [barsOf_bar_cons label] at perm
  exact perm

/-- Every bar is taken once at most, and only what was a bar from the start. -/
theorem subperm_tracedStack (read : Reader) (signs : List Glyph) (items : List Item) :
    (tracedStack read signs items).1.Subperm (barsOf items) := by
  fun_induction tracedStack read signs items with
  | case1 signs items notTaken => exact List.nil_subperm
  | case2 signs items bar others taken fault resolved =>
    exact List.singleton_subperm_iff.mpr (mem_barsOf_of_taken taken)
  | case3 signs items bar others taken signs' items' resolved following ih =>
    have later : following.1.Subperm (barsOf others) := ih.trans (resolveBar_leaves resolved).2
    exact ((List.subperm_cons bar).mpr later).trans (barsOf_of_taken taken).subperm

/-- No bar taken later is wider. -/
theorem pairwise_tracedStack (read : Reader) (signs : List Glyph) (items : List Item) :
    (tracedStack read signs items).1.Pairwise fun earlier later =>
      later.rect.width ≤ earlier.rect.width := by
  fun_induction tracedStack read signs items with
  | case1 signs items notTaken => exact .nil
  | case2 signs items bar others taken fault resolved => exact List.pairwise_singleton _ _
  | case3 signs items bar others taken signs' items' resolved following ih =>
    refine .cons ?_ ih
    intro g mem
    have old : g ∈ barsOf others :=
      (resolveBar_leaves resolved).2.subset ((subperm_tracedStack read signs' items').subset mem)
    exact width_le_of_taken taken ((barsOf_of_taken taken).subset (List.mem_cons_of_mem _ old))

/-- A take finds nothing just where there is no "/", and then leaves the list as it is; otherwise it
finds the widest "/", the first of equally wide ones, and the list has lost this place and nothing
else. Over the rounds the bars never become wider, and there are no more of them than there were "/"
in the list. -/
theorem widest_bar_is_taken_first (items : List Item) :
    (takeByPlace items =
      match takeWidestBar? items with
      | none => (none, items)
      | some (bar, others) => (some bar, others)) ∧
    (takeWidestBar? items = none ↔ ∀ g, .glyph g ∈ items → g.label ≠ '/') ∧
    (∀ bar others, takeWidestBar? items = some (bar, others) ↔
      ∃ place, IsWidestAt items place bar ∧ others = items.eraseIdx place) ∧
    ∀ (read : Reader) (signs : List Glyph),
      (tracedStack read signs items).2 = stack read signs items ∧
      ((tracedStack read signs items).1 =
        match takeWidestBar? items with
        | none => []
        | some (bar, others) =>
          match resolveBar read signs bar others with
          | .error _ => [bar]
          | .ok left => bar :: (tracedStack read left.1 left.2).1) ∧
      (tracedStack read signs items).1.Pairwise
        (fun earlier later => later.rect.width ≤ earlier.rect.width) ∧
      (tracedStack read signs items).1.Subperm (barsOf items) ∧
      (tracedStack read signs items).1.length ≤ (barsOf items).length := by
  refine ⟨takeByPlace_eq items, ?_, fun bar others => takeWidestBar?_eq_some, ?_⟩
  · rw [takeWidestBar?_eq_none, List.eq_nil_iff_forall_not_mem]
    constructor
    · intro noBar g mem label
      exact noBar g (mem_barsOf.mpr ⟨mem, label⟩)
    · intro noBar g mem
      exact noBar g (mem_barsOf.mp mem).1 (mem_barsOf.mp mem).2
  · intro read signs
    have taken := subperm_tracedStack read signs items
    exact ⟨tracedStack_snd read signs items, tracedStack_fst read signs items,
      pairwise_tracedStack read signs items, taken, taken.length_le⟩

/-- The widest bar goes first. It has a narrow one above it and nothing below, so it is dropped, and
the other narrow one, which was drawn last, then comes before that. -/
example : (tracedStack (fun _ => .ok []) [] [.glyph (.drawn '/' 50 25 20 2),
    .glyph (.drawn '/' 50 55 60 2), .glyph (.drawn '/' 150 25 20 2)]).1.map (·.rect.x) =
    [.ofInt 50, .ofInt 150, .ofInt 50] := by decide +kernel

end PenMath.Region
