import Mathlib.Data.List.TakeWhile
import PenMath.Proofs.Region.Conservation
import PenMath.Proofs.Tree.WellFormed
import PenMath.Tree.Linear

/-!
# The segments of a line

A line is cut into segments: the items of a base, then the items of its exponent. `IsCut` says where
the cuts are without a word about how they are found. A base is one item, or a row of digits or
letters; its exponent is the longest row of items above it; and a base without exponent ends where
the next item cannot continue it.

`lineAt_eq_ok_iff` says that a line is read to the entries of such a cut and to no others. One
direction follows a scan that has ended and carries the items that the current entry is the base of
(`Scanned.isCut`). The other runs the scan over a cut, segment by segment (`scanFrom_of_isCut`).
-/

namespace PenMath.Region

variable {R : Reading} {base : List Item} {entry current : Node}

/-! ## Bases -/

/-- Whether no glyph of a row is above the glyphs before it. -/
def IsLevelRow (kind : Kind) (members : List Glyph) : Prop :=
  ∀ front g back before, members = front ++ g :: back →
    Rect.bounding? (front.map (·.rect)) = some before →
    takesAsPower (.run ⟨front, kind, before⟩ none) (.glyph g) = false

/-- Whether an entry is the base that these items make up, without exponent. -/
inductive IsBase : List Item → Node → Prop
  /-- One item is a base of its own. -/
  | item (item : Item) (bare : item.toNode.power = none) : IsBase [item] item.toNode
  /-- Digits or letters are one base as long as none is above those before it. -/
  | run {members : List Glyph} {kind : Kind} {rect : Rect} (merges : kind.merges = true)
      (kinds : ∀ g ∈ members, g.kind = kind)
      (bounds : Rect.bounding? (members.map (·.rect)) = some rect)
      (level : IsLevelRow kind members) :
      IsBase (members.map .glyph) (.run ⟨members, kind, rect⟩ none)

theorem isLevelRow_singleton (kind : Kind) (g : Glyph) : IsLevelRow kind [g] := by
  intro front next back before split bounds
  cases front with
  | nil => cases bounds
  | cons first front => simp at split

/-- A row goes on with a glyph that does not lie above what is drawn so far. -/
theorem IsLevelRow.concat {kind : Kind} {members : List Glyph} {rect : Rect} {g : Glyph}
    (row : IsLevelRow kind members) (bounds : Rect.bounding? (members.map (·.rect)) = some rect)
    (level : takesAsPower (.run ⟨members, kind, rect⟩ none) (.glyph g) = false) :
    IsLevelRow kind (members ++ [g]) := by
  intro front next back before split bounds'
  rcases List.eq_nil_or_concat back with rfl | ⟨back, last, rfl⟩
  · obtain ⟨rfl, same⟩ := List.append_inj' split rfl
    cases same
    rw [bounds, Option.some.injEq] at bounds'
    rw [← bounds']
    exact level
  · rw [List.concat_eq_append, ← List.cons_append, ← List.append_assoc] at split
    exact row front next back before (List.append_inj' split rfl).1 bounds'

/-- A base that accepts a glyph is a row of glyphs. -/
theorem IsBase.eq_run {g : Glyph} (h : IsBase base entry) (accepted : entry.accepts g = true) :
    ∃ members kind rect, base = members.map .glyph ∧ entry = .run ⟨members, kind, rect⟩ none ∧
      (∀ g ∈ members, g.kind = kind) ∧ Rect.bounding? (members.map (·.rect)) = some rect ∧
      IsLevelRow kind members := by
  cases h with
  | item item bare =>
    cases item with
    | fraction f => cases accepted
    | glyph first =>
      exact ⟨[first], first.kind, first.rect, rfl, rfl, by simp, rfl, isLevelRow_singleton _ _⟩
  | run merges kinds bounds level => exact ⟨_, _, _, rfl, rfl, kinds, bounds, level⟩

/-- A base goes on with what is joined to it. -/
theorem IsBase.join {grown : Node} {item : Item} (h : IsBase base current)
    (level : takesAsPower current item = false) (joined : join? current item = some grown) :
    IsBase (base ++ [item]) grown := by
  obtain ⟨g, rfl, accepted, rfl⟩ := join?_eq_some joined
  obtain ⟨members, kind, rect, rfl, rfl, kinds, bounds, row⟩ := h.eq_run accepted
  simp only [Node.accepts, Run.accepts, Bool.and_eq_true, decide_eq_true_eq] at accepted
  rw [← List.map_singleton, ← List.map_append]
  refine .run accepted.1 ?_ (Run.bounding?_concat bounds g) (row.concat bounds level)
  intro other mem
  rcases List.mem_append.mp mem with before | last
  · exact kinds other before
  · rw [List.mem_singleton.mp last]
    exact accepted.2

/-! ## Cuts -/

/-- The cut of items into segments, and the entries of these. -/
inductive IsCut (R : Reading) : List Item → List Node → Prop
  | nil : IsCut R [] []
  /-- A base with its exponent, and the segments after it. -/
  | segment {base raised rest : List Item} {entry closed : Node} {nodes : List Node}
      (isBase : IsBase base entry)
      (longest : (raised ++ rest).takeWhile (takesAsPower entry) = raised)
      (closing : Attached R entry raised closed)
      (apart : raised = [] → ∀ item ∈ rest.head?, join? entry item = none)
      (following : IsCut R rest nodes) : IsCut R (base ++ (raised ++ rest)) (closed :: nodes)

theorem takeWhile_append_of_head? {p : Item → Bool} {front back : List Item}
    (all : ∀ item ∈ front, p item = true) (stops : ∀ item ∈ back.head?, p item = false) :
    (front ++ back).takeWhile p = front := by
  rw [List.takeWhile_append_of_pos all]
  cases back with
  | nil => simp
  | cons item rest => simp [stops item rfl]

/-- Where an exponent is met only if one is allowed, it is read only if one is allowed. -/
theorem Attached.shallow {deepest : Bool} {power : List Item} {closed : Node}
    (h : Attached R current power closed) (shallow : power ≠ [] → deepest = false) :
    Attached (fun l e => deepest = false ∧ R l e) current power closed := by
  cases h with
  | bare => exact .bare
  | raised some reads => exact .raised some ⟨shallow some, reads⟩

/-- A scan that has ended has cut the line, from the items of the current base on. -/
theorem Scanned.isCut {deepest : Bool} {power rest : List Item} {nodes : List Node}
    (h : Scanned R deepest current power rest nodes) (isBase : IsBase base current)
    (above : ∀ item ∈ power, takesAsPower current item = true)
    (shallow : power ≠ [] → deepest = false) (bare : Bare rest) :
    IsCut (fun l e => deepest = false ∧ R l e) (base ++ (power ++ rest)) nodes := by
  induction h generalizing base with
  | last closing =>
    refine .segment isBase ?_ (closing.shallow shallow) (fun _ item none => nomatch none) .nil
    exact takeWhile_append_of_head? above fun item none => nomatch none
  | @raise current power item rest nodes raised shallow' _ ih =>
    rw [← List.singleton_append, ← List.append_assoc power]
    refine ih isBase ?_ (fun _ => shallow') (List.forall_mem_cons.mp bare).2
    intro other mem
    rcases List.mem_append.mp mem with before | last
    · exact above other before
    · rw [List.mem_singleton.mp last]
      exact raised
  | @grow current item grown rest nodes level joined _ ih =>
    rw [List.nil_append, ← List.singleton_append, ← List.append_assoc]
    exact ih (isBase.join level joined) (List.forall_mem_nil _) (fun some => absurd rfl some)
      (List.forall_mem_cons.mp bare).2
  | @close current power item closed rest nodes level apart closing _ ih =>
    obtain ⟨bareItem, bareRest⟩ := List.forall_mem_cons.mp bare
    have following := ih (.item item bareItem) (List.forall_mem_nil _) (fun some => absurd rfl some)
      bareRest
    -- the item that begins the next segment is not raised, so the exponent is as long as it can be
    refine .segment isBase ?_ (closing.shallow shallow) ?_ following
    · refine takeWhile_append_of_head? above ?_
      intro next first
      cases first
      exact level
    · intro none next first
      cases first
      exact apart.resolve_left (fun some => some none)

/-! ## The scan over a cut -/

variable {read : Reader} {deepest : Bool}

/-- The scan from the first of the items on. -/
def scanFrom (read : Reader) (deepest : Bool) : List Item → Except Fault (List Node)
  | [] => .ok []
  | first :: rest => scan read deepest first.toNode [] rest

theorem line_eq_scanFrom (read : Reader) (deepest : Bool) (items : List Item) :
    line read deepest items = scanFrom read deepest (leftToRight items) := by
  rw [line]
  cases leftToRight items <;> rfl

/-- A scan grows a row of digits or letters to its end. -/
theorem scan_row {kind : Kind} (merges : kind.merges = true) (front back : List Glyph)
    {before rect : Rect} (kinds : ∀ g ∈ front ++ back, g.kind = kind)
    (boundsBefore : Rect.bounding? (front.map (·.rect)) = some before)
    (bounds : Rect.bounding? ((front ++ back).map (·.rect)) = some rect)
    (row : IsLevelRow kind (front ++ back)) (rest : List Item) :
    scan read deepest (.run ⟨front, kind, before⟩ none) [] (back.map .glyph ++ rest) =
      scan read deepest (.run ⟨front ++ back, kind, rect⟩ none) [] rest := by
  induction back generalizing front before with
  | nil =>
    rw [List.append_nil, boundsBefore, Option.some.injEq] at bounds
    rw [List.append_nil, bounds]
    rfl
  | cons g back ih =>
    have level := row front g back before rfl boundsBefore
    have accepted : g.kind = kind := kinds g (by simp)
    have joined : join? (.run ⟨front, kind, before⟩ none) (.glyph g) =
        some (.run ⟨front ++ [g], kind, before.union g.rect⟩ none) := by
      simp [join?, Node.accepts, Run.accepts, merges, accepted, Node.append, Run.append]
    rw [List.append_cons] at kinds bounds row ⊢
    rw [List.map_cons, List.cons_append, scan_of_joined level joined]
    exact ih (front ++ [g]) kinds (Run.bounding?_concat boundsBefore g) bounds row

/-- The glyphs of a base join one after another. -/
theorem scanFrom_of_isBase (isBase : IsBase base entry) (rest : List Item) :
    scanFrom read deepest (base ++ rest) = scan read deepest entry [] rest := by
  cases isBase with
  | item => rfl
  | @run members kind rect merges kinds bounds level =>
    cases members with
    | nil => cases bounds
    | cons g members =>
      have first : (Item.glyph g).toNode = .run ⟨[g], kind, g.rect⟩ none := by
        rw [← kinds g List.mem_cons_self]
        rfl
      rw [List.map_cons, List.cons_append, scanFrom, first]
      exact scan_row merges [g] members kinds rfl bounds level rest

/-- All that lies above an entry goes to its exponent, if one may still be read. -/
theorem scan_raised {power raised : List Item}
    (above : ∀ item ∈ raised, takesAsPower entry item = true)
    (shallow : raised ≠ [] → deepest = false) (rest : List Item) :
    scan read deepest entry power (raised ++ rest) =
      scan read deepest entry (power ++ raised) rest := by
  induction raised generalizing power with
  | nil => rw [List.nil_append, List.append_nil]
  | cons item raised ih =>
    have shallow := shallow (List.cons_ne_nil _ _)
    obtain ⟨first, later⟩ := List.forall_mem_cons.mp above
    rw [List.cons_append, scan_of_raised first, shallow, if_neg Bool.false_ne_true, ← shallow,
      ih later fun _ => shallow, List.append_assoc, List.singleton_append]

/-- An exponent that may be read is attached. -/
theorem attach_of_attached {power : List Item} {closed : Node}
    (h : Attached (fun l e => deepest = false ∧ read l = .ok e) entry power closed) :
    attach read entry power = .ok closed := by
  cases h with
  | bare => rfl
  | raised some reads =>
    rw [attach, if_neg (by simpa using some), reads.2]
    rfl

/-- The scan of a cut line gives the entries of the cut. -/
theorem scanFrom_of_isCut {items : List Item} {nodes : List Node}
    (h : IsCut (fun l e => deepest = false ∧ read l = .ok e) items nodes) :
    scanFrom read deepest items = .ok nodes := by
  induction h with
  | nil => rfl
  | @segment base raised rest entry closed nodes isBase longest closing apart _ ih =>
    have shallow : raised ≠ [] → deepest = false := by
      intro some
      cases closing with
      | bare => exact absurd rfl some
      | raised _ reads => exact reads.1
    have above : ∀ item ∈ raised, takesAsPower entry item = true := by
      intro item mem
      rw [← longest] at mem
      exact List.mem_takeWhile_imp mem
    rw [scanFrom_of_isBase isBase, scan_raised above shallow, List.nil_append]
    cases rest with
    | nil =>
      cases ih
      rw [scan, attach_of_attached closing]
      rfl
    | cons item rest =>
      have level : takesAsPower entry item = false := by
        rw [List.takeWhile_append_of_pos above, List.append_right_eq_self] at longest
        simpa [List.takeWhile_cons] using longest
      -- an entry that nothing was raised on ends because the next item does not join it
      have free : raised ≠ [] ∨ join? entry item = none := by
        by_cases none : raised = []
        · exact .inr (apart none item rfl)
        · exact .inl none
      rw [scan_of_apart level free, attach_of_attached closing]
      rw [scanFrom] at ih
      rw [ih]
      rfl

/-! ## Lines -/

/-- What an exponent is read to: one level deeper, where an exponent is still allowed. -/
def ReadsPower (s : Setting) (depth : Nat) : Reading := fun power e =>
  depth < s.maxDepth ∧ parse s (depth + 1) power = .ok e

/-- A line that is read was cut in this way. -/
theorem isCut_of_line {items : List Item} {nodes : List Node} (bare : Bare items)
    (h : line read deepest items = .ok nodes) :
    IsCut (fun l e => deepest = false ∧ read l = .ok e) (leftToRight items) nodes := by
  cases lined_of_line h with
  | empty none =>
    rw [none]
    exact .nil
  | @scan first rest nodes sorted scanned =>
    have bare := bare.perm (sortByKey_perm (·.rect.x.place) items).symm
    rw [← leftToRight, sorted] at bare
    obtain ⟨bareFirst, bareRest⟩ := List.forall_mem_cons.mp bare
    rw [sorted]
    exact (scanned.mono fun l e read => read.2).isCut (.item first bareFirst)
      (List.forall_mem_nil _) (fun some => absurd rfl some) bareRest

theorem line_of_isCut {items : List Item} {nodes : List Node}
    (h : IsCut (fun l e => deepest = false ∧ read l = .ok e) (leftToRight items) nodes) :
    line read deepest items = .ok nodes := by
  rw [line_eq_scanFrom]
  exact scanFrom_of_isCut h

/-- Operators and parentheses join nothing. -/
theorem IsBase.eq_singleton {r : Run} {power : Option Expression} {g : Glyph}
    (h : IsBase base (.run r power)) (member : g ∈ r.members)
    (single : g.kind = .operator ∨ g.kind = .parenthesis) : r.members = [g] := by
  generalize same : Node.run r power = entry at h
  cases h with
  | item item bare =>
    cases item with
    | fraction f => cases same
    | glyph first =>
      cases same
      rw [List.mem_singleton.mp member]
      rfl
  | run merges kinds bounds level =>
    cases same
    rw [kinds g member] at single
    rcases single with kind | kind
    · rw [kind] at merges
      cases merges
    · rw [kind] at merges
      cases merges

/-- An exponent leaves a run what it was. -/
theorem Attached.eq_run {raised : List Item} {r : Run} {power : Option Expression}
    (h : Attached R entry raised (.run r power)) : ∃ bare, entry = .run r bare := by
  generalize same : Node.run r power = closed at h
  cases h with
  | bare => exact ⟨power, same.symm⟩
  | raised some reads =>
    cases entry with
    | fraction => cases same
    | run r' bare =>
      cases same
      exact ⟨bare, rfl⟩

/-- An operator or a parenthesis of a cut line is an entry of its own. -/
theorem IsCut.eq_singleton {items : List Item} {nodes : List Node} (h : IsCut R items nodes)
    {r : Run} {power : Option Expression} (mem : .run r power ∈ nodes) {g : Glyph}
    (member : g ∈ r.members) (single : g.kind = .operator ∨ g.kind = .parenthesis) :
    r.members = [g] := by
  induction h with
  | nil => cases mem
  | segment isBase longest closing apart following ih =>
    rcases List.mem_cons.mp mem with first | later
    · rw [← first] at closing
      obtain ⟨bare, rfl⟩ := closing.eq_run
      exact isBase.eq_singleton member single
    · exact ih later

theorem IsCut.mono {R' : Reading} {items : List Item} {nodes : List Node} (h : IsCut R items nodes)
    (weaken : ∀ l e, R l e → R' l e) : IsCut R' items nodes := by
  induction h with
  | nil => exact .nil
  | segment isBase longest closing apart _ ih =>
    exact .segment isBase longest (closing.mono weaken) apart ih

/-- A line is read to the entries of its cut and to no others. From left to right the items fall
into segments, each a base and above it the longest row of items that are its exponent; the exponent
is what these are read to one level deeper. An operator or a parenthesis is an entry of its own. -/
theorem lineAt_eq_ok_iff (s : Setting) (depth : Nat) {items : List Item} (bare : Bare items) :
    (∀ nodes, lineAt s depth items = .ok nodes ↔
      IsCut (ReadsPower s depth) (leftToRight items) nodes) ∧
      ∀ nodes, lineAt s depth items = .ok nodes → ∀ r power, .run r power ∈ nodes →
        ∀ g ∈ r.members, g.kind = .operator ∨ g.kind = .parenthesis → r.members = [g] := by
  have isCut : ∀ nodes, lineAt s depth items = .ok nodes →
      IsCut (ReadsPower s depth) (leftToRight items) nodes := by
    intro nodes read
    refine (isCut_of_line bare read).mono ?_
    intro power e reads
    obtain ⟨shallow, reads⟩ := reads
    exact ⟨by simpa using shallow, reads⟩
  refine ⟨fun nodes => ⟨isCut nodes, ?_⟩, ?_⟩
  · intro cut
    refine line_of_isCut (cut.mono ?_)
    intro power e reads
    obtain ⟨shallow, reads⟩ := reads
    exact ⟨by simpa using shallow, reads⟩
  · intro nodes read r power mem g member single
    exact (isCut nodes read).eq_singleton mem member single

/-- Two letters squared, and a third one after the exponent. -/
def squareTimesLetter : List Item :=
  [.drawn 'C' 40 50 10 20, .drawn '2' 28 32 6 8, .drawn 'A' 0 50 10 20,
    .drawn 'B' 14 50 10 20].map .glyph

/-- The square of two letters, times a third. -/
theorem lineAt_eq_ok_iff_of_squareTimesLetter :
    Bare squareTimesLetter ∧ ∃ nodes, lineAt ⟨[], 1⟩ 0 squareTimesLetter = .ok nodes ∧
      Expression.text nodes = "AB**(2)*C" ∧
      IsCut (ReadsPower ⟨[], 1⟩ 0) (leftToRight squareTimesLetter) nodes := by
  have bare : Bare squareTimesLetter := Bare.glyphs _
  have read : (lineAt ⟨[], 1⟩ 0 squareTimesLetter).map Expression.text = .ok "AB**(2)*C" := by
    decide +kernel
  obtain ⟨nodes, read, text⟩ := map_eq_ok.mp read
  exact ⟨bare, nodes, read, text, ((lineAt_eq_ok_iff ⟨[], 1⟩ 0 bare).1 nodes).mp read⟩

end PenMath.Region
