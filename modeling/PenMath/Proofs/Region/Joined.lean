import PenMath.Proofs.Region.WellFormed
import PenMath.Proofs.Tree.Joined

/-!
# Regions read with different names

The known names are asked for once a line has been read, and only to cut its letters. In a line as
it was read no two letter runs stand side by side without an exponent in between, since they would
have been one run (`Scanned.apart`). So joining the letters of a line that has been cut gives
back the line before the cut (`baseJoined_cutWords`), except that exponents have been joined too.

With that, two readings of a region without bars agree step by step, although not entry by entry:
every line of the one is, once joined, the line of the other (`map_baseJoined_parse`).
-/

namespace PenMath.Region

variable {names : List String}

/-! ## Cutting and joining -/

/-- Pieces of a letter run are joined to one run of all their members. -/
theorem exists_baseJoined_withLastPower {pieces : List Run} (some : pieces ≠ [])
    (letters : ∀ r ∈ pieces, r.IsToken ∧ r.kind = .letter) {power : Option Expression}
    {line tail : List Node} (joined : baseJoined tail = line)
    (apart : ∀ r : Run, (Node.run r (powerJoined power)).IsApart line) :
    ∃ r : Run, r.IsToken ∧ r.kind = .letter ∧ r.members = pieces.flatMap (·.members) ∧
      baseJoined (withLastPower pieces power ++ tail) = .run r (powerJoined power) :: line := by
  induction pieces with
  | nil => exact absurd rfl some
  | cons r rest ih =>
    obtain ⟨⟨token, letter⟩, others⟩ := List.forall_mem_cons.mp letters
    cases rest with
    | nil =>
      refine ⟨r, token, letter, (List.append_nil _).symm, ?_⟩
      rw [withLastPower, List.singleton_append, baseJoined, joined]
      exact joinOnto_of_isApart (apart r)
    | cons next rest =>
      obtain ⟨s, token', letter', members, following⟩ := ih (List.cons_ne_nil _ _) others
      refine ⟨r.join s, token.join token' letter letter', letter', ?_, ?_⟩
      · rw [List.flatMap_cons, ← members]
        rfl
      · rw [withLastPower, List.cons_append, baseJoined, following]
        exact if_pos ⟨letter, letter'⟩

/-- Joining the pieces of an entry gives the entry back. -/
theorem baseJoined_cutNode {node : Node} (proper : node.IsProper fun _ => True)
    {line tail : List Node} (joined : baseJoined tail = line) (apart : node.joined.IsApart line) :
    baseJoined (cutNode names node ++ tail) = node.joined :: line := by
  by_cases letter : node.kind = .letter
  · cases proper with
    | fraction => cases letter
    | @run r power token operator _ =>
      obtain ⟨pieces, some, words, members, cutOut⟩ := exists_cutRun names token letter power
      obtain ⟨s, token', letter', members', following⟩ :=
        exists_baseJoined_withLastPower some (fun s mem => ⟨(words s mem).1, (words s mem).2.1⟩)
          joined fun s next first letter' => apart next first letter
      rw [cutNode, cutOut, following,
        token'.ext token (members'.trans members) (letter'.trans letter.symm)]
      rfl
  · rw [cutNode_of_kind letter, List.singleton_append, baseJoined, joined]
    exact joinOnto_of_isApart apart

/-- Joining the letters of a line that has been cut undoes the cut. -/
theorem baseJoined_cutWords {nodes : List Node}
    (proper : ∀ node ∈ nodes, node.IsProper fun _ => True) (separated : Separated nodes) :
    baseJoined (cutWords names nodes) = nodes.map Node.joined := by
  induction nodes with
  | nil => rfl
  | cons node rest ih =>
    obtain ⟨first, others⟩ := List.forall_mem_cons.mp proper
    rw [cutWords_cons, List.map_cons]
    exact baseJoined_cutNode first (ih others separated.tail) (isApart_map_joined separated)

/-! ## Two readings -/

/-- A line that has been read can be cut and joined again. -/
theorem separated_of_lineAt {s : Setting} {depth : Nat} {items : List Item} {entries : List Node}
    (ready : ∀ item ∈ items, IsReady s.names item) (h : lineAt s depth items = .ok entries) :
    (∀ node ∈ entries, node.IsProper fun _ => True) ∧ Separated entries := by
  have lined := lined_of_line h
  have line := (lined.isBaseLine (fun l e read => wellFormed_of_parse read.2) ready).1
  exact ⟨line.entries, lined.apart rfl⟩

/-- Whether items are glyphs that are no bars. -/
def AreSigns (items : List Item) : Prop := ∀ item ∈ items, ∃ g, item = .glyph g ∧ g.label ≠ '/'

variable {items : List Item} {read read' : Reader}

theorem AreSigns.isReady (signs : AreSigns items) : ∀ item ∈ items, IsReady names item := by
  intro item mem
  obtain ⟨g, rfl, -⟩ := signs item mem
  exact .glyph

/-- Signs side by side have no bar among them that could be a fraction. -/
theorem AreSigns.fractionsAt (signs : AreSigns items) (s : Setting) (depth : Nat) :
    fractionsAt s depth items = .ok items := by
  have noBars : barsOf items = [] := by
    rw [List.eq_nil_iff_forall_not_mem]
    intro bar mem
    obtain ⟨mem, label⟩ := mem_barsOf.mp mem
    obtain ⟨g, same, other⟩ := signs _ mem
    cases same
    exact other label
  rw [Region.fractionsAt, fractions, stack_of_none (takeWidestBar?_eq_none.mpr noBars)]
  exact congrArg Except.ok (List.append_nil items)

/-- A region without bars is its line, with the letters cut. -/
theorem AreSigns.parse_eq_map (signs : AreSigns items) (s : Setting) (depth : Nat) :
    parse s depth items = (lineAt s depth items).map (cutWords s.names) := by
  rw [parse_eq, signs.fractionsAt]
  show (lineAt s depth items >>= fun entries => .ok (cutWords s.names entries)) = _
  cases lineAt s depth items <;> rfl

/-- Once joined, it is its line. -/
theorem AreSigns.map_joined_parse (signs : AreSigns items) (s : Setting) (depth : Nat) :
    (parse s depth items).map baseJoined =
      (lineAt s depth items).map (List.map Node.joined) := by
  rw [signs.parse_eq_map]
  cases read : lineAt s depth items with
  | error fault => rfl
  | ok entries =>
    obtain ⟨proper, separated⟩ := separated_of_lineAt signs.isReady read
    exact congrArg Except.ok (baseJoined_cutWords proper separated)

/-- An exponent that is the same once joined leaves the entry the same once joined. -/
theorem map_joined_attach (base : Node) {power : List Item}
    (agree : (read power).map baseJoined = (read' power).map baseJoined) :
    (attach read base power).map Node.joined = (attach read' base power).map Node.joined := by
  rw [attach, attach]
  split
  next => rfl
  next =>
    have raised : ∀ x : Except Fault Expression, (x.map base.withPower).map Node.joined =
        (x.map baseJoined).map base.joined.withPower := by
      intro x
      cases x with
      | error fault => rfl
      | ok e => exact congrArg Except.ok (base.joined_withPower e)
    rw [raised, raised, agree]

/-- Scans with readers that agree on shorter regions, once joined, agree once joined. -/
theorem map_joined_scan {n : Nat}
    (agree : ∀ l : List Item, l.length < n → AreSigns l →
      (read l).map baseJoined = (read' l).map baseJoined)
    (deepest : Bool) (current : Node) (power rest : List Item)
    (short : power.length + rest.length < n) (signs : AreSigns (power ++ rest)) :
    (scan read deepest current power rest).map (List.map Node.joined) =
      (scan read' deepest current power rest).map (List.map Node.joined) := by
  induction rest generalizing current power with
  | nil =>
    rw [List.append_nil] at signs
    rw [scan, scan]
    exact map_bind_congr (map_joined_attach current (agree power short signs))
      fun closed closed' same => congrArg (fun node => Except.ok [node]) same
  | cons item rest ih =>
    rw [List.length_cons] at short
    have signsRest : AreSigns ([] ++ rest) := fun item' mem =>
      signs item' (List.mem_append_right _ (List.mem_cons_of_mem item mem))
    have onward : ∀ base : Node, (scan read deepest base [] rest).map (List.map Node.joined) =
        (scan read' deepest base [] rest).map (List.map Node.joined) :=
      fun base => ih base [] (by rw [List.length_nil]; omega) signsRest
    cases level : takesAsPower current item with
    | true =>
      rw [scan_of_raised level, scan_of_raised level]
      cases deepest with
      | true => rfl
      | false =>
        refine ih current (power ++ [item]) ?_ ?_
        · rw [List.length_append, List.length_singleton]
          omega
        · rwa [← List.append_cons]
    | false =>
      rcases apart_or_joined current power item with apart | ⟨rfl, grown, joined⟩
      · rw [scan_of_apart level apart, scan_of_apart level apart]
        have closing := map_joined_attach current (agree power (by omega)
          fun item' mem => signs item' (List.mem_append_left _ mem))
        refine map_bind_congr closing fun closed closed' sameFirst => ?_
        refine map_bind_congr (onward item.toNode) fun nodes nodes' sameRest => ?_
        exact congrArg Except.ok (congrArg₂ List.cons sameFirst sameRest)
      · rw [scan_of_joined level joined, scan_of_joined level joined]
        exact onward grown

/-- Lines with readers that agree on shorter regions, once joined, agree once joined. -/
theorem map_joined_line {n : Nat}
    (agree : ∀ l : List Item, l.length < n → AreSigns l →
      (read l).map baseJoined = (read' l).map baseJoined)
    (deepest : Bool) (short : items.length ≤ n) (signs : AreSigns items) :
    (line read deepest items).map (List.map Node.joined) =
      (line read' deepest items).map (List.map Node.joined) := by
  have perm := sortByKey_perm (·.rect.x.place) items
  have count := length_sortByKey (·.rect.x.place) items
  unfold line
  split
  next => rfl
  next first rest sorted =>
    rw [← leftToRight, sorted] at perm count
    rw [List.length_cons] at count
    refine map_joined_scan agree deepest _ [] rest (by rw [List.length_nil]; omega) ?_
    exact fun item mem => signs item (perm.mem_iff.mp (List.mem_cons_of_mem first mem))

/-- Two readings of a region without bars that differ in the known names only fail alike, and are
the same once joined. -/
theorem map_baseJoined_parse (s s' : Setting) (sameDepth : s.maxDepth = s'.maxDepth) (depth : Nat)
    (signs : AreSigns items) :
    (parse s depth items).map baseJoined = (parse s' depth items).map baseJoined := by
  -- exponents are regions with fewer items, one level deeper
  induction n : items.length using Nat.strongRecOn generalizing depth items with
  | ind n ih =>
    subst n
    rw [signs.map_joined_parse, signs.map_joined_parse, lineAt, lineAt, sameDepth]
    exact map_joined_line (fun l short signsPart => ih l.length short (depth + 1) signsPart rfl)
      _ (Nat.le_refl _) signs

end PenMath.Region
