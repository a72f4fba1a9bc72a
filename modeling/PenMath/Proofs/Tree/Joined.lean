import PenMath.Proofs.Tree.WellFormed

/-!
# Trees whose letters are joined again

Where letters have been cut into words, the words that stand side by side can be joined again: a
letter run without exponent goes into the letter run that follows it, which keeps its exponent.
Doing this at every depth undoes every cut, so two trees that differ only in how letters were cut
have the same joined tree.

The pieces of a letter run are joined to a run with the same members, and a run that is a token is
determined by its members and its kind (`Run.IsToken.ext`).
-/

namespace PenMath

/-! ## Runs -/

namespace Run

/-- Two runs as one, with the kind of the second. -/
def join (r s : Run) : Run where
  members := r.members ++ s.members
  kind := s.kind
  rect := (Rect.bounding? ((r.members ++ s.members).map (·.rect))).getD s.rect

variable {r s : Run}

/-- Letters that are joined make up a token. -/
theorem IsToken.join (first : r.IsToken) (second : s.IsToken) (letter : r.kind = .letter)
    (letter' : s.kind = .letter) : (r.join s).IsToken where
  notEmpty := List.append_ne_nil_of_left_ne_nil first.notEmpty _
  kinds := by
    intro g mem
    show Kind.ofLabel? g.label = some s.kind
    rcases List.mem_append.mp mem with before | after
    · rw [first.kinds g before, letter, letter']
    · exact second.kinds g after
  alone single := by
    rw [show (r.join s).kind = .letter from letter'] at single
    rcases single with other | other <;> cases other
  bounds := by
    obtain ⟨g, rest, members⟩ := List.exists_cons_of_ne_nil first.notEmpty
    rw [Run.join, members]
    rfl

/-- A token is its members and its kind. -/
theorem IsToken.ext (first : r.IsToken) (second : s.IsToken) (members : r.members = s.members)
    (kind : r.kind = s.kind) : r = s := by
  have rect := first.bounds
  rw [members, second.bounds, Option.some.injEq] at rect
  cases r
  cases s
  cases members
  cases kind
  cases rect
  rfl

end Run

/-! ## Trees -/

/-- A line with one more entry in front; if that is a letter run without exponent it goes into a
letter run that follows. -/
def joinOnto : Node → List Node → List Node
  | .run r none, .run s power :: rest =>
    if r.kind = .letter ∧ s.kind = .letter then .run (r.join s) power :: rest
    else .run r none :: .run s power :: rest
  | node, line => node :: line

mutual

/-- An entry with the letters within it joined. -/
def Node.joined : Node → Node
  | .run r power => .run r (powerJoined power)
  | .fraction n d rect power => .fraction (baseJoined n) (baseJoined d) rect (powerJoined power)

/-- A base line with its letters joined, at every depth. -/
def baseJoined : List Node → List Node
  | [] => []
  | node :: rest => joinOnto node.joined (baseJoined rest)

/-- An exponent with its letters joined. -/
def powerJoined : Option (List Node) → Option (List Node)
  | none => none
  | some p => some (baseJoined p)

end

variable {node : Node} {line : List Node}

@[simp] theorem Node.kind_joined (node : Node) : node.joined.kind = node.kind := by
  cases node <;> rfl

theorem Node.power_joined (node : Node) : node.joined.power = powerJoined node.power := by
  cases node <;> rfl

theorem Node.power_joined_eq_none : node.joined.power = none ↔ node.power = none := by
  rw [node.power_joined]
  cases node.power with
  | none => exact ⟨fun _ => rfl, fun _ => rfl⟩
  | some p =>
    constructor
    · rintro ⟨⟩
    · rintro ⟨⟩

theorem Node.joined_withPower (node : Node) (e : Expression) :
    (node.withPower e).joined = node.joined.withPower (baseJoined e) := by
  cases node <;> rfl

/-- Whether an entry stays apart from a line after it. -/
def Node.IsApart (node : Node) (line : List Node) : Prop :=
  ∀ next ∈ line.head?, node.kind = .letter → next.kind = .letter → node.power ≠ none

/-- Whether no letters in a line would be joined. -/
abbrev Separated (nodes : List Node) : Prop :=
  nodes.IsChain fun left right => left.kind = .letter → right.kind = .letter → left.power ≠ none

theorem joinOnto_of_isApart (apart : node.IsApart line) : joinOnto node line = node :: line := by
  unfold joinOnto
  split
  next r s power rest =>
    rw [if_neg]
    rintro ⟨letter, letter'⟩
    exact apart _ rfl letter letter' rfl
  next => rfl

/-- Joining words leaves nothing only of nothing. -/
theorem baseJoined_eq_nil {e : Expression} : baseJoined e = [] ↔ e = [] := by
  cases e with
  | nil => exact ⟨fun _ => rfl, fun _ => rfl⟩
  | cons node rest =>
    rw [baseJoined]
    unfold joinOnto
    split
    next => split <;> simp
    next => simp

/-- Nothing is joined to the front of a line of which nothing is joined. -/
theorem isApart_map_joined {rest : List Node} (separated : Separated (node :: rest)) :
    node.joined.IsApart (rest.map Node.joined) := by
  intro next mem letter letter' bare
  rw [List.head?_map] at mem
  obtain ⟨next, first, rfl⟩ := Option.map_eq_some_iff.mp mem
  rw [Node.kind_joined] at letter letter'
  exact (List.isChain_cons.mp separated).1 next first letter letter'
    (Node.power_joined_eq_none.mp bare)

end PenMath
