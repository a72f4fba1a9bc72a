import Std.Data.ExtTreeMap
import PenMath.Request

/-!
# The registry of declared names

A registry holds the declarations of a session by name. Which declarations read a name is kept
beside them, so that a new declaration of the name can say what it invalidates: the name itself,
then everything that reads it, directly or through other declarations, breadth first. Watchers of
these names, and those of every declaration, are told once each, in the order they are met.

Readers and watchers are kept as links: a set of values for each name, listed in ascending order,
where a name whose set becomes empty is dropped. In the breadth-first search an element leaves the
list of those not yet met when it enters the queue, so the queue and that list together get shorter
by one in every step.
-/

namespace PenMath

/-! ## Links from names -/

section

variable {α : Type} [Ord α] [Std.TransOrd α] [Std.LawfulEqOrd α]

/-- A set of values for each of some names. -/
abbrev Links (α : Type) [Ord α] := Std.ExtTreeMap String (Std.ExtTreeSet α)

namespace Links

/-- A set less one value, none if nothing is left. -/
def without (s : Std.ExtTreeSet α) (a : α) : Option (Std.ExtTreeSet α) :=
  if (s.erase a).isEmpty then none else some (s.erase a)

/-- The links with one more. -/
def add (links : Links α) (name : String) (a : α) : Links α :=
  links.alter name fun values => some ((values.getD ∅).insert a)

/-- The links with one less. -/
def remove (links : Links α) (name : String) (a : α) : Links α :=
  links.alter name fun values => values.bind (without · a)

/-- The links without any to one value. -/
def removeEverywhere (links : Links α) (a : α) : Links α :=
  links.filterMap fun _ values => without values a

/-- The values linked from a name, ascending. -/
def valuesOf (links : Links α) (name : String) : List α := (links.getD name ∅).toList

/-- Whether a name is linked to a value. -/
def holds (links : Links α) (name : String) (a : α) : Bool := (links.getD name ∅).contains a

end Links

end

/-! ## Breadth-first order -/

section

variable {α : Type}

/-- The elements that follow another one. -/
def followers (follows : α → α → Bool) (a : α) (l : List α) : List α := l.filter (follows a)

/-- The elements that do not follow another one. -/
def nonfollowers (follows : α → α → Bool) (a : α) (l : List α) : List α :=
  l.filter fun b => !follows a b

/-- Every element follows another one or does not. -/
theorem length_followers_add (follows : α → α → Bool) (a : α) (l : List α) :
    (followers follows a l).length + (nonfollowers follows a l).length = l.length := by
  induction l with
  | nil => rfl
  | cons b rest ih =>
    simp only [followers, nonfollowers] at ih ⊢
    cases h : follows a b <;> simp [h] <;> omega

/-- The elements met by a breadth-first search: those in the queue, then what follows them among the
elements not yet met, in the order of that list. -/
def breadthFirst (follows : α → α → Bool) : List α → List α → List α
  | [], _ => []
  | a :: queue, unmet =>
    a :: breadthFirst follows (queue ++ followers follows a unmet) (nonfollowers follows a unmet)
termination_by queue unmet => queue.length + unmet.length
decreasing_by
  have parts := length_followers_add follows a unmet
  simp only [List.length_append, List.length_cons]
  omega

end

/-! ## The registry -/

/-- The number of one who wants to know of declarations. -/
abbrev WatcherId := UInt64

/-- What one declaration sets off. -/
structure Propagation where
  /-- The name declared, then what reads it, breadth first. -/
  invalidated : List String
  /-- The watchers to be told, each once. -/
  notified : List WatcherId
deriving DecidableEq

/-- The names declared in a session, and who watches them. -/
structure Registry where
  declarations : Std.ExtTreeMap String Declaration
  /-- From a name to the declared names whose body reads it. -/
  readers : Links String
  /-- From a name to those who watch it. -/
  watchers : Links WatcherId
  /-- Those who watch every declaration. -/
  watchersOfAll : Std.ExtTreeSet WatcherId

namespace Registry

/-- The functions that are known before anything is declared. -/
def builtins : List String := ["COS", "SIN", "EXP", "LOG"]

/-- A registry in which nothing is declared or watched. -/
def empty : Registry := ⟨∅, ∅, ∅, ∅⟩

instance : Inhabited Registry := ⟨empty⟩

/-- The declaration of a name. -/
def declaration? (r : Registry) (name : String) : Option Declaration := r.declarations[name]?

/-- The number of declared names. -/
def size (r : Registry) : Nat := r.declarations.size

/-- Whether a name is that of a function, built in or declared. -/
def isFunction (r : Registry) (name : String) : Bool :=
  builtins.contains name || (r.declaration? name).any (·.isFunction)

/-- The known names, longest first and in order of their characters among equally long ones. -/
def names (r : Registry) : List String :=
  longestFirst (NameSet.ofList (builtins ++ r.declarations.keys)).toList

/-- The declared names that reading a name leads to, breadth first, after the name itself. -/
def reachedFrom (r : Registry) (name : String) : List String :=
  breadthFirst (fun read reader => r.readers.holds read reader) [name]
    (r.declarations.keys.filter (· ≠ name))

/-- What a declaration of a name sets off. -/
def propagate (r : Registry) (name : String) : Propagation :=
  let reached := r.reachedFrom name
  ⟨reached, (reached.flatMap r.watchers.valuesOf ++ r.watchersOfAll.toList).eraseDups⟩

/-- The links to the readers of names when one declaration is withdrawn. -/
def unlink (readers : Links String) (d : Declaration) : Links String :=
  d.dependencies.toList.foldl (fun links dependency => links.remove dependency d.name) readers

/-- The links to the readers of names when one declaration is added. -/
def link (readers : Links String) (d : Declaration) : Links String :=
  d.dependencies.toList.foldl (fun links dependency => links.add dependency d.name) readers

/-- The registry in which a declaration takes the place of any earlier one of its name. -/
def record (r : Registry) (d : Declaration) : Registry :=
  let others := match r.declaration? d.name with
    | some previous => unlink r.readers previous
    | none => r.readers
  { r with declarations := r.declarations.insert d.name d, readers := link others d }

/-- Records a declaration and says what it sets off. A built-in name cannot be declared. -/
def declare (r : Registry) (d : Declaration) : Except Fault (Registry × Propagation) :=
  if builtins.contains d.name then .error (.builtinDeclared d.name)
  else .ok (r.record d, (r.record d).propagate d.name)

/-- Lets a watcher know of declarations of a name, declared yet or not. -/
def watch (r : Registry) (name : String) (watcher : WatcherId) : Registry :=
  { r with watchers := r.watchers.add name watcher }

/-- Lets a watcher know of every declaration. -/
def watchAll (r : Registry) (watcher : WatcherId) : Registry :=
  { r with watchersOfAll := r.watchersOfAll.insert watcher }

/-- Lets a watcher know of nothing any more. -/
def unwatch (r : Registry) (watcher : WatcherId) : Registry :=
  { r with
    watchers := r.watchers.removeEverywhere watcher
    watchersOfAll := r.watchersOfAll.erase watcher }

/-- The name under which a watcher is shown. -/
def watcherText (watcher : WatcherId) : String := "Watcher(" ++ toString watcher.toNat ++ ")"

end Registry

end PenMath
