import PenMath.Json.Token

/-!
# Documents

A document is what a JSON text says, as far as it says something. A reader of a document looks at
its parts from left to right and stops at the first fault, so a text that breaks off is kept with
all its parts up to the break: containers know whether they were ended.

The tokens are read one after the other. Containers that are still open are held in a stack of
frames, innermost first, and each token moves the reading on by one step (`State.step`).

At most 127 containers may stand in one another. A deeper one is marked; it may be skipped but not
read.
-/

namespace PenMath.Json

/-- What a JSON text says. -/
inductive Document where
  | null
  | bool (value : Bool)
  | number (numeral : Numeral)
  /-- A text, without value if it holds half of a pair of UTF-16 units. -/
  | text (value : Option String)
  /-- A list, and whether it was ended. -/
  | list (items : List Document) (ended : Bool)
  /-- Names with values in the order of the text, and whether the record was ended. -/
  | record (fields : List (Option String × Document)) (ended : Bool)
  /-- A container that stands in too many others. -/
  | deep (container : Document)
  /-- No value at all. -/
  | torn

instance : Inhabited Document := ⟨.torn⟩

/-- A name with its value; the name is a text, which may lack a value. -/
abbrev Field := Option String × Document

/-- A container that is still open, with its parts so far, the last one first. -/
inductive Frame where
  | list (items : List Document)
  /-- A record, and the name whose value is being read. -/
  | record (fields : List Field) (name : Option String)

/-- How far a document has been read. -/
inductive State where
  /-- A value must come. -/
  | expectValue (frames : List Frame)
  /-- A list was begun: a value or the end must come. -/
  | expectItem (frames : List Frame)
  /-- A record was begun: a name or the end must come. -/
  | expectName (frames : List Frame)
  /-- A further name must come. -/
  | expectNextName (fields : List Field) (frames : List Frame)
  /-- A colon must come. -/
  | expectColon (fields : List Field) (name : Option String) (frames : List Frame)
  /-- A value has been read: a comma or an end must come, or nothing if no container is open. -/
  | after (value : Document) (frames : List Frame)
  /-- Something else came; this is what was read before it. -/
  | broken (read : Document)

namespace State

/-- How many containers may stand in one another. -/
def deepest : Nat := 127

/-- A container that stands in these frames. -/
def inside (frames : List Frame) (container : Document) : Document :=
  if deepest ≤ frames.length then .deep container else container

/-- A container that was ended. -/
def close (container : Document) (frames : List Frame) : State :=
  after (inside frames container) frames

/-- The whole document, where the innermost value breaks off. -/
def tear (innermost : Document) : List Frame → Document
  | [] => innermost
  | .list items :: frames =>
    tear (inside frames (.list (innermost :: items).reverse false)) frames
  | .record fields name :: frames =>
    tear (inside frames (.record ((name, innermost) :: fields).reverse false)) frames

/-- The state after a text that breaks off inside a list. -/
def breakList (items : List Document) (frames : List Frame) : State :=
  broken (tear (inside frames (.list items.reverse false)) frames)

/-- The state after a text that breaks off inside a record. -/
def breakRecord (fields : List Field) (frames : List Frame) : State :=
  broken (tear (inside frames (.record fields.reverse false)) frames)

/-- The state after the first token of a value, if it is one. -/
def begin? (frames : List Frame) : Token → Option State
  | .null => some (after .null frames)
  | .bool value => some (after (.bool value) frames)
  | .number numeral => some (after (.number numeral) frames)
  | .text value => some (after (.text value) frames)
  | .beginList => some (expectItem frames)
  | .beginRecord => some (expectName frames)
  | _ => none

/-- The state after one more token. -/
def step : State → Token → State
  | expectValue frames, token => (begin? frames token).getD (broken (tear .torn frames))
  | expectItem frames, .endList => close (.list [] true) frames
  | expectItem frames, token => (begin? (.list [] :: frames) token).getD (breakList [] frames)
  | expectName frames, .endRecord => close (.record [] true) frames
  | expectName frames, .text key => expectColon [] key frames
  | expectName frames, _ => breakRecord [] frames
  | expectNextName fields frames, .text key => expectColon fields key frames
  | expectNextName fields frames, _ => breakRecord fields frames
  | expectColon fields key frames, .colon => expectValue (.record fields key :: frames)
  | expectColon fields _ frames, _ => breakRecord fields frames
  | after read (.list items :: frames), .comma => expectValue (.list (read :: items) :: frames)
  | after read (.list items :: frames), .endList =>
    close (.list (read :: items).reverse true) frames
  | after read (.list items :: frames), _ => breakList (read :: items) frames
  | after read (.record fields key :: frames), .comma =>
    expectNextName ((key, read) :: fields) frames
  | after read (.record fields key :: frames), .endRecord =>
    close (.record ((key, read) :: fields).reverse true) frames
  | after read (.record fields key :: frames), _ => breakRecord ((key, read) :: fields) frames
  | after read [], _ => broken read
  | broken read, _ => broken read

/-- The document at the end of the text, and whether the text is one whole document. -/
def finish : State → Document × Bool
  | expectValue frames => (tear .torn frames, false)
  | expectItem frames => (tear (inside frames (.list [] false)) frames, false)
  | expectName frames => (tear (inside frames (.record [] false)) frames, false)
  | expectNextName fields frames | expectColon fields _ frames =>
    (tear (inside frames (.record fields.reverse false)) frames, false)
  | after read [] => (read, true)
  | after read frames => (tear read frames, false)
  | broken read => (read, false)

end State

namespace Document

/-- The document that tokens are, and whether they are one whole document. -/
def ofTokens (tokens : List Token) : Document × Bool :=
  (tokens.foldl State.step (.expectValue [])).finish

/-- The document of a text, and whether the text is one whole document. -/
def ofText (text : String) : Document × Bool := ofTokens (tokens text.toList)

mutual

/-- Whether a document can be skipped: it was ended, and so was all inside it. -/
def isEnded : Document → Bool
  | torn => false
  | null | bool _ | number _ | text _ => true
  | list items ended => allEnded items && ended
  | record fields ended => fieldsEnded fields && ended
  | deep container => container.isEnded

/-- Whether all of some documents can be skipped. -/
def allEnded : List Document → Bool
  | [] => true
  | item :: rest => item.isEnded && allEnded rest

/-- Whether a record with these fields can be skipped; its names are skipped with it. -/
def fieldsEnded : List Field → Bool
  | [] => true
  | (_, value) :: rest => value.isEnded && fieldsEnded rest

end

/-- Whether a numeral is one that can be read. -/
def isReadable (n : Numeral) : Bool :=
  match n.number with
  | .tooLarge => false
  | _ => true

mutual

/-- Whether a document can be read as a whole: it can be skipped, no part is nested too deeply,
every text has a value and no numeral is too large. -/
def isWhole : Document → Bool
  | null | bool _ => true
  | number n => isReadable n
  | text value => value.isSome
  | list items ended => allWhole items && ended
  | record fields ended => fieldsWhole fields && ended
  | deep _ | torn => false

/-- Whether all of some documents can be read as a whole. -/
def allWhole : List Document → Bool
  | [] => true
  | item :: rest => item.isWhole && allWhole rest

/-- Whether all fields can be read as a whole. -/
def fieldsWhole : List Field → Bool
  | [] => true
  | (name, value) :: rest => name.isSome && value.isWhole && fieldsWhole rest

end

end Document

end PenMath.Json
