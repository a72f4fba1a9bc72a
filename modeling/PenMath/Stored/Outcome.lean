import PenMath.Json.Record
import PenMath.Json.Value
import PenMath.Session.Basic

/-!
# Stored outcomes

Requests and declarations are records with a tag that says which of them they are; the tag is
written first and may be read anywhere. The names that a declaration reads are a set: they are
written in ascending order and may be read in any.
-/

namespace PenMath

open Json

/-! ## Writing -/

/-- A set of names to be stored. -/
def NameSet.stored (s : NameSet) : Value := .list (s.toList.map .text)

/-- A declaration to be stored. -/
def Declaration.stored : Declaration → Value
  | constant name body dependencies =>
    .record [("kind", .text "constant"), ("name", .text name), ("body", .text body),
      ("dependencies", dependencies.stored)]
  | function name parameter body dependencies =>
    .record [("kind", .text "function"), ("name", .text name), ("parameter", .text parameter),
      ("body", .text body), ("dependencies", dependencies.stored)]

/-- A request to be stored. -/
def Request.stored : Request → Value
  | evaluate expression =>
    .record [("request", .text "evaluate"), ("expression", .text expression)]
  | execute statement => .record [("request", .text "execute"), ("statement", .text statement)]
  | declare declaration =>
    .record [("request", .text "declare"), ("declaration", declaration.stored)]
  | solve unknown residual =>
    .record [("request", .text "solve"), ("unknown", .text unknown), ("residual", .text residual)]

/-- A propagation to be stored. -/
def Propagation.stored (p : Propagation) : Value :=
  .record [("invalidated", .list (p.invalidated.map .text)),
    ("notified", .list (p.notified.map fun watcher => .natural watcher.toNat))]

/-- An outcome to be stored. -/
def Outcome.stored (o : Outcome) : Value :=
  .record [("request", o.request.stored),
    ("propagation", (o.propagation.map (·.stored)).getD .null)]

/-! ## Reading -/

/-- Reads a set of names. -/
def NameSet.ofStored : Reader NameSet := fun document =>
  ((Reader.list Reader.text) document).map NameSet.ofList

namespace Declaration

/-- The fields of a constant. -/
def constantFields : Fields (Option String × Option String × Option NameSet) :=
  (Fields.single "name" Reader.text).both
    ((Fields.single "body" Reader.text).both (.single "dependencies" NameSet.ofStored))

/-- The fields of a function. -/
def functionFields : Fields (Option String × Option String × Option String × Option NameSet) :=
  (Fields.single "name" Reader.text).both ((Fields.single "parameter" Reader.text).both
    ((Fields.single "body" Reader.text).both (.single "dependencies" NameSet.ofStored)))

/-- Reads a declaration, which may be a field of a tagged record. -/
def ofStored (isField : Bool) : Reader Declaration :=
  .tagged "kind" isField [
    ("constant", constantFields.read fun (name, body, dependencies) => do
      return constant (← required name) (← required body) (← required dependencies)),
    ("function", functionFields.read fun (name, parameter, body, dependencies) => do
      return function (← required name) (← required parameter) (← required body)
        (← required dependencies))]

end Declaration

/-- Reads a request. -/
def Request.ofStored : Reader Request :=
  .tagged "request" false [
    ("evaluate", (Fields.single "expression" Reader.text).read fun expression => do
      return evaluate (← required expression)),
    ("execute", (Fields.single "statement" Reader.text).read fun statement => do
      return execute (← required statement)),
    ("declare", (Fields.single "declaration" (Declaration.ofStored true)).read fun declaration => do
      return declare (← required declaration)),
    ("solve", ((Fields.single "unknown" Reader.text).both (.single "residual" Reader.text)).read
      fun (unknown, residual) => do return solve (← required unknown) (← required residual))]

/-- Reads the number of a watcher. -/
def WatcherId.ofStored : Reader WatcherId := fun document =>
  (Reader.natural document).map UInt64.ofNat

namespace Propagation

/-- The fields of a propagation. -/
def fields : Fields (Option (List String) × Option (List WatcherId)) :=
  (Fields.single "invalidated" (Reader.list Reader.text)).both
    (.single "notified" (Reader.list WatcherId.ofStored))

/-- Reads a propagation. -/
def ofStored : Reader Propagation := fields.read fun (invalidated, notified) => do
  return ⟨← required invalidated, ← required notified⟩

end Propagation

namespace Outcome

/-- The fields of an outcome. -/
def fields : Fields (Option Request × Option (Option Propagation)) :=
  (Fields.single "request" Request.ofStored).both
    (.single "propagation" (Reader.option Propagation.ofStored))

/-- Reads an outcome. A missing propagation is none. -/
def ofStored : Reader Outcome := fields.read fun (request, propagation) => do
  return ⟨← required request, propagation.join⟩

end Outcome

end PenMath
