import GraphQuery.Connection.Uuid
import GraphQuery.Json.Decoder

/-!
# Notifications

A live query notifies of each change with its identifier, what happened, and the record or difference
(`Notification`).
-/

namespace GraphQuery

/-- What happened to a record, or to the live query itself. -/
inductive Action
  | create | update | delete | close
deriving DecidableEq, Repr

/-- The name of an action. -/
def Action.text : Action → String
  | create => "CREATE" | update => "UPDATE" | delete => "DELETE" | close => "CLOSE"

/-- The action with a name. -/
def Action.ofText? (s : String) : Option Action :=
  [Action.create, .update, .delete, .close].find? fun a => a.text == s

/-- An identifier, written as a string. -/
def Decoder.uuid : Decoder Uuid
  | .string s =>
    match Uuid.parse? s with
    | some u => .ok u
    | none => .error (.notAUuid s)
  | j => .error (.wrongType j.description "an identifier")

/-- One change that a live query tells of. -/
structure Notification where
  id : Uuid
  action : Action
  result : Json

namespace Notification

/-- The document of a notification, its members in the order of their declaration. -/
def toWire (n : Notification) : Json :=
  .object [("id", .string n.id.text), ("action", .string n.action.text), ("result", n.result)]

/-- A notification, of which nothing may be missing. -/
def decoder : Decoder Notification := fun j => do
  let ms ← Decoder.record ["id", "action", "result"] j
  return {
    id := ← Decoder.required "id" Decoder.uuid ms
    action := ← Decoder.required "action" (Decoder.variant Action.ofText?) ms
    result := ← Decoder.required "result" Decoder.json ms }

end Notification

end GraphQuery
