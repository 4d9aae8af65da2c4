import GraphQuery.Schema.Index
import GraphQuery.Schema.Model
import GraphQuery.Schema.Shape

/-!
# Fields and relations

A field of a model has a name, a kind, and perhaps a shape and an index. A relation follows an edge table to a model,
or selects something from the edges, or stops at them.
-/

namespace GraphQuery

/-- Where a relation goes on after its edges. -/
inductive Tail
  | edges
  | target (direction : Direction) (model : Model)
  | selector (text : String)
deriving DecidableEq, Repr

/-- A relation: the direction and the model of its edges, and where it goes on from them. -/
structure Relation where
  direction : Direction
  via : Model
  tail : Tail
deriving DecidableEq, Repr

namespace Relation

/-- The relation that stops at its edges. -/
def along (direction : Direction) (via : Model) : Relation := ⟨direction, via, .edges⟩

/-- The relation that goes on to a model. -/
def towards (r : Relation) (direction : Direction) (model : Model) : Relation :=
  { r with tail := .target direction model }

/-- The relation that selects something from its edges. -/
def select (r : Relation) (selector : String) : Relation := { r with tail := .selector selector }

end Relation

/-- What a field holds. -/
inductive FieldKind
  | scalar (type : Scalar)
  | object
  | array
  | record (model : Model)
  | relation (r : Relation)
  | id
deriving DecidableEq, Repr

/-- A field of a model. -/
structure Field where
  name : String
  kind : FieldKind
  shape : Option Shape
  index : Option FieldIndex

namespace Field

/-- A field of some kind without shape and index. -/
def plain (name : String) (kind : FieldKind) : Field := ⟨name, kind, none, none⟩

/-- The field that holds the record link itself. -/
def id (name : String) : Field := plain name .id

/-- The relation that the field stands for. -/
def relation? (f : Field) : Option Relation :=
  match f.kind with
  | .relation r => some r
  | _ => none

/-- The shapes of two fields are both missing or the same. -/
def sameShape : Option Shape → Option Shape → Bool
  | none, none => true
  | some s, some t => ShapeType.sameMembers s t
  | _, _ => false

/-- Two fields agree in all they say. -/
def same (f g : Field) : Bool :=
  f.name == g.name && f.kind == g.kind && sameShape f.shape g.shape && f.index == g.index

end Field

end GraphQuery
