import GraphQuery.Error
import GraphQuery.Schema.Registry
import GraphQuery.Text.Split

/-!
# Resolving field paths

A scope is a model's table among the models of a schema. In a scope a path becomes a fragment (`Scope.resolve`): the
path `*` is the list of all fields, a path to a relation its traversal under the name of the field, and any other path
stands for itself. A path is a field name, perhaps with further names after dots, and perhaps with a key after a
colon; only the field name is looked up.

Traversals name the tables of other models, so resolving may make entries in the registry.
-/

namespace GraphQuery

/-- A path in a model: the text before the first colon, and the key after it. -/
structure FieldPath where
  name : String
  key : Option String

namespace FieldPath

/-- The path that a text stands for. -/
def ofText (s : String) : FieldPath :=
  let (name, key) := Text.cut ':' s
  ⟨name, key⟩

/-- The field name: what stands before the first dot. -/
def head (p : FieldPath) : String := (Text.cut '.' p.name).1

end FieldPath

/-- A model's table among the models of a schema. -/
structure Scope where
  schema : Schema
  table : Table

namespace Scope

/-- The scope of a model, whose entry is made if it is missing. -/
def enter (schema : Schema) (m : Model) (r : Registry) : Scope × Registry :=
  let (table, r) := r.ensure schema m
  (⟨schema, table⟩, r)

variable (s : Scope)

/-- The name of a model's table. -/
def tableOf (m : Model) : StateM Registry String := do
  let table ← modifyGet (Registry.ensure s.schema m)
  return table.name

/-- The edges of a relation, those with a key only if there is one, and where the relation goes on from them. -/
def traversal (rel : Relation) (key : Option String) : StateM Registry String := do
  let via ← s.tableOf rel.via
  let edges := rel.direction.text ++ via ++ (key.map (":" ++ ·)).getD ""
  match rel.tail with
  | .edges => return edges
  | .selector text => return edges ++ text
  | .target direction model => return edges ++ direction.text ++ (← s.tableOf model)

/-- A field as it is listed: a relation by its traversal under the name of the field, any other field by its name. -/
def listed (f : Field) : StateM Registry Fragment := do
  match f.relation? with
  | some rel => return (Fragment.raw (← s.traversal rel none)).named f.name
  | none => return Fragment.raw f.name

/-- All fields. -/
def resolveAll : StateM Registry Fragment := do
  return Fragment.commas (← s.table.fields.mapM s.listed)

/-- The fragment of a path. -/
def resolve (path : String) : ExceptT QueryError (StateM Registry) Fragment := do
  if path = "*" then return ← s.resolveAll
  let p := FieldPath.ofText path
  match s.table.field? p.head with
  | none => throw (.fieldNotFound s.table.name p.head)
  | some f =>
    match f.relation? with
    | some rel => if p.head = p.name then return (Fragment.raw (← s.traversal rel p.key)).named f.name
                  else return Fragment.raw path
    | none => return Fragment.raw path

/-- The fragments of paths with commas between them, up to the first path that fails. -/
def resolveMany (paths : List String) : ExceptT QueryError (StateM Registry) Fragment := do
  return Fragment.commas (← paths.mapM s.resolve)

/-- The name of the table. -/
def tableName : Fragment := Fragment.ident s.table.name

/-- The record of the table with a key. -/
def record (key : String) : Fragment := Fragment.link (.of s.table.name key)

end Scope

end GraphQuery
