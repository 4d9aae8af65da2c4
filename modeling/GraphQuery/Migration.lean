import GraphQuery.Json.Decoder
import GraphQuery.Schema.Table

/-!
# Catalogs and missing indexes

The catalog of a table lists what the database has defined on it (`Catalog`). The plan of a migration is the list of
statements that define the declared indexes whose names the catalog does not have (`Migration.plan`): the index of the
table, if it covers columns, and then those of the fields in their order; of several indexes with one name the first
counts.
-/

namespace GraphQuery

/-- What is defined on a table, by name. -/
structure Catalog where
  events : Members Json
  fields : Members Json
  indexes : Members Json
  lives : Members Json
  tables : Members Json

namespace Catalog

/-- The catalog of a table on which nothing is defined. -/
def empty : Catalog := ⟨[], [], [], [], []⟩

instance : Inhabited Catalog := ⟨empty⟩

/-- An index of this name is defined. -/
def hasIndex (c : Catalog) (name : String) : Bool := c.indexes.contains name

/-- A catalog, any part of which may be missing. -/
def decoder : Decoder Catalog := fun j => do
  let ms ← Decoder.record ["events", "fields", "indexes", "lives", "tables"] j
  let part (name : String) := Decoder.orElse name [] Decoder.members ms
  return ⟨← part "events", ← part "fields", ← part "indexes", ← part "lives", ← part "tables"⟩

/-- The document of a catalog. -/
def toJson (c : Catalog) : Json :=
  .object [("events", .object c.events), ("fields", .object c.fields), ("indexes", .object c.indexes),
    ("lives", .object c.lives), ("tables", .object c.tables)]

end Catalog

namespace Migration

/-- The indexes that a table declares, by name, each with the statement that defines it. -/
def declaredIndexes (t : Table) : List (String × Fragment) :=
  let ofTable := (t.index.toList.filter fun i => !i.isEmpty).map fun i => (i.name, i.define t.name)
  let ofFields := t.fields.filterMap fun f => f.index.map fun i => (i.name, i.define t.name f.name)
  ofTable ++ ofFields

/-- The statements of the first index of each name that has not been seen. -/
def missing (seen : List String) : List (String × Fragment) → List Fragment
  | [] => []
  | (name, define) :: rest => if seen.contains name then missing seen rest else define :: missing (name :: seen) rest

/-- The statements that define the declared indexes that a catalog does not have. -/
def plan (t : Table) (c : Catalog) : List Fragment := missing (c.indexes.map (·.1)) (declaredIndexes t)

end Migration

end GraphQuery
