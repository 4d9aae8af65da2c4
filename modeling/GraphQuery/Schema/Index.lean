import GraphQuery.Fragment

/-!
# Indexes

An index of a table covers some of its columns and is named after the first and the last of them (`TableIndex.name`);
an index of a field has a name of its own. Both are defined by the same statement (`defineIndex`).
-/

namespace GraphQuery

/-- An index over columns of a table. -/
structure TableIndex where
  columns : List String
  suffix : Option String
  unique : Bool
  search : Bool
deriving DecidableEq, Repr

/-- An index over one field. -/
structure FieldIndex where
  name : String
  unique : Bool
  search : Bool
deriving DecidableEq, Repr

/-- The statement that defines an index. -/
def defineIndex (name table : String) (columns : List String) (unique search : Bool) : Fragment :=
  [.keyword .define, .keyword .index, .ident name, .keyword .on_, .keyword .table, .ident table, .keyword .columns] ++
    Fragment.commas (columns.map Fragment.ident) ++
    (if unique then [.keyword .unique] else []) ++
    (if search then [.keyword .search, .keyword .analyzer, .raw "ascii", .keyword .bm25, .keyword .highlights] else [])

namespace TableIndex

/-- The index covers no column. -/
def isEmpty (i : TableIndex) : Bool := i.columns.isEmpty

/-- The first column, the last column and the suffix, `idx` if there is none, with underscores between them. -/
def name (i : TableIndex) : String :=
  i.columns.headD "" ++ "_" ++ i.columns.getLastD "" ++ "_" ++ i.suffix.getD "idx"

/-- The statement that defines the index on a table. -/
def define (i : TableIndex) (table : String) : Fragment := defineIndex i.name table i.columns i.unique i.search

end TableIndex

/-- The statement that defines the index on a field of a table. -/
def FieldIndex.define (i : FieldIndex) (table field : String) : Fragment :=
  defineIndex i.name table [field] i.unique i.search

end GraphQuery
