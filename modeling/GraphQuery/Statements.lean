import GraphQuery.Fragment

/-!
# Clauses and statements

The clauses of a select, and the statements that write, delete, relate and inspect records. A target is a whole table
or one of its records (`target`).
-/

namespace GraphQuery.Statements

/-- The record of a table with a key, or the whole table without one. -/
def target (table : String) : Option String → Fragment
  | some key => Fragment.link (.of table key)
  | none => Fragment.ident table

/-- Fields to be selected, as plain values if so asked. -/
def selectClause (fields : Fragment) (value : Bool) : Fragment :=
  .keyword .select :: (if value then [.keyword .value] else []) ++ fields

/-- Where to select from. -/
def fromClause (target : Fragment) : Fragment := .keyword .from_ :: target

/-- A condition. -/
def whereClause (condition : Fragment) : Fragment := .keyword .where_ :: condition

/-- Links to be replaced by their records. -/
def fetchClause (fields : List String) : Fragment := .keyword .fetch :: Fragment.commas (fields.map Fragment.raw)

/-- A new record of a table. -/
def create (table : String) (content : Json) : Fragment :=
  [.keyword .create, .ident table, .keyword .content] ++ Fragment.json content

/-- New records of a table. -/
def insert (table : String) (data : Json) : Fragment :=
  [.keyword .insert, .keyword .into, .ident table] ++ Fragment.json data

/-- What an update does with its data. -/
inductive UpdateMode
  | content
  | merge
  | patch
deriving DecidableEq, Repr

/-- The keyword of an update mode. -/
def UpdateMode.keyword : UpdateMode → Keyword
  | content => .content
  | merge => .merge
  | patch => .patch

/-- New data for a target. -/
def update (target : Fragment) (mode : UpdateMode) (data : Json) : Fragment :=
  .keyword .update :: target ++ .keyword mode.keyword :: Fragment.json data

/-- The end of a target. -/
def delete (target : Fragment) : Fragment := .keyword .delete :: target

/-- The edge of a relation: a record of the edge table, or the table itself. -/
def edge (table : String) : Option String → String
  | some key => (Link.of table key).text
  | none => table

/-- A new edge between two records. -/
def relate (source : Link) (edgeTable : String) (edgeKey : Option String) (goal : Link) : Fragment :=
  [.keyword .relate, .raw (source.text ++ "->" ++ edge edgeTable edgeKey ++ "->" ++ goal.text)]

/-- The catalog of a table. -/
def infoForTable (table : String) : Fragment := [.keyword .info, .keyword .for_, .keyword .table, .ident table]

/-- Changes of a table as they happen, as whole records or as differences. -/
def liveSelect (table : String) (diff : Bool) : Fragment :=
  [.keyword .live, .keyword .select, if diff then .keyword .diff else .mark .star, .keyword .from_, .ident table]

end GraphQuery.Statements
