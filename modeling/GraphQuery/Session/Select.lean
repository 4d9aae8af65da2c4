import GraphQuery.Fragment.Render
import GraphQuery.Schema.Scope
import GraphQuery.Statements

/-!
# Selects

A select asks for all fields of a model or for some paths, from the whole table or from one record, under a condition,
with links fetched. It may ask for plain values, and then the selection has to be exactly one field other than all of
them.
-/

namespace GraphQuery

/-- What a select asks for. -/
inductive Selection
  | all
  | paths (ps : List String)
deriving DecidableEq, Repr

namespace Selection

/-- The selection of one key; a star is all fields. -/
def ofKey (key : String) : Selection := if key = "*" then all else paths [key]

/-- The fragment of the selected fields. -/
def resolve (scope : Scope) : Selection → ExceptT QueryError (StateM Registry) Fragment
  | all => scope.resolveAll
  | paths ps => scope.resolveMany ps

/-- The number of selected fields; a star counts as all of them. -/
def count (scope : Scope) : Selection → Nat
  | all => scope.table.fields.length
  | paths ps => ps.foldl (fun n p => n + if p = "*" then scope.table.fields.length else 1) 0

/-- All fields are selected at once somewhere. -/
def hasWildcard : Selection → Bool
  | all => true
  | paths ps => ps.contains "*"

end Selection

/-- A select over the table of a model. -/
structure Select where
  selection : Selection
  key : Option String
  value : Bool
  condition : Option Fragment
  fetch : List String

namespace Select

/-- The select of some fields from the whole table. -/
def of (selection : Selection) : Select := ⟨selection, none, false, none, []⟩

/-- The fragment of a select in the scope of its model. -/
def toFragment (q : Select) (scope : Scope) : ExceptT QueryError (StateM Registry) Fragment := do
  let count := q.selection.count scope
  if q.value && (q.selection.hasWildcard || count != 1) then throw (.invalidSelection count)
  let fields ← q.selection.resolve scope
  return Statements.selectClause fields q.value ++ Statements.fromClause (Statements.target scope.table.name q.key) ++
    (q.condition.map Statements.whereClause).getD [] ++ (if q.fetch.isEmpty then [] else Statements.fetchClause q.fetch)

end Select

end GraphQuery
