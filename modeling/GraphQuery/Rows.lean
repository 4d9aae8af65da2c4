import GraphQuery.Json.Decoder

/-!
# Rows

The rows of a result are the items of an array, nothing for null, and one row for any other document. Of the results
of a query the last one counts (`Rows.lastOf`). Rows are decoded together: if one of them does not have the form that
is asked for, there is no decoded row at all (`Rows.decode`), and so no first one either (`Rows.first`).
-/

namespace GraphQuery

/-- The rows of a result. -/
structure Rows where
  value : Json

namespace Rows

/-- No rows. -/
def empty : Rows := ⟨.array []⟩

instance : Inhabited Rows := ⟨empty⟩

/-- The rows of the last result. -/
def lastOf (results : List Json) : Except QueryError Rows :=
  match results.getLast? with
  | some j => .ok ⟨j⟩
  | none => .error .emptyResponse

/-- The rows one by one. -/
def toList (r : Rows) : List Json :=
  match r.value with
  | .array rows => rows
  | .null => []
  | row => [row]

/-- The number of rows. -/
def length (r : Rows) : Nat :=
  match r.value with
  | .array rows => rows.length
  | .null => 0
  | _ => 1

/-- There are no rows. -/
def isEmpty (r : Rows) : Bool := r.length == 0

/-- The rows, each decoded. -/
def decode {α : Type} (d : Decoder α) (r : Rows) : Except QueryError (List α) := (r.toList.mapM d).mapError .mapping

/-- The first of the decoded rows. -/
def first {α : Type} (d : Decoder α) (r : Rows) : Except QueryError (Option α) := (r.decode d).map List.head?

/-- The rows are as many as they are counted. -/
theorem length_toList (r : Rows) : r.toList.length = r.length := by
  unfold toList length
  cases r.value <;> rfl

end Rows

end GraphQuery
