import GraphQuery.Json.Safe
import GraphQuery.Value

/-!
# Values as record content

The content of a value is the document that is stored for it (`Value.content`): what is absent is left out of arrays
and objects, numbers are safe, and a record link is its text. Only an absent value has no content.
-/

namespace GraphQuery.Value

mutual

/-- The document that is stored for a value. -/
def content : Value → Option Json
  | absent => none
  | null => some .null
  | bool b => some (.bool b)
  | number n => some (Json.safeNumber n)
  | string s => some (.string s)
  | link l => some (.string l.text)
  | array items => some (.array (contentItems items))
  | object members => some (.object (contentMembers members))

/-- The contents of the items that are there. -/
def contentItems : List Value → List Json
  | [] => []
  | v :: vs =>
    match v.content with
    | some j => j :: contentItems vs
    | none => contentItems vs

/-- The contents of the members that are there. -/
def contentMembers : List (String × Value) → List (String × Json)
  | [] => []
  | (k, v) :: ms =>
    match v.content with
    | some j => (k, j) :: contentMembers ms
    | none => contentMembers ms

end

theorem content_eq_none_iff {v : Value} : v.content = none ↔ v = absent := by
  cases v <;> simp [content]

end GraphQuery.Value
