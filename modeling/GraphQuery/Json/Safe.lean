import GraphQuery.Json
import GraphQuery.Number.Word

/-!
# Documents with safe numbers

A number that is equal to a safe integer becomes that integer, and any other number the string of its text
(`safeNumber`). With machine words this takes three steps, one for each way in which a number may be kept
(`safeNumber64`). A document is made safe by doing so everywhere in it (`Json.safe`).
-/

namespace GraphQuery.Json

/-- A safe integer, or the text of a number that is not equal to one. -/
def safeNumber (n : Number) : Json :=
  match n.safeInt? with
  | some i => number (.int i)
  | none => string n.text

/-- A safe integer, or the text of a number that is not equal to one, by the arithmetic of words and doubles: a number
that fits a signed word is safe by its absolute value, one that fits an unsigned word as it is, and a double if it is
whole and not too great. -/
def safeNumber64 (n : Number) : Json :=
  match n.toInt64? with
  | some w => if w.abs.toUInt64 ≤ Number.maxSafeWord then number n else string n.text
  | none =>
    match n.toUInt64? with
    | some w => if w ≤ Number.maxSafeWord then number n else string n.text
    | none =>
      match n.toDouble? with
      | some d =>
        if d.isWhole && Number.maxSafeDouble?.any d.absLe then number (.int d.toInt64.toInt) else string n.text
      | none => string n.text

mutual

/-- The document with each of its numbers made safe. -/
def safe : Json → Json
  | number n => safeNumber n
  | array items => array (safeItems items)
  | object members => object (safeMembers members)
  | null => null
  | bool b => bool b
  | string s => string s

/-- Each item made safe. -/
def safeItems : List Json → List Json
  | [] => []
  | j :: js => j.safe :: safeItems js

/-- The value of each member made safe. -/
def safeMembers : List (String × Json) → List (String × Json)
  | [] => []
  | (k, j) :: ms => (k, j.safe) :: safeMembers ms

end

end GraphQuery.Json
