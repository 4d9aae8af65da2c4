import GraphQuery.Members
import GraphQuery.Number
import GraphQuery.Text.Quoted

/-!
# JSON documents

Documents (`Json`) and their compact text (`Json.text`): no blanks, members in the order in which the document holds
them, and strings with the shortest escapes. A document keeps the members of an object in the order of their keys when
it is built with `Json.ofMembers`.
-/

namespace GraphQuery

/-- A JSON document. -/
inductive Json
  | null
  | bool (b : Bool)
  | number (n : Number)
  | string (s : String)
  | array (items : List Json)
  | object (members : List (String × Json))

namespace Json

instance : Inhabited Json := ⟨null⟩

/-- The object with these members; of several with one key the last counts. -/
def ofMembers (pairs : List (String × Json)) : Json := object (Members.ofList pairs)

/-- An integer. -/
def int (i : Int) : Json := number (.int i)

/-- A list of strings. -/
def strings (ss : List String) : Json := array (ss.map string)

/-- The written form of a truth value. -/
def boolText (b : Bool) : String := if b then "true" else "false"

mutual

/-- The compact text of a document. -/
def text : Json → String
  | null => "null"
  | bool b => boolText b
  | number n => n.text
  | string s => Text.doubleQuoted s
  | array items => "[" ++ ",".intercalate (itemTexts items) ++ "]"
  | object members => "\x7b" ++ ",".intercalate (memberTexts members) ++ "\x7d"

/-- The texts of the items of an array. -/
def itemTexts : List Json → List String
  | [] => []
  | j :: js => j.text :: itemTexts js

/-- The texts of the members of an object: the key, a colon and the value. -/
def memberTexts : List (String × Json) → List String
  | [] => []
  | (k, j) :: ms => (Text.doubleQuoted k ++ ":" ++ j.text) :: memberTexts ms

end

end Json

end GraphQuery
