import GraphQuery.Json
import GraphQuery.Link

/-!
# Values of the query language

A value is a JSON document with two more leaves: a record link, and the value that is not there (`Value.absent`),
which is not the same as null. Documents are values (`Value.ofJson`), and so are numbers read from text: one that is
not finite is null (`Value.ofFloating`).
-/

namespace GraphQuery

/-- A value of the query language. -/
inductive Value
  | absent
  | null
  | bool (b : Bool)
  | number (n : Number)
  | string (s : String)
  | link (l : Link)
  | array (items : List Value)
  | object (members : List (String × Value))

namespace Value

instance : Inhabited Value := ⟨absent⟩

/-- The value is not there. -/
def isAbsent : Value → Bool
  | absent => true
  | _ => false

/-- An integer. -/
def int (i : Int) : Value := number (.int i)

/-- The value of a floating-point number; infinities and what is no number are null. -/
def ofFloating : Floating → Value
  | .finite d => number (.float d)
  | .infinite _ => null
  | .nan => null

/-- The value of something that may not be there. -/
def ofOption {α : Type} (f : α → Value) : Option α → Value
  | some a => f a
  | none => absent

/-- The object with these members; of several with one key the last counts. -/
def ofMembers (pairs : List (String × Value)) : Value := object (Members.ofList pairs)

mutual

/-- The value of a document. -/
def ofJson : Json → Value
  | .null => null
  | .bool b => bool b
  | .number n => number n
  | .string s => string s
  | .array items => array (ofJsonItems items)
  | .object members => object (ofJsonMembers members)

/-- The values of the items of an array. -/
def ofJsonItems : List Json → List Value
  | [] => []
  | j :: js => ofJson j :: ofJsonItems js

/-- The values of the members of an object. -/
def ofJsonMembers : List (String × Json) → List (String × Value)
  | [] => []
  | (k, j) :: ms => (k, ofJson j) :: ofJsonMembers ms

end

end Value

end GraphQuery
