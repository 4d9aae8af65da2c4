import GraphQuery.Value

/-!
# Written values

The literal form of a value (`Value.literal`) writes strings as JSON does, record links by their text, and members
only where they are there. It is the form of values inside of arrays and objects. A string that stands alone is
written differently in two places: between single quotes inside of a statement (`Value.inline`), and as a record link
in the line of a binding if it is the text of one (`Value.bound`).
-/

namespace GraphQuery.Value

mutual

/-- The literal form of a value. -/
def literal : Value → String
  | absent => "NONE"
  | null => "NULL"
  | bool b => Json.boolText b
  | number n => n.text
  | string s => Text.doubleQuoted s
  | link l => l.text
  | array items => "[" ++ ",".intercalate (literalItems items) ++ "]"
  | object members => "\x7b" ++ ",".intercalate (literalMembers members) ++ "\x7d"

/-- The literal forms of the items of an array. -/
def literalItems : List Value → List String
  | [] => []
  | v :: vs => v.literal :: literalItems vs

/-- The literal forms of the members that are there: the key, a colon and the value. -/
def literalMembers : List (String × Value) → List String
  | [] => []
  | (k, v) :: ms =>
    if v.isAbsent then literalMembers ms
    else (Text.doubleQuoted k ++ ":" ++ v.literal) :: literalMembers ms

end

/-- The form of a value inside of a statement. -/
def inline : Value → String
  | string s => Text.singleQuoted s
  | v => v.literal

/-- The form of a value in the line of a binding. -/
def bound : Value → String
  | string s => if Link.isText s then s else Text.doubleQuoted s
  | v => v.literal

end GraphQuery.Value
