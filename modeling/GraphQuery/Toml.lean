import GraphQuery.Json
import GraphQuery.Toml.Scalar

/-!
# TOML documents

A document is a table of values (`Toml.Value`). It is put together from the lines of a text in a tree of nodes that
remembers how each table came about (`Toml.Node`): by its own header, by the header of a table inside of it, or by a
dotted key. Each key and each table is defined once: a header may not define a table that has a header or came from a
dotted key (`Node.define`), and a dotted key may not add to a table that has a header (`Node.insert`).
-/

namespace GraphQuery.Toml

/-- A value of a document. -/
inductive Value
  | string (s : String)
  | scalar (s : Scalar)
  | array (items : List Value)
  | table (members : List (String × Value))

instance : Inhabited Value := ⟨.table []⟩

/-- How a table came about. -/
inductive Origin
  | header
  | innerHeader
  | dottedKey
deriving DecidableEq

/-- What stands under a key: a value, a table that may grow, or an array of tables with the newest one first. -/
inductive Node
  | value (v : Value)
  | table (origin : Origin) (members : List (String × Node))
  | tables (newestFirst : List (List (String × Node)))

/-- What stands under the keys of a table. -/
abbrev Nodes := List (String × Node)

namespace Node

/-- The nodes with another node under a key, in its old place or at the end. -/
def put (key : String) (n : Node) : Nodes → Nodes
  | [] => [(key, n)]
  | (k, m) :: rest => if k = key then (k, n) :: rest else (k, m) :: put key n rest

/-- The nodes after a change of the table that a path of headers leads to; tables on the way are made where they are
missing. -/
def change (f : Nodes → Option Nodes) : List String → Nodes → Option Nodes
  | [], ns => f ns
  | key :: path, ns =>
    match ns.lookup key with
    | none => (change f path []).map fun inner => put key (table .innerHeader inner) ns
    | some (table origin inner) => (change f path inner).map fun inner => put key (table origin inner) ns
    | some (tables (newest :: older)) =>
      (change f path newest).map fun newest => put key (tables (newest :: older)) ns
    | some _ => none

/-- The nodes with a value under a dotted key. -/
def insert (v : Value) : List String → Nodes → Option Nodes
  | [], _ => none
  | [key], ns => if (ns.lookup key).isSome then none else some (put key (value v) ns)
  | key :: next :: path, ns =>
    match ns.lookup key with
    | none => (insert v (next :: path) []).map fun inner => put key (table .dottedKey inner) ns
    | some (table origin inner) =>
      if origin = .dottedKey ∨ (origin = .innerHeader ∧ path ≠ []) then
        (insert v (next :: path) inner).map fun inner => put key (table origin inner) ns
      else none
    | some _ => none

/-- The nodes with the table of a header. -/
def define (key : String) (ns : Nodes) : Option Nodes :=
  match ns.lookup key with
  | none => some (put key (table .header []) ns)
  | some (table .innerHeader inner) => some (put key (table .header inner) ns)
  | some _ => none

/-- The nodes with one more table in an array of tables. -/
def append (key : String) (ns : Nodes) : Option Nodes :=
  match ns.lookup key with
  | none => some (put key (tables [[]]) ns)
  | some (tables older) => some (put key (tables ([] :: older)) ns)
  | some _ => none

mutual

/-- The value of a node. -/
def toValue : Node → Value
  | value v => v
  | table _ members => .table (toValues members)
  | tables newestFirst => .array (toTables newestFirst).reverse

/-- The values of the nodes of a table. -/
def toValues : List (String × Node) → List (String × Value)
  | [] => []
  | (k, n) :: ns => (k, n.toValue) :: toValues ns

/-- The values of the tables of an array. -/
def toTables : List (List (String × Node)) → List Value
  | [] => []
  | ns :: rest => .table (toValues ns) :: toTables rest

end

end Node

namespace Value

/-- The document of an unquoted value. What JSON has no form for, a date or a number that is not finite, is an object
that holds a text. -/
def ofScalar : Scalar → Json
  | .bool b => .bool b
  | .int i => .number (.int i)
  | .float (.finite d) => .number (.float d)
  | .float (.infinite negative) => .object [("float", .string (if negative then "-inf" else "inf"))]
  | .float .nan => .object [("float", .string "nan")]
  | .datetime text => .object [("datetime", .string text)]

mutual

/-- The document of a value. -/
def toJson : Value → Json
  | string s => .string s
  | scalar s => ofScalar s
  | array items => .array (itemsToJson items)
  | table members => .ofMembers (membersToJson members)

/-- The documents of the items of an array. -/
def itemsToJson : List Value → List Json
  | [] => []
  | v :: vs => v.toJson :: itemsToJson vs

/-- The documents of the members of a table. -/
def membersToJson : List (String × Value) → List (String × Json)
  | [] => []
  | (k, v) :: ms => (k, v.toJson) :: membersToJson ms

end

end Value

end GraphQuery.Toml
