/-!
# Scalar types and edge directions
-/

namespace GraphQuery

/-- The type of a field that is not described further. -/
inductive Scalar
  | any | string | number | int | float | decimal | bool | datetime | duration | uuid | bytes | object | array
deriving DecidableEq, Repr

namespace Scalar

/-- The keyword of a type. -/
def text : Scalar → String
  | any => "any" | string => "string" | number => "number" | int => "int" | float => "float" | decimal => "decimal"
  | bool => "bool" | datetime => "datetime" | duration => "duration" | uuid => "uuid" | bytes => "bytes"
  | object => "object" | array => "array"

/-- All types. -/
def all : List Scalar :=
  [any, string, number, int, float, decimal, bool, datetime, duration, uuid, bytes, object, array]

/-- The type with a keyword. -/
def ofText? (s : String) : Option Scalar := all.find? fun t => t.text == s

/-- The values of the type have parts. -/
def isContainer : Scalar → Bool
  | object | array => true
  | _ => false

end Scalar

/-- The direction in which an edge is followed. -/
inductive Direction
  | outgoing
  | incoming
deriving DecidableEq, Repr

namespace Direction

/-- The arrow of a direction. -/
def text : Direction → String
  | outgoing => "->"
  | incoming => "<-"

/-- The other direction. -/
def reverse : Direction → Direction
  | outgoing => incoming
  | incoming => outgoing

/-- The direction of an arrow. -/
def ofText? (s : String) : Option Direction := [outgoing, incoming].find? fun d => d.text == s

end Direction

end GraphQuery
