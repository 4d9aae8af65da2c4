import GraphQuery.Error
import GraphQuery.Json
import GraphQuery.Link

/-!
# Decoding documents

A decoder asks a document for a value of some type and says what is wrong with it otherwise. Decoding is strict: a
number is no string, and an integer is not read from a number with a point. A record of named members is read from an
object, whose other members do not matter, or from an array of the members in order (`Decoder.record`). The document of
a record link is its text (`Link.toJson`).
-/

namespace GraphQuery

/-- How a value is read from a document. -/
abbrev Decoder (α : Type) := Json → Except DecodeError α

namespace Json

/-- What a document is, in the words of an error. -/
def description : Json → String
  | null => "null"
  | bool b => "boolean \x60" ++ boolText b ++ "\x60"
  | number (.int i) => "integer \x60" ++ Number.intText i ++ "\x60"
  | number (.float d) => "floating point \x60" ++ (Number.float d).text ++ "\x60"
  | string s => "string " ++ Text.doubleQuoted s
  | array _ => "sequence"
  | object _ => "map"

end Json

/-- The document of a link. -/
def Link.toJson (l : Link) : Json := .string l.text

namespace Decoder

variable {α : Type}

/-- The document itself. -/
def json : Decoder Json := .ok

/-- A string. -/
def string : Decoder String
  | .string s => .ok s
  | j => .error (.wrongType j.description "a string")

/-- A truth value. -/
def bool : Decoder Bool
  | .bool b => .ok b
  | j => .error (.wrongType j.description "a boolean")

/-- An integer between two bounds. -/
def int (least greatest : Int) : Decoder Int
  | .number (.int i) => if least ≤ i ∧ i ≤ greatest then .ok i else .error (.outOfRange (Number.intText i))
  | j => .error (.wrongType j.description "an integer")

/-- A signed integer of 64 bits. -/
def int64 : Decoder Int := int (-Int.pow 2 63) (Int.pow 2 63 - 1)

/-- A natural number of one byte. -/
def byte : Decoder Int := int 0 255

/-- A record link, written as a string. -/
def link : Decoder Link
  | .string s =>
    match Link.parse? s with
    | some l => .ok l
    | none => .error (.notALink s)
  | j => .error (.wrongType j.description "a record link of the form table:id")

/-- Null, or a value. -/
def optional (d : Decoder α) : Decoder (Option α)
  | .null => .ok none
  | j => (d j).map some

/-- An array of values. -/
def list (d : Decoder α) : Decoder (List α)
  | .array items => items.mapM d
  | j => .error (.wrongType j.description "a sequence")

/-- An object with any keys. -/
def members : Decoder (Members Json)
  | .object ms => .ok ms
  | j => .error (.wrongType j.description "a map")

/-- One of some names, written as a string or as an object with null under the name. -/
def variant (read : String → Option α) : Decoder α
  | .string s => of s
  | .object [(s, .null)] => of s
  | j => .error (.wrongType j.description "a variant")
where
  /-- The variant with a name. -/
  of (s : String) : Except DecodeError α :=
    match read s with
    | some a => .ok a
    | none => .error (.unknownVariant s)

/-! ## Records of named members -/

/-- The members of a record that a document gives: by their names in an object, by their places in an array. -/
def record (names : List String) : Decoder (List (String × Option Json))
  | .object ms => .ok (names.map fun n => (n, Members.get? ms n))
  | .array items =>
    if items.length ≤ names.length then .ok (names.mapIdx fun i n => (n, items[i]?))
    else .error (.wrongLength items.length)
  | j => .error (.wrongType j.description "a record")

/-- The document of a member. -/
def found (name : String) (ms : List (String × Option Json)) : Option Json := (ms.lookup name).join

/-- A member that has to be there. -/
def required (name : String) (d : Decoder α) (ms : List (String × Option Json)) : Except DecodeError α :=
  match found name ms with
  | some j => d j
  | none => .error (.missingMember name)

/-- A member with a value to take where it is missing. -/
def orElse (name : String) (default : α) (d : Decoder α) (ms : List (String × Option Json)) : Except DecodeError α :=
  match found name ms with
  | some j => d j
  | none => .ok default

end Decoder

end GraphQuery
