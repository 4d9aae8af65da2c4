import GraphQuery.Error
import GraphQuery.Json

/-!
# Encoding data

Data of a program (`Datum`) is richer than JSON: it has numbers of any size, bytes, variants, and keys of several
kinds. `Datum.toJson` gives its document, or says why there is none: an integer has to fit into the signed or unsigned
64-bit range, and a key has to be a string, a truth value, an integer or a finite number.
-/

namespace GraphQuery

/-- Data of a program. -/
inductive Datum
  | unit
  | bool (b : Bool)
  | int (i : Int)
  | float (x : Floating)
  | string (s : String)
  | bytes (bs : List UInt8)
  | json (j : Json)
  | list (items : List Datum)
  | map (pairs : List (Datum × Datum))
  | record (members : List (String × Datum))
  | variant (name : String) (payload : Option Datum)

namespace Datum

/-- The document of a floating-point number; one that is not finite is null. -/
def floating : Floating → Json
  | .finite d => .number (.float d)
  | .infinite _ => .null
  | .nan => .null

/-- The text of a key. -/
def key : Datum → Except EncodeError String
  | bool b => .ok (Json.boolText b)
  | int i => .ok (Number.intText i)
  | float (.finite d) => .ok (Number.float d).text
  | float _ => .error .keyNotFinite
  | string s => .ok s
  | variant name none => .ok name
  | _ => .error .keyNotString

mutual

/-- The document of some data. -/
def toJson : Datum → Except EncodeError Json
  | unit => .ok .null
  | bool b => .ok (.bool b)
  | int i => if Number.inIntegerRange i then .ok (.int i) else .error .numberOutOfRange
  | float x => .ok (floating x)
  | string s => .ok (.string s)
  | bytes bs => .ok (.array (bs.map fun b => .int b.toNat))
  | json j => .ok j
  | list items => (itemsToJson items).map .array
  | map pairs => (pairsToJson pairs).map .ofMembers
  | record members => (membersToJson members).map .ofMembers
  | variant name none => .ok (.string name)
  | variant name (some payload) => payload.toJson.map fun j => .object [(name, j)]

/-- The documents of the items of a list. -/
def itemsToJson : List Datum → Except EncodeError (List Json)
  | [] => .ok []
  | d :: ds => do return (← d.toJson) :: (← itemsToJson ds)

/-- The members of a map, a pair after the other. -/
def pairsToJson : List (Datum × Datum) → Except EncodeError (List (String × Json))
  | [] => .ok []
  | (k, d) :: ps => do return (← key k, ← d.toJson) :: (← pairsToJson ps)

/-- The members of a record. -/
def membersToJson : List (String × Datum) → Except EncodeError (List (String × Json))
  | [] => .ok []
  | (k, d) :: ms => do return (k, ← d.toJson) :: (← membersToJson ms)

end

end Datum

end GraphQuery
