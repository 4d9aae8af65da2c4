import GraphQuery.Json.Reader

/-!
# Identifiers of live queries

A live query is known by a number of 128 bits, written as thirty-two hexadecimal digits in groups of 8, 4, 4, 4 and 12
with hyphens between them (`Uuid.text`). It is read in this form, also between braces or after `urn:uuid:`, and as the
digits alone (`Uuid.parse?`).
-/

namespace GraphQuery

/-- A number of 128 bits. -/
structure Uuid where
  value : BitVec 128
deriving DecidableEq

namespace Uuid

/-- The number zero. -/
def nil : Uuid := ⟨0⟩

/-- The lengths of the groups of digits. -/
def groups : List Nat := [8, 4, 4, 4, 12]

/-- The last `n` hexadecimal digits of a number, the most significant first. -/
def digits (value : Nat) : Nat → List Char
  | 0 => []
  | n + 1 => digits (value / 16) n ++ [Nat.digitChar (value % 16)]

/-- Digits in groups with hyphens between them. -/
def hyphenate : List Nat → List Char → List Char
  | [], ds => ds
  | [_], ds => ds
  | n :: ns, ds => ds.take n ++ '-' :: hyphenate ns (ds.drop n)

/-- Thirty-two lower-case digits in groups with hyphens between them. -/
def text (u : Uuid) : String := String.ofList (hyphenate groups (digits u.value.toNat 32))

/-- The digits of groups with hyphens between them. -/
def unhyphenate? : List Nat → List Char → Option (List Char)
  | [], s => if s.isEmpty then some [] else none
  | [n], s => if s.length = n then some s else none
  | n :: ns, s =>
    match s.drop n with
    | '-' :: rest => if (s.take n).length = n then (unhyphenate? ns rest).map (s.take n ++ ·) else none
    | _ => none

/-- The number that thirty-two digits stand for. -/
def ofDigits? (ds : List Char) : Option Uuid :=
  if ds.length = 32 then (Json.hexDigits? ds).map fun n => ⟨BitVec.ofNat 128 n⟩ else none

/-- The text without what may stand around it. -/
def unwrap (s : List Char) : List Char :=
  let urn := "urn:uuid:".toList
  if urn.isPrefixOf s then s.drop urn.length
  else
    match s, s.getLast? with
    | '\x7b' :: rest, some '\x7d' => rest.dropLast
    | _, _ => s

/-- The identifier that a text stands for. -/
def parse? (s : String) : Option Uuid :=
  let chars := s.toList
  if chars.length = 32 then ofDigits? chars else (unhyphenate? groups (unwrap chars)).bind ofDigits?

end Uuid

end GraphQuery
