import GraphQuery.Text.Blank
import GraphQuery.Text.Identifier

/-!
# Record links

A record link names a record by its table and its key, and is written `table:key` (`Link.text`). A key may be given
with its table in front, which is then dropped (`Link.of`). The text of a link is recognised by a bare table name, a
colon and a key without blanks (`Link.isText`), and reading it takes the key as it stands (`Link.parse?`).
-/

namespace GraphQuery

/-- The record of a table with a key. -/
structure Link where
  table : String
  key : String
deriving DecidableEq, Repr

namespace Link

/-- The key without the table and the colon in front of it, if they are there. -/
def stripTable (table key : List Char) : List Char :=
  if (table ++ [':']).isPrefixOf key then key.drop (table.length + 1) else key

/-- The link to a record whose key may be given with its table in front. -/
def of (table key : String) : Link := ⟨table, String.ofList (stripTable table.toList key.toList)⟩

/-- The table, a colon and the key. -/
def text (l : Link) : String := l.table ++ ":" ++ l.key

/-- The parts of a link text before and after its first colon. -/
def split? (s : List Char) : Option (List Char × List Char) :=
  match s.dropWhile Text.isNameChar with
  | ':' :: key =>
    let table := s.takeWhile Text.isNameChar
    if Text.isBare table && !key.isEmpty && key.all (fun c => !Text.isBlank c) then some (table, key) else none
  | _ => none

/-- The text is a bare table name, a colon, and a key that is not empty and has no blanks. -/
def isText (s : String) : Bool := (split? s.toList).isSome

/-- The link that a text stands for. -/
def parse? (s : String) : Option Link :=
  (split? s.toList).map fun p => ⟨String.ofList p.1, String.ofList p.2⟩

end Link

end GraphQuery
