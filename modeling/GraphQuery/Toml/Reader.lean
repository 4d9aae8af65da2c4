import GraphQuery.Toml
import GraphQuery.Toml.Quoted

/-!
# Reading TOML

`Toml.parse?` reads a document line by line: headers of tables and of arrays of tables, and keys with values. Values
may nest; between the items of arrays and the members of inline tables there may be line ends and comments.
-/

namespace GraphQuery.Toml

open Quoted

/-! ## What stands between -/

/-- The text without the blanks at its start. -/
def skipSpaces (s : List Char) : List Char := s.dropWhile isSpace

/-- What follows a comment up to its line end, if the text starts with one. -/
def afterComment? : List Char → Option (List Char)
  | '#' :: s =>
    let rest := s.dropWhile isPlain
    if rest.isEmpty || (afterLineEnd? rest).isSome then some rest else none
  | s => some s

/-- What follows the rest of a line. -/
def afterLine? (s : List Char) : Option (List Char) := do
  let rest ← afterComment? (skipSpaces s)
  if rest.isEmpty then return rest else afterLineEnd? rest

/-- What follows blanks, comments and line ends. -/
def skipLines : Nat → List Char → Option (List Char)
  | 0, _ => none
  | fuel + 1, s => do
    let rest ← afterComment? (skipSpaces s)
    match afterLineEnd? rest with
    | some rest => skipLines fuel rest
    | none => return rest

/-! ## Keys -/

/-- The character may stand in a key without quotes. -/
def isKeyChar (c : Char) : Bool := c.isAlphanum || c == '_' || c == '-'

/-- One key at the start of a text, and what follows it. -/
def key? : List Char → Option (String × List Char)
  | '"' :: s => (line '"' true (s.length + 1) [] s).map fun p => (String.ofList p.1, p.2)
  | '\'' :: s => (line '\'' false (s.length + 1) [] s).map fun p => (String.ofList p.1, p.2)
  | s =>
    let bare := s.takeWhile isKeyChar
    if bare.isEmpty then none else some (String.ofList bare, s.dropWhile isKeyChar)

/-- Keys with dots between them, and what follows them and the blanks after them. -/
def path? : Nat → List Char → Option (List String × List Char)
  | 0, _ => none
  | fuel + 1, s => do
    let (key, rest) ← key? (skipSpaces s)
    match skipSpaces rest with
    | '.' :: rest => (path? fuel rest).map fun p => (key :: p.1, p.2)
    | rest => return ([key], rest)

/-! ## Values -/

/-- The characters of unquoted values. -/
def isScalarChar (c : Char) : Bool := isKeyChar c || c == '+' || c == '.' || c == ':'

/-- The characters of an unquoted value, and what follows them; one blank may stand between a date and a time. -/
def scalarChars (s : List Char) : List Char × List Char :=
  let token := s.takeWhile isScalarChar
  match s.dropWhile isScalarChar with
  | ' ' :: c :: rest =>
    if Scalar.afterDate? token = some [] ∧ c.isDigit then
      (token ++ ' ' :: (c :: rest).takeWhile isScalarChar, (c :: rest).dropWhile isScalarChar)
    else (token, ' ' :: c :: rest)
  | rest => (token, rest)

mutual

/-- A value at the start of a text, and what follows it. -/
def value? : Nat → List Char → Option (Value × List Char)
  | 0, _ => none
  | fuel + 1, s =>
    match s with
    | '"' :: rest => (string? '"' rest).map fun p => (.string p.1, p.2)
    | '\'' :: rest => (string? '\'' rest).map fun p => (.string p.1, p.2)
    | '[' :: rest => (items? fuel [] rest).map fun p => (.array p.1, p.2)
    | '\x7b' :: rest => (members? fuel [] rest).map fun p => (.table (Node.toValues p.1), p.2)
    | s =>
      let (token, rest) := scalarChars s
      (Scalar.ofChars? token).map fun x => (.scalar x, rest)

/-- The items of an array up to its closing bracket, after those that were read already. -/
def items? : Nat → List Value → List Char → Option (List Value × List Char)
  | 0, _, _ => none
  | fuel + 1, done, s => do
    match ← skipLines (s.length + 1) s with
    | ']' :: rest => return (done.reverse, rest)
    | s =>
      let (v, rest) ← value? fuel s
      match ← skipLines (rest.length + 1) rest with
      | ',' :: rest => items? fuel (v :: done) rest
      | ']' :: rest => return ((v :: done).reverse, rest)
      | _ => none

/-- The members of an inline table up to its closing brace, after those that were read already. -/
def members? : Nat → Nodes → List Char → Option (Nodes × List Char)
  | 0, _, _ => none
  | fuel + 1, done, s => do
    match ← skipLines (s.length + 1) s with
    | '\x7d' :: rest => return (done, rest)
    | s =>
      let (path, rest) ← path? (s.length + 1) s
      let rest ← Scalar.after? '=' rest
      let (v, rest) ← value? fuel (skipSpaces rest)
      let done ← Node.insert v path done
      match ← skipLines (rest.length + 1) rest with
      | ',' :: rest => members? fuel done rest
      | '\x7d' :: rest => return (done, rest)
      | _ => none

end

/-! ## Documents -/

/-- The nodes after the rest of a document, whose keys belong to the table that a path leads to. -/
def document? : Nat → List String → Nodes → List Char → Option Nodes
  | 0, _, _, _ => none
  | fuel + 1, current, ns, s => do
    match ← skipLines (s.length + 1) s with
    | [] => return ns
    | '[' :: '[' :: rest =>
      let (path, rest) ← path? (rest.length + 1) rest
      let rest ← Scalar.after? ']' (← Scalar.after? ']' rest)
      let ns ← Node.change (Node.append (path.getLastD "")) path.dropLast ns
      document? fuel path ns (← afterLine? rest)
    | '[' :: rest =>
      let (path, rest) ← path? (rest.length + 1) rest
      let rest ← Scalar.after? ']' rest
      let ns ← Node.change (Node.define (path.getLastD "")) path.dropLast ns
      document? fuel path ns (← afterLine? rest)
    | s =>
      let (path, rest) ← path? (s.length + 1) s
      let rest ← Scalar.after? '=' rest
      let (v, rest) ← value? (2 * s.length + 2) (skipSpaces rest)
      let ns ← Node.change (Node.insert v path) current ns
      document? fuel current ns (← afterLine? rest)

/-- The document that a text stands for, if it is the text of one; a byte order mark in front does not count. -/
def parse? (s : String) : Option Value :=
  let chars := match s.toList with
    | '\ufeff' :: rest => rest
    | chars => chars
  (document? (chars.length + 1) [] [] chars).map fun ns => .table (Node.toValues ns)

end GraphQuery.Toml
