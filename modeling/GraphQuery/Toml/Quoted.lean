import GraphQuery.Json.Reader

/-!
# Strings of TOML

Strings between double quotes know escapes, and strings between single quotes do not; both may span lines between
three quotes, where the line end right after the opening quotes does not count. Control characters other than the tab
are not allowed, and a carriage return only in front of a line feed.
-/

namespace GraphQuery.Toml.Quoted

/-- The character may stand in comments and strings. -/
def isPlain (c : Char) : Bool := c == '\t' || (32 ≤ c.toNat && c.toNat != 127)

/-- The character of an escape after its backslash, and what follows it. -/
def escape? : List Char → Option (Char × List Char)
  | '"' :: s => some ('"', s)
  | '\\' :: s => some ('\\', s)
  | 'b' :: s => some ('\x08', s)
  | 't' :: s => some ('\t', s)
  | 'n' :: s => some ('\n', s)
  | 'f' :: s => some ('\x0c', s)
  | 'r' :: s => some ('\r', s)
  | 'e' :: s => some ('\x1b', s)
  | 'x' :: s => code? 2 s
  | 'u' :: s => code? 4 s
  | 'U' :: s => code? 8 s
  | _ => none
where
  /-- The character whose code point is given by `n` hexadecimal digits. -/
  code? (n : Nat) (s : List Char) : Option (Char × List Char) :=
    if (s.take n).length = n then
      ((Json.hexDigits? (s.take n)).bind Json.char?).map fun c => (c, s.drop n)
    else none

/-- The characters of a string on one line up to its closing quote, and what follows it. -/
def line (quote : Char) (escapes : Bool) : Nat → List Char → List Char → Option (List Char × List Char)
  | 0, _, _ => none
  | _ + 1, _, [] => none
  | fuel + 1, done, c :: rest =>
    if c = quote then some (done.reverse, rest)
    else if escapes ∧ c = '\\' then do
      let (e, rest) ← escape? rest
      line quote escapes fuel (e :: done) rest
    else if isPlain c then line quote escapes fuel (c :: done) rest
    else none

/-- The text after a line end at its start. -/
def afterLineEnd? : List Char → Option (List Char)
  | '\n' :: rest => some rest
  | '\r' :: '\n' :: rest => some rest
  | _ => none

/-- A blank of one line. -/
def isSpace (c : Char) : Bool := c == ' ' || c == '\t'

/-- The text without the blanks and line ends at its start. -/
def skipBlankLines : List Char → List Char
  | '\r' :: '\n' :: rest => skipBlankLines rest
  | c :: rest => if isSpace c || c == '\n' then skipBlankLines rest else c :: rest
  | [] => []

/-- The characters of a string over several lines up to its closing quotes, and what follows them. Up to two quotes may
stand in front of the closing ones. A backslash at the end of a line joins it with the next characters that are not
blank. -/
def lines (quote : Char) (escapes : Bool) : Nat → List Char → List Char → Option (List Char × List Char)
  | 0, _, _ => none
  | _ + 1, _, [] => none
  | fuel + 1, done, c :: rest =>
    if c = quote then
      let run := (c :: rest).takeWhile (· == quote)
      let rest := (c :: rest).dropWhile (· == quote)
      if run.length < 3 then lines quote escapes fuel (run ++ done) rest
      else if run.length ≤ 5 then some ((run.drop 3 ++ done).reverse, rest)
      else none
    else if escapes ∧ c = '\\' then
      match afterLineEnd? (rest.dropWhile isSpace) with
      | some rest => lines quote escapes fuel done (skipBlankLines rest)
      | none => do
        let (e, rest) ← escape? rest
        lines quote escapes fuel (e :: done) rest
    else
      match afterLineEnd? (c :: rest) with
      | some rest => lines quote escapes fuel ('\n' :: done) rest
      | none => if isPlain c then lines quote escapes fuel (c :: done) rest else none

/-- A string after its first quote, and what follows it. -/
def string? (quote : Char) (s : List Char) : Option (String × List Char) :=
  let escapes : Bool := quote == '"'
  let chars := match s with
    | a :: b :: rest =>
      if a = quote ∧ b = quote then lines quote escapes (s.length + 1) [] ((afterLineEnd? rest).getD rest)
      else line quote escapes (s.length + 1) [] s
    | _ => line quote escapes (s.length + 1) [] s
  chars.map fun p => (String.ofList p.1, p.2)

end GraphQuery.Toml.Quoted
