import GraphQuery.Json

/-!
# Reading JSON

`Json.parse?` reads the text of a document. A number without a point and an exponent is an integer if it lies in the
signed or unsigned 64-bit range; any other number, and minus zero, is the nearest double. Of several members with one
key the last counts.
-/

namespace GraphQuery.Json

/-- The text without the blanks of JSON at its start. -/
def skipBlanks (s : List Char) : List Char := s.dropWhile fun c => c == ' ' || c == '\t' || c == '\n' || c == '\r'

/-- The value of a hexadecimal digit. -/
def hexValue? (c : Char) : Option Nat :=
  if c.isDigit then some (c.toNat - '0'.toNat)
  else if 'a' ≤ c ∧ c ≤ 'f' then some (c.toNat - 'a'.toNat + 10)
  else if 'A' ≤ c ∧ c ≤ 'F' then some (c.toNat - 'A'.toNat + 10)
  else none

/-- The value of some hexadecimal digits. -/
def hexDigits? (ds : List Char) : Option Nat :=
  ds.foldl (fun n c => n.bind fun n => (hexValue? c).map fun d => 16 * n + d) (some 0)

/-- The character with a code point, if there is one. -/
def char? (n : Nat) : Option Char := if h : n.isValidChar then some (Char.ofNatAux n h) else none

/-- The character of a two-character escape. -/
def shortEscape? : Char → Option Char
  | '"' => some '"'
  | '\\' => some '\\'
  | '/' => some '/'
  | 'b' => some '\x08'
  | 'f' => some '\x0c'
  | 'n' => some '\n'
  | 'r' => some '\r'
  | 't' => some '\t'
  | _ => none

/-- The character of a `\u` escape and what follows it; two escapes of a surrogate pair are one character. -/
def unicodeEscape? (s : List Char) : Option (Char × List Char) :=
  match s with
  | a :: b :: c :: d :: rest => do
    let high ← hexDigits? [a, b, c, d]
    if 0xD800 ≤ high ∧ high < 0xDC00 then
      match rest with
      | '\\' :: 'u' :: e :: f :: g :: h :: rest =>
        let low ← hexDigits? [e, f, g, h]
        if 0xDC00 ≤ low ∧ low < 0xE000 then
          return (← char? (0x10000 + (high - 0xD800) * 0x400 + (low - 0xDC00)), rest)
        else none
      | _ => none
    else return (← char? high, rest)
  | _ => none

/-- The characters of a string up to its closing quote, and what follows it. -/
def readChars : Nat → List Char → List Char → Option (List Char × List Char)
  | 0, _, _ => none
  | _ + 1, _, [] => none
  | fuel + 1, done, c :: rest =>
    if c = '"' then some (done.reverse, rest)
    else if c = '\\' then
      match rest with
      | 'u' :: rest => do
        let (c, rest) ← unicodeEscape? rest
        readChars fuel (c :: done) rest
      | e :: rest => do readChars fuel ((← shortEscape? e) :: done) rest
      | [] => none
    else if c.toNat < 32 then none
    else readChars fuel (c :: done) rest

/-- A string after its opening quote, and what follows it. -/
def readString? (fuel : Nat) (s : List Char) : Option (String × List Char) :=
  (readChars fuel [] s).map fun p => (String.ofList p.1, p.2)

/-- The characters that numbers are made of. -/
def isNumberChar (c : Char) : Bool := c.isDigit || c == '-' || c == '+' || c == '.' || c == 'e' || c == 'E'

/-- The digits before the point: zero, or digits that do not start with zero. -/
def isWhole : List Char → Bool
  | ['0'] => true
  | c :: cs => c != '0' && (c :: cs).all Char.isDigit
  | [] => false

/-- The number that a text stands for. -/
def readNumber? (s : List Char) : Option Number :=
  let (negative, digits) := match s with
    | '-' :: rest => (true, rest)
    | rest => (false, rest)
  let whole := digits.takeWhile Char.isDigit
  let rest := digits.dropWhile Char.isDigit
  let pointless := match rest with
    | '.' :: c :: _ => !c.isDigit
    | '.' :: [] => true
    | _ => false
  if !isWhole whole || pointless then none
  else
    let i : Int := if negative then -(Floating.digitsValue whole : Int) else Floating.digitsValue whole
    if rest.isEmpty && Number.inIntegerRange i && !(negative && i == 0) then some (.int i)
    else
      match Floating.decimal? digits with
      | some d =>
        match Floating.ofDecimal Double.ofRatio? negative d with
        | .finite d => some (.float d)
        | _ => none
      | none => none

/-- The rest of a text after a word. -/
def afterWord? (word : String) (s : List Char) : Option (List Char) :=
  if word.toList.isPrefixOf s then some (s.drop word.length) else none

mutual

/-- A document at the start of a text, and what follows it. -/
def readValue : Nat → List Char → Option (Json × List Char)
  | 0, _ => none
  | fuel + 1, s =>
    match skipBlanks s with
    | '"' :: rest => (readString? fuel rest).map fun p => (string p.1, p.2)
    | '[' :: rest =>
      match skipBlanks rest with
      | ']' :: rest => some (array [], rest)
      | rest => (readItems fuel [] rest).map fun p => (array p.1, p.2)
    | '\x7b' :: rest =>
      match skipBlanks rest with
      | '\x7d' :: rest => some (object [], rest)
      | rest => (readMembers fuel [] rest).map fun p => (object p.1, p.2)
    | 't' :: rest => (afterWord? "rue" rest).map fun rest => (bool true, rest)
    | 'f' :: rest => (afterWord? "alse" rest).map fun rest => (bool false, rest)
    | 'n' :: rest => (afterWord? "ull" rest).map fun rest => (null, rest)
    | s => (readNumber? (s.takeWhile isNumberChar)).map fun n => (number n, s.dropWhile isNumberChar)

/-- The items of an array up to its closing bracket, after those that were read already. -/
def readItems : Nat → List Json → List Char → Option (List Json × List Char)
  | 0, _, _ => none
  | fuel + 1, done, s => do
    let (j, rest) ← readValue fuel s
    match skipBlanks rest with
    | ',' :: rest => readItems fuel (j :: done) rest
    | ']' :: rest => some ((j :: done).reverse, rest)
    | _ => none

/-- The members of an object up to its closing brace, after those that were read already. -/
def readMembers : Nat → Members Json → List Char → Option (Members Json × List Char)
  | 0, _, _ => none
  | fuel + 1, done, s => do
    match skipBlanks s with
    | '"' :: rest =>
      let (key, rest) ← readString? fuel rest
      match skipBlanks rest with
      | ':' :: rest =>
        let (j, rest) ← readValue fuel rest
        match skipBlanks rest with
        | ',' :: rest => readMembers fuel (done.insert key j) rest
        | '\x7d' :: rest => some (done.insert key j, rest)
        | _ => none
      | _ => none
    | _ => none

end

/-- The document that a text stands for, if it is the text of one. -/
def parse? (s : String) : Option Json :=
  let chars := s.toList
  match readValue (3 * chars.length + 3) chars with
  | some (j, rest) => if (skipBlanks rest).isEmpty then some j else none
  | none => none

end GraphQuery.Json
