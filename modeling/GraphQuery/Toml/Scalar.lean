import GraphQuery.Number.Decimal
import GraphQuery.Text.Split

/-!
# Unquoted values of TOML

Truth values, integers in four bases, floating-point numbers, and dates and times. Each is a run of letters, digits
and a few signs that is recognised as a whole (`Toml.Scalar.ofChars?`). An integer has to fit into 128 bits; a date
has to be a day of the calendar.
-/

namespace GraphQuery.Toml

/-- A value that is written without quotes and brackets. -/
inductive Scalar
  | bool (b : Bool)
  | int (i : Int)
  | float (x : Floating)
  | datetime (text : String)

namespace Scalar

/-! ## Numbers -/

/-- Digits without the underscores between them; an underscore stands between two digits. -/
def ungroup? (isDigit : Char → Bool) (s : List Char) : Option (List Char) :=
  let runs := Text.splitChars '_' s
  if runs.all (fun run => !run.isEmpty && run.all isDigit) then some runs.flatten else none

/-- The text without its sign, and whether the sign is a minus. -/
def unsigned : List Char → Bool × List Char
  | '-' :: rest => (true, rest)
  | '+' :: rest => (false, rest)
  | s => (false, s)

/-- Decimal digits that do not start with a superfluous zero. -/
def whole? (s : List Char) : Option (List Char) :=
  (ungroup? Char.isDigit s).filter fun ds => ds.length == 1 || ds.head? != some '0'

/-- The value of a digit in a base of at most sixteen. -/
def digitValue (c : Char) : Nat :=
  if c.isDigit then c.toNat - '0'.toNat else c.toLower.toNat - 'a'.toNat + 10

/-- The character is a digit in a base of at most sixteen. -/
def isDigitIn (base : Nat) (c : Char) : Bool :=
  (c.isDigit || ('a' ≤ c.toLower && c.toLower ≤ 'f')) && digitValue c < base

/-- An integer of a base after its mark. -/
def based? (base : Nat) (s : List Char) : Option Int :=
  (ungroup? (isDigitIn base) s).map fun ds => ds.foldl (fun n c => base * n + digitValue c) 0

/-- An integer: decimal with an optional sign, or hexadecimal, octal or binary after a mark. -/
def int? (s : List Char) : Option Int :=
  let i := match s with
    | '0' :: 'x' :: ds => based? 16 ds
    | '0' :: 'o' :: ds => based? 8 ds
    | '0' :: 'b' :: ds => based? 2 ds
    | _ =>
      let (negative, ds) := unsigned s
      (whole? ds).map fun ds => if negative then -(Floating.digitsValue ds : Int) else Floating.digitsValue ds
  i.filter fun i => -Int.pow 2 127 ≤ i && i < Int.pow 2 128

/-- Digits with a fraction, an exponent, or both, and no superfluous zero in front. -/
def decimal? (s : List Char) : Option (List Char) := do
  let isWhole (c : Char) := c.isDigit || c == '_'
  let ds ← whole? (s.takeWhile isWhole)
  let rest := s.dropWhile isWhole
  let (fraction, rest) ← match rest with
    | '.' :: rest => (ungroup? Char.isDigit (rest.takeWhile isWhole)).map fun f => ('.' :: f, rest.dropWhile isWhole)
    | rest => some ([], rest)
  let exponent ← match rest with
    | [] => some []
    | c :: rest =>
      if c.toLower = 'e' then
        let (negative, digits) := unsigned rest
        (ungroup? Char.isDigit digits).map fun e => 'e' :: (if negative then '-' :: e else e)
      else none
  if fraction.isEmpty && exponent.isEmpty then none else return ds ++ fraction ++ exponent

/-- A floating-point number: a decimal, infinity, or no number, with an optional sign. A decimal that is too large is
none. -/
def float? (s : List Char) : Option Floating :=
  let (negative, body) := unsigned s
  if body = ['i', 'n', 'f'] then some (.infinite negative)
  else if body = ['n', 'a', 'n'] then some .nan
  else do
    let text ← decimal? body
    match Floating.ofDecimal Double.ofRatio? negative (← Floating.decimal? text) with
    | .finite d => some (.finite d)
    | _ => none

/-! ## Dates and times -/

/-- The number that `n` digits at the start of a text stand for, if it lies between two bounds, and what follows it. -/
def digits? (n least greatest : Nat) (s : List Char) : Option (Nat × List Char) :=
  let ds := s.take n
  let value := Floating.digitsValue ds
  if ds.length = n ∧ ds.all Char.isDigit ∧ least ≤ value ∧ value ≤ greatest then some (value, s.drop n) else none

/-- What follows a character at the start of a text. -/
def after? (c : Char) : List Char → Option (List Char)
  | d :: rest => if c = d then some rest else none
  | [] => none

/-- The number of days of a month. -/
def daysIn (year month : Nat) : Nat :=
  if month = 2 then if year % 4 = 0 ∧ (year % 100 ≠ 0 ∨ year % 400 = 0) then 29 else 28
  else if month = 4 ∨ month = 6 ∨ month = 9 ∨ month = 11 then 30
  else 31

/-- What follows a date at the start of a text. -/
def afterDate? (s : List Char) : Option (List Char) := do
  let (year, s) ← digits? 4 0 9999 s
  let (month, s) ← digits? 2 1 12 (← after? '-' s)
  let (_, s) ← digits? 2 1 (daysIn year month) (← after? '-' s)
  return s

/-- What follows a time at the start of a text; seconds may be left out, and may have a fraction. -/
def afterTime? (s : List Char) : Option (List Char) := do
  let (_, s) ← digits? 2 0 23 s
  let (_, s) ← digits? 2 0 59 (← after? ':' s)
  match s with
  | ':' :: s =>
    let (_, s) ← digits? 2 0 60 s
    match s with
    | '.' :: s => if s.takeWhile Char.isDigit = [] then none else return s.dropWhile Char.isDigit
    | s => return s
  | s => return s

/-- The text is an offset from universal time. -/
def isOffset : List Char → Bool
  | ['Z'] | ['z'] => true
  | c :: rest =>
    let offset := do
      let (_, s) ← digits? 2 0 23 rest
      let (_, s) ← digits? 2 0 59 (← after? ':' s)
      return s
    (c == '+' || c == '-') && (offset.map List.isEmpty).getD false
  | [] => false

/-- The text is a date, a time, or both with an optional offset. -/
def isDatetime (s : List Char) : Bool :=
  match afterDate? s with
  | some [] => true
  | some (c :: rest) =>
    (c == 'T' || c == 't' || c == ' ') &&
      match afterTime? rest with
      | some zone => zone.isEmpty || isOffset zone
      | none => false
  | none => (afterTime? s).map List.isEmpty == some true

/-- The value that a text stands for. -/
def ofChars? (s : List Char) : Option Scalar :=
  if s = "true".toList then some (bool true)
  else if s = "false".toList then some (bool false)
  else
    match int? s with
    | some i => some (int i)
    | none =>
      match float? s with
      | some x => some (float x)
      | none => if isDatetime s then some (datetime (String.ofList s)) else none

end Scalar

end GraphQuery.Toml
