import GraphQuery.Number.Double

/-!
# Decimal texts of doubles

Writing: `Decimal.shortest` finds the decimal with the fewest digits that rounds to a given positive double, and of
those with as few digits the nearest one; `Layout.write` sets its digits, positionally for the middle exponents and in
scientific form outside of them.

Reading: `Floating.parse?` reads a decimal, with or without a point and an exponent, and rounds it to the nearest
double or single.
-/

namespace GraphQuery

/-- The decimal number `digits · 10 ^ exponent`. -/
structure Decimal where
  digits : Nat
  exponent : Int
deriving DecidableEq

namespace Decimal

/-- The number of decimal digits; zero has none. -/
def digitCount (n : Nat) : Nat := if n = 0 then 0 else (Nat.toDigits 10 n).length

/-- The number as a quotient of natural numbers. -/
def ratio (d : Decimal) : Nat × Nat :=
  (d.digits * Nat.pow 10 d.exponent.toNat, Nat.pow 10 (-d.exponent).toNat)

/-- The greatest `k` with `10 ^ k ≤ num / den`, for a positive quotient. -/
def floorLog10 (num den : Nat) : Int :=
  if den ≤ num then (digitCount (num / den) : Int) - 1 else -(digitCount ((den + num - 1) / num - 1) : Int)

/-! ## The fewest digits -/

/-- A positive double `4m` and the ends of the interval that rounds to it, all in units of a quarter of its last bit;
the unit is `unitNum / unitDen`. The ends belong to the interval when the significand is even. -/
structure Rounding where
  value : Nat
  lower : Nat
  upper : Nat
  closed : Bool
  unitNum : Nat
  unitDen : Nat

/-- The interval of a significand and an exponent. Below a power of two the neighbour is half as far away. -/
def Rounding.of (m : Nat) (q : Int) : Rounding where
  value := 4 * m
  lower := if m = Nat.pow 2 52 ∧ -1074 < q then 4 * m - 1 else 4 * m - 2
  upper := 4 * m + 2
  closed := m % 2 = 0
  unitNum := Nat.pow 2 (q - 2).toNat
  unitDen := Nat.pow 2 (2 - q).toNat

/-- The decimal rounds to the double. -/
def Rounding.contains (r : Rounding) (d : Decimal) : Bool :=
  let (num, den) := d.ratio
  let x := num * r.unitDen
  let low := r.lower * r.unitNum * den
  let high := r.upper * r.unitNum * den
  if r.closed then low ≤ x && x ≤ high else low < x && x < high

/-- The decimals just below and above the double among the multiples of a power of ten, the nearer one first. -/
def Rounding.neighbours (r : Rounding) (k : Int) : List Decimal :=
  let num := r.value * r.unitNum * Nat.pow 10 (-k).toNat
  let den := r.unitDen * Nat.pow 10 k.toNat
  let down := num / den
  if Nearest.divide num den = down then [⟨down, k⟩, ⟨down + 1, k⟩] else [⟨down + 1, k⟩, ⟨down, k⟩]

/-- The first hit when the grid gets finer by one digit at a time, for at most `steps` further digits. -/
def Rounding.search (r : Rounding) : Nat → Int → Decimal
  | 0, k => (r.neighbours k).headD ⟨0, k⟩
  | steps + 1, k => ((r.neighbours k).find? r.contains).getD (r.search steps (k - 1))

/-- The shortest decimal that rounds to the positive double `m · 2 ^ q`. -/
def shortest (m : Nat) (q : Int) : Decimal :=
  let r := Rounding.of m q
  r.search 16 (floorLog10 (r.value * r.unitNum) r.unitDen)

/-! ## Setting the digits -/

/-- The decimal exponents that are written positionally. -/
structure Layout where
  least : Int
  greatest : Int

/-- The digits without the zeros at their end. -/
def dropZeros (ds : List Char) : List Char := (ds.reverse.dropWhile (· == '0')).reverse

/-- Digits `d₀.d₁d₂… · 10 ^ e` without zeros at their end. A positional number has a digit on both sides of the point; a
scientific one has a point only before further digits, and a sign in its exponent. -/
def Layout.write (layout : Layout) (ds : List Char) (e : Int) : List Char :=
  if e < layout.least ∨ layout.greatest < e then
    let fraction := if ds.length ≤ 1 then [] else '.' :: ds.drop 1
    let sign := if e < 0 then '-' else '+'
    ds.take 1 ++ fraction ++ ['e', sign] ++ Nat.toDigits 10 e.natAbs
  else if e < 0 then ['0', '.'] ++ List.replicate (e.natAbs - 1) '0' ++ ds
  else
    let whole := e.toNat + 1
    let fraction := if ds.length ≤ whole then ['0'] else ds.drop whole
    ds.take whole ++ List.replicate (whole - ds.length) '0' ++ ['.'] ++ fraction

end Decimal

/-- The text of a double with the fewest digits that read back. -/
def Double.text (layout : Decimal.Layout) (d : Double) : String :=
  let body :=
    if d.significand = 0 then ['0', '.', '0']
    else
      let t := Decimal.shortest d.significand d.exponent
      let ds := Nat.toDigits 10 t.digits
      layout.write (Decimal.dropZeros ds) (t.exponent + (ds.length - 1))
  String.ofList (if d.negative then '-' :: body else body)

/-! ## Reading -/

/-- What the text of a floating-point number stands for. -/
inductive Floating
  | finite (d : Double)
  | infinite (negative : Bool)
  | nan
deriving DecidableEq

namespace Floating

/-- The value of a run of decimal digits. -/
def digitsValue (ds : List Char) : Nat := ds.foldl (fun n c => 10 * n + (c.toNat - '0'.toNat)) 0

/-- A decimal rounded to the nearest number of a format; too large a decimal is infinite. Decimals far outside of the
range of doubles are decided by their size alone. -/
def ofDecimal (round : Bool → Nat → Nat → Option Double) (negative : Bool) (d : Decimal) : Floating :=
  let size := (Decimal.digitCount d.digits : Int) + d.exponent
  let rounded :=
    if d.digits = 0 ∨ size < -400 then round negative 0 1
    else if 400 < size then none
    else round negative d.ratio.1 d.ratio.2
  match rounded with
  | some x => finite x
  | none => infinite negative

/-- An exponent: nothing, or a letter `e`, perhaps a sign, and digits to the end. -/
def exponent? : List Char → Option Int
  | [] => some 0
  | c :: rest =>
    let (negative, ds) := match rest with
      | '-' :: ds => (true, ds)
      | '+' :: ds => (false, ds)
      | ds => (false, ds)
    if c.toLower = 'e' ∧ ds ≠ [] ∧ ds.all Char.isDigit then
      some (if negative then -(digitsValue ds : Int) else digitsValue ds)
    else none

/-- Digits with an optional point, at least one of them, and an optional exponent. -/
def decimal? (s : List Char) : Option Decimal :=
  let whole := s.takeWhile Char.isDigit
  let (fraction, rest) := match s.dropWhile Char.isDigit with
    | '.' :: rest => (rest.takeWhile Char.isDigit, rest.dropWhile Char.isDigit)
    | rest => ([], rest)
  if whole ++ fraction = [] then none
  else (exponent? rest).map fun e => ⟨digitsValue (whole ++ fraction), e - fraction.length⟩

/-- The number after its sign: a decimal, or the name of infinity or of no number in any case. -/
def unsigned? (round : Bool → Nat → Nat → Option Double) (negative : Bool) (s : List Char) : Option Floating :=
  let name := String.ofList (s.map Char.toLower)
  if name = "inf" ∨ name = "infinity" then some (infinite negative)
  else if name = "nan" then some nan
  else (decimal? s).map (ofDecimal round negative)

/-- The number that a text stands for, if it is the text of a number. -/
def parse? (round : Bool → Nat → Nat → Option Double) (s : String) : Option Floating :=
  match s.toList with
  | '-' :: rest => unsigned? round true rest
  | '+' :: rest => unsigned? round false rest
  | rest => unsigned? round false rest

end Floating

end GraphQuery
