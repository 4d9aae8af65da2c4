import GraphQuery.Number.Decimal

/-!
# Numbers of documents and values

A number is an integer or a double, and the two kinds keep apart even when they are equal: `2` and `2.0` have
different texts (`Number.text`). An integer is safe when every double-precision program reads it exactly, and so is a
number equal to such an integer (`Number.safeInt?`).
-/

namespace GraphQuery

/-- An exact integer or a finite double. -/
inductive Number
  | int (i : Int)
  | float (d : Double)
deriving DecidableEq

namespace Number

/-- Positional notation from a hundred-thousandth to below ten to the sixteenth. -/
def layout : Decimal.Layout := ⟨-5, 15⟩

/-- The decimal digits of a natural number. -/
def natText (n : Nat) : String := String.ofList (Nat.toDigits 10 n)

/-- The decimal digits of an integer, after a minus sign if it is negative. -/
def intText (i : Int) : String := if i < 0 then "-" ++ natText i.natAbs else natText i.natAbs

/-- The text of a number: the decimal digits of an integer, the fewest digits that read back for a double. -/
def text : Number → String
  | int i => intText i
  | float d => d.text layout

/-- The greatest safe integer. -/
def maxSafe : Nat := Nat.pow 2 53 - 1

/-- The integer that the number is equal to, if it is one. -/
def toInt? : Number → Option Int
  | int i => some i
  | float d => d.toInt?

/-- The safe integer that the number is equal to, if it is one. -/
def safeInt? (n : Number) : Option Int := n.toInt?.filter fun i => i.natAbs ≤ maxSafe

/-- The least and the greatest integer of the signed and unsigned 64-bit ranges together. -/
def inIntegerRange (i : Int) : Bool := -Int.pow 2 63 ≤ i && i < Int.pow 2 64

end Number

end GraphQuery
