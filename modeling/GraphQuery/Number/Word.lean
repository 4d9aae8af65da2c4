import GraphQuery.Number

/-!
# Numbers in machine words

A number is kept as a signed or as an unsigned word of 64 bits, or as a double (`Number.toInt64?`, `Number.toUInt64?`,
`Number.toDouble?`). Of a double it can be told whether it is whole (`Double.isWhole`) and how its absolute value
compares with that of another one (`Double.absLe`), and its integer part can be made into a signed word
(`Double.toInt64`).
-/

namespace GraphQuery

namespace Double

/-- There is nothing behind the point. -/
def isWhole (d : Double) : Bool := d.magnitude.1 % d.magnitude.2 == 0

/-- The absolute value is not greater than that of another double. -/
def absLe (d e : Double) : Bool := d.magnitude.1 * e.magnitude.2 ≤ e.magnitude.1 * d.magnitude.2

/-- The integer part, without what is behind the point. -/
def truncate (d : Double) : Int :=
  let whole : Int := (d.magnitude.1 / d.magnitude.2 : Nat)
  if d.negative then -whole else whole

/-- The integer part as a signed word; where it does not fit, the least or the greatest word. -/
def toInt64 (d : Double) : Int64 := Int64.ofIntClamp d.truncate

end Double

namespace Number

/-- The number as a signed word, if it is an integer that fits. -/
def toInt64? : Number → Option Int64
  | int i => if Int64.minValue.toInt ≤ i ∧ i ≤ Int64.maxValue.toInt then some (Int64.ofInt i) else none
  | float _ => none

/-- The number as an unsigned word, if it is an integer that fits. -/
def toUInt64? : Number → Option UInt64
  | int i => if 0 ≤ i ∧ i.toNat < UInt64.size then some (UInt64.ofNat i.toNat) else none
  | float _ => none

/-- The number as a double, if it is none of the integers. -/
def toDouble? : Number → Option Double
  | int _ => none
  | float d => some d

/-- The greatest safe integer as a word. -/
def maxSafeWord : UInt64 := UInt64.ofNat maxSafe

/-- The double that is nearest to the greatest safe integer. -/
def maxSafeDouble? : Option Double := Double.ofRatio? false maxSafeWord.toNat 1

end Number

end GraphQuery
