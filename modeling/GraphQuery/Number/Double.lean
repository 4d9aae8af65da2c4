/-!
# Double-precision numbers

A finite double is a signed multiple of a power of two in canonical form (`Double`): at most 53 bits of significand,
and fewer than 53 only at the least exponent. Each finite double has one canonical form, so equality of `Double`s
tells the two zeros apart and nothing else.

`Nearest.ofRatio` rounds a quotient of natural numbers to the nearest multiple that a format with a given precision
can hold, a half to the even neighbour; `Double.ofRatio?` and `Double.ofSingle?` are the doubles that result.

Powers are written as `Nat.pow`, which means the same whatever instances are in scope.
-/

namespace GraphQuery

/-- The significand and exponent of a finite double. -/
def Double.Canonical (m : Nat) (e : Int) : Prop :=
  m < Nat.pow 2 53 ∧ -1074 ≤ e ∧ e ≤ 971 ∧ (m < Nat.pow 2 52 → e = -1074)

instance (m : Nat) (e : Int) : Decidable (Double.Canonical m e) := by
  unfold Double.Canonical; infer_instance

/-- The finite double `± significand · 2 ^ exponent`. -/
structure Double where
  negative : Bool
  significand : Nat
  exponent : Int
  canonical : Double.Canonical significand exponent
deriving DecidableEq

/-- A binary format: the bits of a significand, and the least and the greatest exponent of its last bit. -/
structure BinaryFormat where
  precision : Nat
  minExponent : Int
  maxExponent : Int

namespace BinaryFormat

/-- Single precision. -/
def single : BinaryFormat := ⟨24, -149, 104⟩

/-- Double precision. -/
def double : BinaryFormat := ⟨53, -1074, 971⟩

end BinaryFormat

namespace Nearest

/-- The quotient rounded to the nearest natural number, a half to the even one. -/
def divide (num den : Nat) : Nat :=
  let q := num / den
  let twice := 2 * (num % den)
  if twice < den then q
  else if den < twice then q + 1
  else if q % 2 = 0 then q else q + 1

/-- The greatest `k` with `2 ^ k ≤ num / den`, for a positive quotient. -/
def floorLog2 (num den : Nat) : Int :=
  let k : Int := (num.log2 : Int) - den.log2
  if den * Nat.pow 2 k.toNat ≤ num * Nat.pow 2 (-k).toNat then k else k - 1

/-- The significand and exponent nearest to a quotient, with no bound on the exponent from above. -/
def ofRatio (f : BinaryFormat) (num den : Nat) : Nat × Int :=
  if num = 0 then (0, f.minExponent)
  else
    let e := max f.minExponent (floorLog2 num den - (f.precision - 1))
    let m := divide (num * Nat.pow 2 (-e).toNat) (den * Nat.pow 2 e.toNat)
    if m = Nat.pow 2 f.precision then (Nat.pow 2 (f.precision - 1), e + 1) else (m, e)

end Nearest

namespace Double

/-- The double with this significand and exponent, if they are canonical. -/
def ofParts? (negative : Bool) (m : Nat) (e : Int) : Option Double :=
  if h : Canonical m e then some ⟨negative, m, e, h⟩ else none

/-- The double nearest to a signed quotient; none if it is too large. -/
def ofRatio? (negative : Bool) (num den : Nat) : Option Double :=
  let (m, e) := Nearest.ofRatio .double num den
  ofParts? negative m e

/-- The double equal to the single nearest to a signed quotient; none if it is too large for a single. -/
def ofSingle? (negative : Bool) (num den : Nat) : Option Double :=
  let (m, e) := Nearest.ofRatio .single num den
  if e ≤ BinaryFormat.single.maxExponent then
    ofRatio? negative (m * Nat.pow 2 e.toNat) (Nat.pow 2 (-e).toNat)
  else none

/-- The absolute value as a quotient of natural numbers. -/
def magnitude (d : Double) : Nat × Nat :=
  (d.significand * Nat.pow 2 d.exponent.toNat, Nat.pow 2 (-d.exponent).toNat)

/-- The integer that the double is equal to, if it is one. -/
def toInt? (d : Double) : Option Int :=
  let (num, den) := d.magnitude
  if num % den = 0 then some (if d.negative then -((num / den : Nat) : Int) else ((num / den : Nat) : Int)) else none

end Double

end GraphQuery
