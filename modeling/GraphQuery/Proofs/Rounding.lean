import GraphQuery.Number.Decimal
import Mathlib.Algebra.Order.Field.Power
import Mathlib.Data.Rat.Cast.Order
import Mathlib.Tactic.FieldSimp
import Mathlib.Tactic.Linarith
import Mathlib.Tactic.Positivity
import Mathlib.Tactic.Ring

/-!
# Decimals that round to a double

The numbers that round to a double without a sign lie between two ends around it (`Decimal.RoundsTo`), and no number
rounds to two of them (`RoundsTo.unique`). The shortest decimal of a double rounds to it (`roundsTo_shortest`): either the search
for it stopped at a decimal that does, or it went down to seventeen digits, where the nearest decimal is near enough.
-/

namespace GraphQuery.Decimal

/-! ## Quotients of powers -/

theorem zpow_eq_div (b : Nat) (hb : 0 < b) (k : Int) :
    (b : ℚ) ^ k = (Nat.pow b k.toNat : Nat) / (Nat.pow b (-k).toNat : Nat) := by
  have hb' : (b : ℚ) ≠ 0 := by positivity
  rcases Int.le_total 0 k with hk | hk
  · obtain ⟨n, rfl⟩ := Int.eq_ofNat_of_zero_le hk
    simp
  · obtain ⟨n, hn⟩ := Int.eq_ofNat_of_zero_le (Int.neg_nonneg_of_nonpos hk)
    obtain rfl : k = -(n : Int) := by omega
    simp

/-- The number that a decimal stands for. -/
def toRat (d : Decimal) : ℚ := d.digits * (10 : ℚ) ^ d.exponent

theorem ratio_pos (d : Decimal) : 0 < d.ratio.2 := Nat.pow_pos (by decide)

theorem toRat_eq (d : Decimal) : d.toRat = d.ratio.1 / d.ratio.2 := by
  have h10 := zpow_eq_div 10 (by decide) d.exponent
  rw [toRat, ratio]
  push_cast at h10 ⊢
  rw [h10]
  ring

/-! ## The ends of a rounding interval -/

/-- A number rounds to the double: it lies between the ends, and is none of them if the significand is odd. -/
structure RoundsTo (m : Nat) (q : Int) (x : ℚ) : Prop where
  lower : (Rounding.of m q).lower * (2 : ℚ) ^ (q - 2) ≤ x
  upper : x ≤ (Rounding.of m q).upper * (2 : ℚ) ^ (q - 2)
  inner : m % 2 = 1 → (Rounding.of m q).lower * (2 : ℚ) ^ (q - 2) < x ∧ x < (Rounding.of m q).upper * (2 : ℚ) ^ (q - 2)

theorem unit_eq (m : Nat) (q : Int) :
    (2 : ℚ) ^ (q - 2) = (Rounding.of m q).unitNum / (Rounding.of m q).unitDen := by
  have h2 := zpow_eq_div 2 (by decide) (q - 2)
  rw [show -(q - 2) = 2 - q by omega] at h2
  exact_mod_cast h2

theorem unitDen_pos (m : Nat) (q : Int) : 0 < (Rounding.of m q).unitDen := Nat.pow_pos (by decide)

section Bounds

variable (m : Nat) (q : Int) (bound : Nat) (d : Decimal)

theorem bound_le_iff : bound * (2 : ℚ) ^ (q - 2) ≤ d.toRat ↔
    bound * (Rounding.of m q).unitNum * d.ratio.2 ≤ d.ratio.1 * (Rounding.of m q).unitDen := by
  have hden : (0 : ℚ) < d.ratio.2 := by exact_mod_cast ratio_pos d
  have hunit : (0 : ℚ) < (Rounding.of m q).unitDen := by exact_mod_cast unitDen_pos m q
  rw [toRat_eq, unit_eq m q, ← mul_div_assoc, div_le_div_iff₀ hunit hden]
  exact_mod_cast Iff.rfl

theorem le_bound_iff : d.toRat ≤ bound * (2 : ℚ) ^ (q - 2) ↔
    d.ratio.1 * (Rounding.of m q).unitDen ≤ bound * (Rounding.of m q).unitNum * d.ratio.2 := by
  have hden : (0 : ℚ) < d.ratio.2 := by exact_mod_cast ratio_pos d
  have hunit : (0 : ℚ) < (Rounding.of m q).unitDen := by exact_mod_cast unitDen_pos m q
  rw [toRat_eq, unit_eq m q, ← mul_div_assoc, div_le_div_iff₀ hden hunit]
  exact_mod_cast Iff.rfl

end Bounds

theorem contains_iff {m : Nat} {q : Int} {d : Decimal} :
    (Rounding.of m q).contains d ↔ RoundsTo m q d.toRat := by
  have hlow := bound_le_iff m q (Rounding.of m q).lower d
  have hhigh := le_bound_iff m q (Rounding.of m q).upper d
  have hlow' := le_bound_iff m q (Rounding.of m q).lower d
  have hhigh' := bound_le_iff m q (Rounding.of m q).upper d
  have hclosed : (Rounding.of m q).closed = decide (m % 2 = 0) := rfl
  rw [Rounding.contains]
  by_cases heven : m % 2 = 0
  · simp only [hclosed, heven, decide_true, if_true, Bool.and_eq_true, decide_eq_true_eq]
    rw [← hlow, ← hhigh]
    constructor
    · rintro ⟨h₁, h₂⟩
      exact ⟨h₁, h₂, fun h => absurd h (by omega)⟩
    · rintro ⟨h₁, h₂, -⟩
      exact ⟨h₁, h₂⟩
  · simp only [hclosed, heven, decide_false, Bool.false_eq_true, if_false, Bool.and_eq_true, decide_eq_true_eq]
    rw [← Nat.not_le, ← Nat.not_le, ← hlow', ← hhigh', not_le, not_le]
    constructor
    · rintro ⟨h₁, h₂⟩
      exact ⟨h₁.le, h₂.le, fun _ => ⟨h₁, h₂⟩⟩
    · rintro ⟨-, -, h⟩
      exact h (by omega)

/-! ## No number rounds to two doubles -/

variable {m m' : Nat} {q q' : Int} {x : ℚ}

theorem lower_of (m : Nat) (q : Int) :
    (Rounding.of m q).lower = if m = 2 ^ 52 ∧ -1074 < q then 4 * m - 1 else 4 * m - 2 := rfl

theorem upper_of (m : Nat) (q : Int) : (Rounding.of m q).upper = 4 * m + 2 := rfl

theorem le_lower (m : Nat) (q : Int) : 4 * m - 2 ≤ (Rounding.of m q).lower := by
  rw [lower_of]
  split <;> omega

theorem RoundsTo.zero (q : Int) : RoundsTo 0 q 0 :=
  ⟨by rw [lower_of, if_neg fun h => absurd h.1 (by decide)]; simp, by positivity, fun h => absurd h (by decide)⟩

theorem RoundsTo.pos (h : RoundsTo m q x) (hm : 0 < m) : 0 < x := by
  have hlow : 0 < (Rounding.of m q).lower := Nat.lt_of_lt_of_le (by omega) (le_lower m q)
  exact h.lower.trans_lt' (by positivity)

/-- The ends of two doubles that one number rounds to overlap, or they meet and both significands are even. -/
theorem RoundsTo.meet (h : RoundsTo m q x) (h' : RoundsTo m' q' x) :
    (Rounding.of m' q').lower * (2 : ℚ) ^ (q' - 2) < (Rounding.of m q).upper * (2 : ℚ) ^ (q - 2) ∨
    ((Rounding.of m' q').lower * (2 : ℚ) ^ (q' - 2) = (Rounding.of m q).upper * (2 : ℚ) ^ (q - 2) ∧
      m % 2 = 0 ∧ m' % 2 = 0) := by
  rcases (h'.lower.trans h.upper).lt_or_eq with hlt | heq
  · exact .inl hlt
  · refine .inr ⟨heq, ?_, ?_⟩
    · exact (Nat.mod_two_eq_zero_or_one m).resolve_right fun hodd =>
        absurd ((h.inner hodd).2.trans_le (heq.symm.le.trans h'.lower)) (lt_irrefl x)
    · exact (Nat.mod_two_eq_zero_or_one m').resolve_right fun hodd =>
        absurd ((h.upper.trans heq.symm.le).trans_lt (h'.inner hodd).1) (lt_irrefl x)

/-- Nothing rounds both to a double and to a greater one of the same exponent. -/
theorem RoundsTo.significand_le (h : RoundsTo m q x) (h' : RoundsTo m' q x) : m' ≤ m := by
  have hpow : (0 : ℚ) < 2 ^ (q - 2) := by positivity
  have hlow := le_lower m' q
  have hmeet := h.meet h'
  rw [mul_lt_mul_iff_left₀ hpow, mul_left_inj' hpow.ne', upper_of] at hmeet
  norm_cast at hmeet
  omega

/-- Nothing rounds both to a double and to one of a greater exponent, whose significand has all its bits. -/
theorem RoundsTo.exponent_le (hc : Double.Canonical m q) (hc' : Double.Canonical m' q') (h : RoundsTo m q x)
    (h' : RoundsTo m' q' x) : q' ≤ q := by
  by_contra hlt
  obtain ⟨hm, hq, -, -⟩ := hc
  have hm' : 2 ^ 52 ≤ m' := Nat.le_of_not_lt fun hsmall => absurd (hc'.2.2.2 hsmall) (by omega)
  obtain ⟨k, hk⟩ : ∃ k : Nat, q' - 2 = (k + 1 : Nat) + (q - 2) := ⟨(q' - q - 1).toNat, by omega⟩
  have hpow : (0 : ℚ) < 2 ^ (q - 2) := by positivity
  have hmeet := h.meet h'
  rw [hk, zpow_add₀ two_ne_zero, zpow_natCast, ← mul_assoc, mul_lt_mul_iff_left₀ hpow, mul_left_inj' hpow.ne',
    upper_of] at hmeet
  norm_cast at hmeet
  have hlow : 2 ^ 54 - 1 ≤ (Rounding.of m' q').lower := by
    rw [lower_of]
    split <;> omega
  -- The upper end of the other is no further up than this, and there only if its significand is odd.
  have hdouble : (2 ^ 54 - 1) * 2 ≤ (Rounding.of m' q').lower * 2 ^ (k + 1) :=
    Nat.mul_le_mul hlow (Nat.le_self_pow (Nat.succ_ne_zero k) 2)
  have hm : m < 2 ^ 53 := hm
  omega

theorem RoundsTo.unique (hc : Double.Canonical m q) (hc' : Double.Canonical m' q') (h : RoundsTo m q x)
    (h' : RoundsTo m' q' x) : m = m' ∧ q = q' := by
  obtain rfl : q = q' := Int.le_antisymm (h'.exponent_le hc' hc h) (h.exponent_le hc hc' h')
  exact ⟨Nat.le_antisymm (h'.significand_le h) (h.significand_le h'), rfl⟩

/-! ## The grid of seventeen digits -/

theorem lt_pow_digitCount (n : Nat) : n < 10 ^ digitCount n := by
  rw [digitCount]
  split
  · omega
  · exact (Nat.length_toDigits_le_iff (by decide) (List.length_pos_iff.2 Nat.toDigits_ne_nil)).1 le_rfl

theorem pow_digitCount_le {n : Nat} (hn : 0 < n) : 10 ^ (digitCount n - 1) ≤ n := by
  rw [digitCount, if_neg hn.ne']
  by_contra hlt
  have hpos : 0 < (Nat.toDigits 10 n).length := List.length_pos_iff.2 Nat.toDigits_ne_nil
  by_cases hone : (Nat.toDigits 10 n).length = 1
  · rw [hone] at hlt
    omega
  · have hle := (Nat.length_toDigits_le_iff (b := 10) (n := n) (by decide) (by omega)).2 (Nat.lt_of_not_le hlt)
    omega

/-- The power of ten that the search starts from is not greater than the number. -/
theorem zpow_floorLog10_le {num den : Nat} (hnum : 0 < num) (hden : 0 < den) :
    (10 : ℚ) ^ floorLog10 num den ≤ num / den := by
  have hden' : (0 : ℚ) < den := by exact_mod_cast hden
  rw [floorLog10]
  split
  · next hle =>
    have hpos : 0 < num / den := Nat.div_pos hle hden
    have hcount : digitCount (num / den) ≠ 0 := by
      rw [digitCount, if_neg hpos.ne']
      exact (List.length_pos_iff.2 Nat.toDigits_ne_nil).ne'
    rw [show (digitCount (num / den) : Int) - 1 = (digitCount (num / den) - 1 : Nat) by omega, zpow_natCast,
      le_div_iff₀ hden']
    have hmul := (Nat.mul_le_mul_right den (pow_digitCount_le hpos)).trans (Nat.div_mul_le_self num den)
    exact_mod_cast hmul
  · next hlt =>
    -- The denominator is at most `10 ^ n` times the numerator, for the digits `n` of the quotient less one.
    have hceil : (den + num - 1) / num < 10 ^ digitCount ((den + num - 1) / num - 1) + 1 := by
      have hlt := lt_pow_digitCount ((den + num - 1) / num - 1)
      omega
    have hmul : den ≤ num * 10 ^ digitCount ((den + num - 1) / num - 1) := by
      have hlt := (Nat.div_lt_iff_lt_mul hnum).1 hceil
      rw [Nat.add_mul, Nat.mul_comm] at hlt
      omega
    rw [zpow_neg, zpow_natCast, inv_le_comm₀ (by positivity) (by positivity), inv_div, div_le_iff₀ (by positivity),
      mul_comm]
    exact_mod_cast hmul

/-- The nearest natural number is at most one half away. -/
theorem divide_near (num : Nat) {den : Nat} (hden : 0 < den) :
    2 * num ≤ 2 * (Nearest.divide num den * den) + den ∧ 2 * (Nearest.divide num den * den) ≤ 2 * num + den := by
  have hdiv := Nat.div_add_mod num den
  have hmod := Nat.mod_lt num hden
  rw [Nearest.divide]
  rw [Nat.mul_comm] at hdiv
  split
  · omega
  · split
    · rw [Nat.add_mul]
      omega
    · split
      · omega
      · rw [Nat.add_mul]
        omega

/-- The first of the neighbours is the nearest multiple of the power of ten. -/
theorem headD_neighbours (r : Rounding) (k : Int) (d : Decimal) : (r.neighbours k).headD d =
    ⟨Nearest.divide (r.value * r.unitNum * Nat.pow 10 (-k).toNat) (r.unitDen * Nat.pow 10 k.toNat), k⟩ := by
  rw [Rounding.neighbours]
  split
  · next h =>
    rw [h]
    rfl
  · next h =>
    rw [Nearest.divide] at h ⊢
    grind

theorem contains_search {r : Rounding} {steps : Nat} {k : Int}
    (hlast : ∀ d, r.contains ((r.neighbours (k - steps)).headD d)) : r.contains (r.search steps k) := by
  induction steps generalizing k with
  | zero => simpa [Rounding.search] using hlast ⟨0, k⟩
  | succ steps ih =>
    rw [Rounding.search]
    cases hfind : (r.neighbours k).find? r.contains with
    | some d => exact List.find?_some hfind
    | none => exact ih fun d => by simpa [← sub_sub, sub_right_comm] using hlast d

/-- The nearest multiple of a power of ten is at most half of that power away. -/
theorem grid_near (r : Rounding) (hunit : 0 < r.unitDen) (k : Int) (d : Decimal) :
    |((r.neighbours k).headD d).toRat - r.value * (r.unitNum / r.unitDen)| ≤ (10 : ℚ) ^ k / 2 := by
  have hpow : (0 : ℚ) < 10 ^ k := by positivity
  have hk := zpow_eq_div 10 (by decide) k
  have hden : 0 < r.unitDen * Nat.pow 10 k.toNat := Nat.mul_pos hunit (Nat.pow_pos (by decide))
  obtain ⟨hle, hge⟩ := divide_near (r.value * r.unitNum * Nat.pow 10 (-k).toNat) hden
  have hquot : ((r.value * r.unitNum * Nat.pow 10 (-k).toNat : Nat) : ℚ) / (r.unitDen * Nat.pow 10 k.toNat : Nat) *
      10 ^ k = r.value * (r.unitNum / r.unitDen) := by
    have hunit' : (r.unitDen : ℚ) ≠ 0 := by exact_mod_cast hunit.ne'
    rw [Nat.cast_ofNat] at hk
    rw [hk]
    push_cast
    field_simp
  rw [headD_neighbours, toRat, ← hquot]
  generalize r.value * r.unitNum * Nat.pow 10 (-k).toNat = num at *
  generalize r.unitDen * Nat.pow 10 k.toNat = den at *
  have hden' : (0 : ℚ) < den := by exact_mod_cast hden
  have hle' : (num : ℚ) / den ≤ Nearest.divide num den + 1 / 2 := by
    rw [div_le_iff₀ hden']
    have : (2 : ℚ) * num ≤ 2 * (Nearest.divide num den * den) + den := by exact_mod_cast hle
    linarith
  have hge' : Nearest.divide num den - 1 / 2 ≤ (num : ℚ) / den := by
    rw [le_div_iff₀ hden']
    have : (2 : ℚ) * (Nearest.divide num den * den) ≤ 2 * num + den := by exact_mod_cast hge
    linarith
  have hquotient : |Nearest.divide num den - (num : ℚ) / den| ≤ 1 / 2 := by
    rw [abs_le]
    constructor <;> linarith
  calc |(Nearest.divide num den : ℚ) * 10 ^ k - num / den * 10 ^ k|
      = |Nearest.divide num den - (num : ℚ) / den| * 10 ^ k := by rw [← sub_mul, abs_mul, abs_of_pos hpow]
    _ ≤ 1 / 2 * 10 ^ k := by gcongr
    _ = 10 ^ k / 2 := by ring

/-- Seventeen digits are enough: what differs from a double by half a unit in the seventeenth digit rounds to it. -/
theorem RoundsTo.of_near (hm : 0 < m) (hm' : m < 2 ^ 53)
    (hnear : |x - 4 * m * (2 : ℚ) ^ (q - 2)| ≤ 4 * m * (2 : ℚ) ^ (q - 2) / 10 ^ 16 / 2) : RoundsTo m q x := by
  have hu : (0 : ℚ) < 2 ^ (q - 2) := by positivity
  have hstrict : (Rounding.of m q).lower * (2 : ℚ) ^ (q - 2) < x ∧
      x < (Rounding.of m q).upper * (2 : ℚ) ^ (q - 2) := by
    obtain ⟨hbelow, habove⟩ := abs_le.1 hnear
    generalize (2 : ℚ) ^ (q - 2) = u at *
    have hmu : (m : ℚ) * u ≤ 2 ^ 53 * u := by
      have hm' : (m : ℚ) ≤ 2 ^ 53 := by exact_mod_cast hm'.le
      gcongr
    constructor
    · by_cases hpower : m = 2 ^ 52
      · have hlower : (Rounding.of m q).lower * u ≤ (4 * m - 1) * u := by
          gcongr
          rw [lower_of, le_sub_iff_add_le]
          norm_cast
          split <;> omega
        have hmu : (m : ℚ) * u = 2 ^ 52 * u := by
          rw [hpower]
          norm_cast
        linarith
      · have hlower : ((Rounding.of m q).lower : ℚ) = 4 * m - 2 := by
          rw [lower_of, if_neg fun h => hpower h.1, Nat.cast_sub (by omega)]
          push_cast
          ring
        rw [hlower]
        linarith
    · rw [upper_of]
      push_cast
      linarith
  exact ⟨hstrict.1.le, hstrict.2.le, fun _ => hstrict⟩

/-- The shortest decimal of a double rounds to it. -/
theorem roundsTo_shortest (hc : Double.Canonical m q) (hm : 0 < m) : RoundsTo m q (shortest m q).toRat := by
  rw [← contains_iff, shortest]
  refine contains_search fun d => contains_iff.2 (.of_near hm hc.1 ?_)
  have hunit : 0 < (Rounding.of m q).unitDen := Nat.pow_pos (by decide)
  have hnum : 0 < (Rounding.of m q).value * (Rounding.of m q).unitNum :=
    Nat.mul_pos (Nat.mul_pos (by decide) hm) (Nat.pow_pos (by decide))
  have hvalue : ((Rounding.of m q).value : ℚ) = 4 * m := by exact_mod_cast rfl
  have hlog := zpow_floorLog10_le hnum hunit
  rw [Nat.cast_mul, mul_div_assoc, ← unit_eq, hvalue] at hlog
  have hnear := grid_near (Rounding.of m q) hunit
    (floorLog10 ((Rounding.of m q).value * (Rounding.of m q).unitNum) (Rounding.of m q).unitDen - (16 : Nat)) d
  rw [← unit_eq, hvalue, zpow_sub₀ (by norm_num : (10 : ℚ) ≠ 0) _ (16 : Nat), zpow_natCast] at hnear
  exact hnear.trans (by gcongr)

end GraphQuery.Decimal
