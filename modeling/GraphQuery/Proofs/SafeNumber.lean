import GraphQuery.Proofs.Payload
import Mathlib.Data.Nat.Cast.Field

/-!
# Safe numbers are exact

A number stands for a rational number (`Number.toRat`), and its safe form is decided by it: the integer that it is
equal to, where there is one of at most `2 ^ 53 - 1` in absolute value, and otherwise its text
(`Json.safeNumber_eq_number_iff`, `Json.safeNumber_eq_string_iff`). The computation with words and doubles finds the same
(`Json.safeNumber64_eq`), because no step of it rounds or overflows (`Number.stepsExact`): the absolute value of the
least signed word is an unsigned word, the limit is a double, and the doubles that are made into words are whole and not
greater than the limit (`safe_numbers_exact`).
-/

namespace GraphQuery

/-! ## What numbers stand for -/

/-- The rational number that a double stands for. -/
def Double.toRat (d : Double) : ℚ := (if d.negative then -1 else 1) * (d.significand * (2 : ℚ) ^ d.exponent)

/-- The rational number that a number stands for. -/
def Number.toRat : Number → ℚ
  | .int i => i
  | .float d => d.toRat

theorem Number.toRat_float (d : Double) : (Number.float d).toRat = d.toRat := rfl

namespace Double

variable (d : Double)

theorem magnitude_pos : 0 < d.magnitude.2 := Nat.pow_pos (by decide)

theorem abs_toRat : |d.toRat| = d.magnitude.1 / d.magnitude.2 := by
  have h2 := Decimal.zpow_eq_div 2 (by decide) d.exponent
  have hsign : |(if d.negative then -1 else 1 : ℚ)| = 1 := by split <;> simp
  have hpos : (0 : ℚ) ≤ d.significand * (2 : ℚ) ^ d.exponent := by positivity
  rw [toRat, abs_mul, hsign, one_mul, abs_of_nonneg hpos, magnitude]
  push_cast at h2 ⊢
  rw [h2, mul_div_assoc]

theorem toRat_eq :
    d.toRat = if d.negative then -(d.magnitude.1 / d.magnitude.2 : ℚ) else d.magnitude.1 / d.magnitude.2 := by
  have hpos : (0 : ℚ) ≤ d.significand * (2 : ℚ) ^ d.exponent := by positivity
  rw [← abs_toRat, toRat]
  split
  · rw [neg_one_mul, abs_neg, abs_of_nonneg hpos]
  · rw [one_mul, abs_of_nonneg hpos]

theorem truncate_eq (h : d.isWhole) : (d.truncate : ℚ) = d.toRat := by
  have hden : (d.magnitude.2 : ℚ) ≠ 0 := by exact_mod_cast d.magnitude_pos.ne'
  have hdvd : d.magnitude.2 ∣ d.magnitude.1 := Nat.dvd_of_mod_eq_zero (by simpa [isWhole] using h)
  rw [toRat_eq, truncate, ← Nat.cast_div hdvd hden]
  split
  · rw [Int.cast_neg, Int.cast_natCast]
  · rw [Int.cast_natCast]

theorem isWhole_iff : d.isWhole ↔ ∃ i : ℤ, (i : ℚ) = d.toRat := by
  constructor
  · intro h
    exact ⟨d.truncate, d.truncate_eq h⟩
  · rintro ⟨i, hi⟩
    have hden : (d.magnitude.2 : ℚ) ≠ 0 := by exact_mod_cast d.magnitude_pos.ne'
    have habs : (i.natAbs : ℚ) * d.magnitude.2 = d.magnitude.1 := by
      rw [Nat.cast_natAbs, Int.cast_abs, hi, abs_toRat, div_mul_cancel₀ _ hden]
    have hmul : i.natAbs * d.magnitude.2 = d.magnitude.1 := by exact_mod_cast habs
    rw [isWhole, ← hmul, Nat.mul_mod_left]
    rfl

theorem toInt?_eq : d.toInt? = if d.isWhole then some d.truncate else none := by
  simp [toInt?, isWhole, truncate]

theorem toInt?_eq_some_iff {i : ℤ} : d.toInt? = some i ↔ (i : ℚ) = d.toRat := by
  rw [toInt?_eq]
  split
  · next h =>
    rw [Option.some.injEq, ← d.truncate_eq h, Int.cast_inj, eq_comm]
  · next h =>
    rw [isWhole_iff] at h
    simpa using fun hi => h ⟨i, hi⟩

theorem absLe_iff {e : Double} : d.absLe e ↔ |d.toRat| ≤ |e.toRat| := by
  have hd : (0 : ℚ) < d.magnitude.2 := by exact_mod_cast d.magnitude_pos
  have he : (0 : ℚ) < e.magnitude.2 := by exact_mod_cast e.magnitude_pos
  rw [abs_toRat, abs_toRat, div_le_div_iff₀ hd he, absLe, decide_eq_true_iff]
  exact_mod_cast Iff.rfl

theorem toInt_toInt64 (h : d.isWhole) (hle : |d.toRat| ≤ 2 ^ 53 - 1) : (d.toInt64.toInt : ℚ) = d.toRat := by
  have habs : |d.truncate| ≤ 2 ^ 53 - 1 := by
    rw [← d.truncate_eq h] at hle
    exact_mod_cast hle
  obtain ⟨hlow, hhigh⟩ := abs_le.1 habs
  have hmin : Int64.minValue.toInt = -9223372036854775808 := by decide
  have hmax : Int64.maxValue.toInt = 9223372036854775807 := by decide
  rw [← d.truncate_eq h, toInt64, Int64.toInt_ofIntClamp (by omega) (by omega)]

end Double

theorem Number.toInt?_eq_some_iff {n : Number} {i : ℤ} : n.toInt? = some i ↔ (i : ℚ) = n.toRat := by
  cases n with
  | int j => rw [toInt?, toRat, Option.some.injEq, Int.cast_inj, eq_comm]
  | float d => exact d.toInt?_eq_some_iff

/-! ## Words -/

/-- The absolute value of a signed word as an unsigned one; that of the least word is there too. -/
theorem toNat_abs_toUInt64 (w : Int64) : w.abs.toUInt64.toNat = w.toInt.natAbs := by
  have habs : w.abs.toUInt64.toNat = w.toBitVec.abs.toNat := rfl
  have hlt := w.toBitVec.isLt
  rw [habs, BitVec.toNat_abs, ← Int64.toInt_toBitVec, BitVec.toInt_eq_msb_cond]
  split <;> omega

namespace Number

theorem toInt64?_eq_some_iff {n : Number} {w : Int64} : n.toInt64? = some w ↔ n = .int w.toInt := by
  have hmin : Int64.minValue.toInt = -2 ^ 63 := by decide
  have hmax : Int64.maxValue.toInt = 2 ^ 63 - 1 := by decide
  cases n with
  | float d => simp [toInt64?]
  | int i =>
    rw [toInt64?, hmin, hmax, Number.int.injEq]
    constructor
    · intro h
      split at h
      · next hfits =>
        rw [← Option.some.inj h, Int64.toInt_ofInt_of_le hfits.1 (by omega)]
      · cases h
    · rintro rfl
      have hlow := w.le_toInt
      have hhigh := w.toInt_lt
      rw [if_pos ⟨hlow, by omega⟩, Int64.ofInt_toInt]

theorem toUInt64?_eq_some_iff {n : Number} {w : UInt64} : n.toUInt64? = some w ↔ n = .int w.toNat := by
  cases n with
  | float d => simp [toUInt64?]
  | int i =>
    rw [toUInt64?, Number.int.injEq]
    constructor
    · intro h
      split at h
      · next hfits =>
        rw [← Option.some.inj h, UInt64.toNat_ofNat_of_lt' hfits.2, Int.toNat_of_nonneg hfits.1]
      · cases h
    · rintro rfl
      rw [if_pos ⟨Int.natCast_nonneg _, w.toNat_lt_size⟩, Int.toNat_natCast, UInt64.ofNat_toNat]

theorem toDouble?_eq_some_iff {n : Number} {d : Double} : n.toDouble? = some d ↔ n = .float d := by
  cases n <;> simp [toDouble?]

theorem toNat_maxSafeWord : maxSafeWord.toNat = 9007199254740991 := by decide

/-- The greatest safe integer is a double. -/
def maxSafeDouble : Double := ⟨false, 9007199254740991, 0, by decide⟩

theorem maxSafeDouble?_eq : maxSafeDouble? = some maxSafeDouble := by decide +kernel

theorem toRat_maxSafeDouble : maxSafeDouble.toRat = 2 ^ 53 - 1 := by
  norm_num [maxSafeDouble, Double.toRat]

/-- An integer of at most 53 bits has a signed word. -/
theorem exists_toInt64?_of_le {i : ℤ} (h : i.natAbs ≤ 9007199254740991) : ∃ w, (int i).toInt64? = some w := by
  refine ⟨Int64.ofInt i, toInt64?_eq_some_iff.2 ?_⟩
  rw [Int64.toInt_ofInt_of_le (by omega) (by omega)]

end Number

theorem Double.absLe_maxSafeDouble (d : Double) : d.absLe Number.maxSafeDouble ↔ |d.toRat| ≤ 2 ^ 53 - 1 := by
  rw [d.absLe_iff, Number.toRat_maxSafeDouble, abs_of_nonneg (by norm_num : (0 : ℚ) ≤ 2 ^ 53 - 1)]

/-! ## Safe numbers -/

theorem natAbs_le_maxSafe_iff {i : ℤ} : i.natAbs ≤ 9007199254740991 ↔ |(i : ℚ)| ≤ 2 ^ 53 - 1 := by
  have hcast : |(i : ℚ)| ≤ 2 ^ 53 - 1 ↔ |i| ≤ 2 ^ 53 - 1 := by exact_mod_cast Iff.rfl
  rw [hcast, Int.abs_eq_natAbs]
  omega

namespace Json

theorem safeNumber_of_toInt? {n : Number} {i : ℤ} (h : n.toInt? = some i) :
    safeNumber n = if i.natAbs ≤ 9007199254740991 then number (.int i) else string n.text := by
  split
  · next hle => exact safeNumber_of_le h hle
  · next hlt =>
    refine safeNumber_of_lt fun j hj => ?_
    obtain rfl : i = j := Option.some.inj (h.symm.trans hj)
    exact Nat.lt_of_not_le hlt

/-- A number comes out exactly where there is a safe integer that is equal to it, and then this one. -/
theorem safeNumber_eq_number_iff {n m : Number} :
    safeNumber n = number m ↔ ∃ i : ℤ, m = .int i ∧ (i : ℚ) = n.toRat ∧ |n.toRat| ≤ 2 ^ 53 - 1 := by
  constructor
  · intro h
    cases hi : n.toInt? with
    | none =>
      rw [safeNumber_of_lt (by simp [hi])] at h
      cases h
    | some i =>
      rw [safeNumber_of_toInt? hi] at h
      split at h
      · next hle =>
        rw [natAbs_le_maxSafe_iff, Number.toInt?_eq_some_iff.1 hi] at hle
        exact ⟨i, (Json.number.inj h).symm, Number.toInt?_eq_some_iff.1 hi, hle⟩
      · cases h
  · rintro ⟨i, rfl, hi, hle⟩
    rw [← hi, ← natAbs_le_maxSafe_iff] at hle
    exact safeNumber_of_le (Number.toInt?_eq_some_iff.2 hi) hle

/-- Any other number is its text. -/
theorem safeNumber_eq_string_iff {n : Number} {s : String} :
    safeNumber n = string s ↔ s = n.text ∧ ¬ ∃ i : ℤ, (i : ℚ) = n.toRat ∧ |n.toRat| ≤ 2 ^ 53 - 1 := by
  by_cases h : ∃ i : ℤ, (i : ℚ) = n.toRat ∧ |n.toRat| ≤ 2 ^ 53 - 1
  · obtain ⟨i, hi⟩ := h
    rw [safeNumber_eq_number_iff.2 ⟨i, rfl, hi⟩]
    simpa using fun _ => ⟨⟨i, hi.1⟩, hi.2⟩
  · have hlt : ∀ i, n.toInt? = some i → 9007199254740991 < i.natAbs := by
      intro i hi
      rw [← Nat.not_le, natAbs_le_maxSafe_iff, Number.toInt?_eq_some_iff.1 hi]
      exact fun hle => h ⟨i, Number.toInt?_eq_some_iff.1 hi, hle⟩
    rw [safeNumber_of_lt hlt, Json.string.injEq, eq_comm]
    exact ⟨fun hs => ⟨hs, h⟩, fun hs => hs.1⟩

/-- An integer is compared as a word, signed if it fits and else unsigned. -/
theorem safeNumber64_int (i : ℤ) :
    safeNumber64 (.int i) = if i.natAbs ≤ 9007199254740991 then number (.int i) else string (Number.int i).text := by
  rw [safeNumber64]
  cases hsigned : (Number.int i).toInt64? with
  | some w =>
    obtain rfl : i = w.toInt := Number.int.inj (Number.toInt64?_eq_some_iff.1 hsigned)
    simp only [UInt64.le_iff_toNat_le, toNat_abs_toUInt64, Number.toNat_maxSafeWord]
  | none =>
    have hlt : ¬ i.natAbs ≤ 9007199254740991 := fun hle => by
      obtain ⟨w, hw⟩ := Number.exists_toInt64?_of_le hle
      cases hsigned.symm.trans hw
    rw [if_neg hlt]
    cases hunsigned : (Number.int i).toUInt64? with
    | some w =>
      obtain rfl : i = w.toNat := Number.int.inj (Number.toUInt64?_eq_some_iff.1 hunsigned)
      have hgt : ¬ w ≤ Number.maxSafeWord := by
        rwa [UInt64.le_iff_toNat_le, Number.toNat_maxSafeWord]
      exact if_neg hgt
    | none => rfl

theorem safeNumber64_float (d : Double) : safeNumber64 (.float d) =
    if d.isWhole ∧ |d.toRat| ≤ 2 ^ 53 - 1 then number (.int d.toInt64.toInt) else string (Number.float d).text := by
  have hsteps : safeNumber64 (.float d) =
      if d.isWhole && Number.maxSafeDouble?.any d.absLe then number (.int d.toInt64.toInt)
      else string (Number.float d).text := rfl
  rw [hsteps, Number.maxSafeDouble?_eq, Option.any_some]
  simp only [Bool.and_eq_true, d.absLe_maxSafeDouble]

/-- The computation with words and doubles finds the safe number. -/
theorem safeNumber64_eq (n : Number) : safeNumber64 n = safeNumber n := by
  cases n with
  | int i => rw [safeNumber64_int, safeNumber_of_toInt? (n := .int i) rfl]
  | float d =>
    rw [safeNumber64_float]
    split
    · next h =>
      rw [eq_comm, safeNumber_eq_number_iff, Number.toRat_float]
      exact ⟨_, rfl, d.toInt_toInt64 h.1 h.2, h.2⟩
    · next h =>
      rw [eq_comm, safeNumber_eq_string_iff, Number.toRat_float]
      refine ⟨rfl, ?_⟩
      rintro ⟨i, hi, hle⟩
      exact h ⟨d.isWhole_iff.2 ⟨i, hi⟩, hle⟩

end Json

/-! ## Exact steps -/

/-- What the computation with words and doubles does with a number on its way is exact. -/
structure Number.StepsExact (n : Number) : Prop where
  /-- A signed word is found for the integers that are one, and is that integer. -/
  signed : ∀ w : Int64, n.toInt64? = some w ↔ n = .int w.toInt
  /-- An unsigned word is found for the integers that are one, and is that integer. -/
  unsigned : ∀ w : UInt64, n.toUInt64? = some w ↔ n = .int w.toNat
  /-- A double is found for the numbers that are one. -/
  double : ∀ d : Double, n.toDouble? = some d ↔ n = .float d
  /-- The absolute value of the signed word is that of the number. -/
  absolute : ∀ w ∈ n.toInt64?, (w.abs.toUInt64.toNat : ℚ) = |n.toRat|
  /-- The limit is the same as a word and as a double. -/
  limit : maxSafeWord.toNat = 2 ^ 53 - 1 ∧ ∃ limit, maxSafeDouble? = some limit ∧ limit.toRat = 2 ^ 53 - 1
  /-- The double is whole where the number is an integer. -/
  whole : ∀ d ∈ n.toDouble?, d.isWhole ↔ ∃ i : ℤ, (i : ℚ) = n.toRat
  /-- The double is compared with the limit as the number is. -/
  compared : ∀ d ∈ n.toDouble?, ∀ limit ∈ maxSafeDouble?, d.absLe limit ↔ |n.toRat| ≤ 2 ^ 53 - 1
  /-- The word that the double is made into is the number. -/
  truncated : ∀ d ∈ n.toDouble?, d.isWhole → |n.toRat| ≤ 2 ^ 53 - 1 → (d.toInt64.toInt : ℚ) = n.toRat

theorem Number.stepsExact (n : Number) : n.StepsExact where
  signed _ := toInt64?_eq_some_iff
  unsigned _ := toUInt64?_eq_some_iff
  double _ := toDouble?_eq_some_iff
  absolute w hw := by
    rw [toInt64?_eq_some_iff.1 hw, toNat_abs_toUInt64, toRat, Nat.cast_natAbs, Int.cast_abs]
  limit := ⟨toNat_maxSafeWord, maxSafeDouble, maxSafeDouble?_eq, toRat_maxSafeDouble⟩
  whole d hd := by
    rw [toDouble?_eq_some_iff.1 hd, toRat_float]
    exact d.isWhole_iff
  compared d hd limit hlimit := by
    obtain rfl : maxSafeDouble = limit := Option.some.inj (maxSafeDouble?_eq.symm.trans hlimit)
    rw [toDouble?_eq_some_iff.1 hd, toRat_float]
    exact d.absLe_maxSafeDouble
  truncated d hd := by
    rw [toDouble?_eq_some_iff.1 hd, toRat_float]
    exact d.toInt_toInt64

/-- **Safe numbers**: what the computation with words and doubles makes of a number is a number exactly where the number
is an integer of at most `2 ^ 53 - 1` in absolute value, and is this integer then; it is the text of the number
otherwise; it is the safe form of the number in any case, and each step on the way is exact. -/
theorem safe_numbers_exact (n : Number) :
    (∀ m : Number, Json.safeNumber64 n = .number m ↔
      ∃ i : ℤ, m = .int i ∧ (i : ℚ) = n.toRat ∧ |n.toRat| ≤ 2 ^ 53 - 1) ∧
    (∀ s : String, Json.safeNumber64 n = .string s ↔
      s = n.text ∧ ¬ ∃ i : ℤ, (i : ℚ) = n.toRat ∧ |n.toRat| ≤ 2 ^ 53 - 1) ∧
    Json.safeNumber64 n = Json.safeNumber n ∧ n.StepsExact := by
  rw [Json.safeNumber64_eq]
  exact ⟨fun _ => Json.safeNumber_eq_number_iff, fun _ => Json.safeNumber_eq_string_iff, rfl, n.stepsExact⟩

-- The least signed word, the greatest safe integer and the next one as words and as doubles, and the zero with a sign.
example : [Number.int (-9223372036854775808), .int 9007199254740991, .int 9007199254740992,
    .float ⟨true, 9007199254740991, 0, by decide⟩, .float ⟨false, 4503599627370496, 1, by decide⟩,
    .float ⟨true, 0, -1074, by decide⟩].map (fun n => (Json.safeNumber64 n).text) =
    ["\"-9223372036854775808\"", "9007199254740991", "\"9007199254740992\"", "-9007199254740991",
      "\"9007199254740992.0\"", "0"] := by
  decide +kernel

end GraphQuery
