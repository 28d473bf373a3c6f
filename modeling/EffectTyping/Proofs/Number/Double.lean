/-
Rounding to doubles. The reals that are nearest to a double form an interval around its magnitude, narrower below a
power of two and closed exactly if the significand is even; every fraction in that interval is rounded to the double.
And every fraction below the overflow is rounded to some double, up by at most a part in `2 ^ 53` unless it is tiny, and
never down past a power of two.
-/
import EffectTyping.Number.Double
import EffectTyping.Number.Shortest
import Mathlib.Data.Int.Log
import Mathlib.Algebra.Order.Field.Power
import Mathlib.Tactic.FieldSimp
import Mathlib.Tactic.Linarith
import Mathlib.Tactic.NormNum
import Mathlib.Tactic.Positivity
import Mathlib.Tactic.Ring

namespace EffectTyping.Double

/-! ## Fields -/

theorem scale_of_normal {x : Double} (h : x.exponent.val ≠ 0) : x.scale = (x.exponent.val : Int) - 1075 := by
  rw [scale, if_neg h]

theorem significand_of_normal {x : Double} (h : x.exponent.val ≠ 0) :
    x.significand = x.fraction.val + leadingBit := by
  rw [significand, if_neg h]

theorem scale_of_subnormal {x : Double} (h : x.exponent.val = 0) : x.scale = -1074 := by
  rw [scale, if_pos h]

theorem significand_lt (x : Double) : x.significand < 2 * leadingBit := by
  have := x.fraction.isLt
  unfold significand
  split <;> omega

theorem significand_pos {x : Double} (h : x.isZero = false) : 0 < x.significand := by
  unfold significand
  simp only [isZero, Bool.and_eq_false_iff, beq_eq_false_iff_ne] at h
  split <;> omega

theorem scale_bounds (x : Double) : -1074 ≤ x.scale ∧ x.scale ≤ 971 := by
  have := x.exponent.isLt
  unfold scale
  split <;> omega

theorem eq_zero_of_isZero {x : Double} (h : x.isZero = true) : x = zero x.negative := by
  obtain ⟨negative, exponent, fraction⟩ := x
  simp only [isZero, Bool.and_eq_true, beq_iff_eq] at h
  obtain ⟨he, hf⟩ := h
  simp only [zero, mk.injEq, true_and]
  exact ⟨Fin.ext he, Fin.ext hf⟩

/-- A double is made up of its parts. -/
theorem ofParts?_self (x : Double) : ofParts? x.negative x.significand x.scale = some x := by
  obtain ⟨negative, ⟨e, he⟩, ⟨f, hf⟩⟩ := x
  unfold ofParts?
  by_cases h : e = 0
  · subst h
    simp [significand, scale, hf]
  · have hlead : ¬ f + leadingBit < leadingBit := by omega
    have hfields : ((e : Int) - 1075 + 1075).toNat < 2047 ∧ f + leadingBit - leadingBit < leadingBit := by omega
    simp only [significand, scale, h, if_false, dif_neg hlead, dif_pos hfields]
    simp

/-! ## Rounding a quotient -/

/-- The integer that a quotient is within a half of, or at a half of if it is even, is what it is rounded to. -/
theorem roundQuotient_eq {num den m : Nat} (hlow : 2 * m * den ≤ 2 * num + den) (hhigh : 2 * num ≤ (2 * m + 1) * den)
    (hodd : m % 2 = 1 → 2 * m * den < 2 * num + den ∧ 2 * num < (2 * m + 1) * den) (hden : 0 < den) :
    roundQuotient num den = m := by
  have hsplit := Nat.div_add_mod num den
  have hrem := Nat.mod_lt num hden
  unfold roundQuotient
  generalize num / den = q at *
  generalize num % den = r at *
  subst hsplit
  -- the quotient is rounded down or up
  have hup : m ≤ q + 1 := by
    by_contra hlt
    have : (q + 2) * den ≤ m * den := Nat.mul_le_mul_right den (by omega)
    nlinarith
  have hdown : q ≤ m := by
    by_contra hlt
    have : (m + 1) * den ≤ q * den := Nat.mul_le_mul_right den (by omega)
    nlinarith
  obtain rfl | rfl : m = q ∨ m = q + 1 := by omega
  · have hle : 2 * r ≤ den := by nlinarith
    rcases Nat.lt_or_eq_of_le hle with hlt | heq
    · rw [Nat.compare_eq_lt.2 hlt]
    · have heven : m % 2 = 0 := by
        by_contra hne
        have := (hodd (by omega)).2
        nlinarith
      rw [Nat.compare_eq_eq.2 heq]
      exact if_pos heven
  · have hge : den ≤ 2 * r := by nlinarith
    rcases Nat.lt_or_eq_of_le hge with hlt | heq
    · rw [Nat.compare_eq_gt.2 hlt]
    · have hne : ¬ q % 2 = 0 := by
        intro hq
        have := (hodd (by omega)).1
        nlinarith
      rw [Nat.compare_eq_eq.2 heq.symm]
      exact if_neg hne

theorem shiftLeft_pos {n : Nat} (h : 0 < n) (k : Nat) : 0 < n <<< k := by
  rw [Nat.shiftLeft_eq]
  exact Nat.mul_pos h (Nat.two_pow_pos k)

theorem two_zpow_pos (k : Int) : (0 : ℚ) < 2 ^ k := zpow_pos (by norm_num) k

/-- The shifts by an exponent, of the numerator or of the denominator, divide the quotient by the power of two. -/
theorem shifted_quotient (num den : Nat) (q : Int) :
    ((num <<< (-q).toNat : Nat) : ℚ) / (den <<< q.toNat : Nat) = (num : ℚ) / den / 2 ^ q := by
  rw [Nat.shiftLeft_eq, Nat.shiftLeft_eq]
  push_cast
  rcases Int.le_total 0 q with hq | hq
  · obtain ⟨n, rfl⟩ := Int.eq_ofNat_of_zero_le hq
    rw [Int.toNat_of_nonpos (by omega), Int.toNat_natCast, zpow_natCast, pow_zero, mul_one, div_div]
  · obtain ⟨n, rfl⟩ : ∃ n : Nat, q = -(n : Int) := ⟨(-q).toNat, by omega⟩
    rw [neg_neg, Int.toNat_natCast, Int.toNat_of_nonpos (by omega), zpow_neg, zpow_natCast, pow_zero, mul_one,
      div_inv_eq_mul, div_mul_eq_mul_div]

/-- A quotient lies between the bounds that the logarithms of its two numbers give. -/
theorem quotient_bounds {num den : Nat} (hnum : 0 < num) (hden : 0 < den) :
    (2 : ℚ) ^ ((num.log2 : Int) - den.log2 - 1) < (num : ℚ) / den ∧
      (num : ℚ) / den < 2 ^ ((num.log2 : Int) - den.log2 + 1) := by
  have hnumLow : (2 : ℚ) ^ num.log2 ≤ num := by exact_mod_cast Nat.log2_self_le hnum.ne'
  have hnumHigh : (num : ℚ) < 2 ^ (num.log2 + 1) := by exact_mod_cast Nat.lt_log2_self
  have hdenLow : (2 : ℚ) ^ den.log2 ≤ den := by exact_mod_cast Nat.log2_self_le hden.ne'
  have hdenHigh : (den : ℚ) < 2 ^ (den.log2 + 1) := by exact_mod_cast Nat.lt_log2_self
  have hden' : (0 : ℚ) < den := by exact_mod_cast hden
  have hlow : (2 : ℚ) ^ ((num.log2 : Int) - den.log2 - 1) = 2 ^ num.log2 / 2 ^ (den.log2 + 1) := by
    rw [show (num.log2 : Int) - den.log2 - 1 = (num.log2 : Int) - ((den.log2 + 1 : Nat) : Int) by push_cast; ring,
      zpow_sub₀ (by norm_num), zpow_natCast, zpow_natCast]
  have hhigh : (2 : ℚ) ^ ((num.log2 : Int) - den.log2 + 1) = 2 ^ (num.log2 + 1) / 2 ^ den.log2 := by
    rw [show (num.log2 : Int) - den.log2 + 1 = ((num.log2 + 1 : Nat) : Int) - (den.log2 : Int) by push_cast; ring,
      zpow_sub₀ (by norm_num), zpow_natCast, zpow_natCast]
  rw [hlow, hhigh, div_lt_div_iff₀ (by positivity) hden', div_lt_div_iff₀ hden' (by positivity)]
  constructor
  · calc (2 : ℚ) ^ num.log2 * den ≤ num * den := by gcongr
      _ < num * 2 ^ (den.log2 + 1) := by gcongr
  · calc (num : ℚ) * 2 ^ den.log2 ≤ num * den := by gcongr
      _ < 2 ^ (num.log2 + 1) * den := by gcongr

theorem le_shifted_iff {num den : Nat} (hden : 0 < den) (k : Int) :
    den <<< k.toNat ≤ num <<< (-k).toNat ↔ (2 : ℚ) ^ k ≤ (num : ℚ) / den := by
  have hshift := shifted_quotient num den k
  have hpos : (0 : ℚ) < (den <<< k.toNat : Nat) := by exact_mod_cast shiftLeft_pos hden k.toNat
  rw [← one_le_div (two_zpow_pos k), ← hshift, one_le_div hpos, Nat.cast_le]

/-- The logarithm of a quotient is exact. -/
theorem log2Quotient_spec {num den : Nat} (hnum : 0 < num) (hden : 0 < den) :
    (2 : ℚ) ^ log2Quotient num den ≤ (num : ℚ) / den ∧ (num : ℚ) / den < 2 ^ (log2Quotient num den + 1) := by
  obtain ⟨hlow, hhigh⟩ := quotient_bounds hnum hden
  unfold log2Quotient
  dsimp only
  split
  · rename_i h
    exact ⟨(le_shifted_iff hden _).1 h, hhigh⟩
  · rename_i h
    rw [le_shifted_iff hden, not_le] at h
    rw [sub_add_cancel]
    exact ⟨hlow.le, h⟩

/-- A logarithm is known from the powers on its two sides. -/
theorem log2Quotient_eq {num den : Nat} (hnum : 0 < num) (hden : 0 < den) {k : Int}
    (hlow : (2 : ℚ) ^ k ≤ (num : ℚ) / den) (hhigh : (num : ℚ) / den < 2 ^ (k + 1)) : log2Quotient num den = k := by
  obtain ⟨hlow', hhigh'⟩ := log2Quotient_spec hnum hden
  have h1 := (zpow_lt_zpow_iff_right₀ (by norm_num)).1 (hlow.trans_lt hhigh')
  have h2 := (zpow_lt_zpow_iff_right₀ (by norm_num)).1 (hlow'.trans_lt hhigh)
  omega

/-! ## The nearest double -/

/-- Among the doubles of its sign, none is nearer to the real than `x`, and at the same distance `x` has the even
significand. -/
structure Nearest (x : Double) (r : ℚ) : Prop where
  low : (x.significand : ℚ) - (if x.narrowBelow then 1 / 4 else 1 / 2) ≤ r / 2 ^ x.scale
  high : r / 2 ^ x.scale ≤ x.significand + 1 / 2
  odd : x.significand % 2 = 1 → (x.significand : ℚ) - 1 / 2 < r / 2 ^ x.scale ∧ r / 2 ^ x.scale < x.significand + 1 / 2

/-- The rounding of a quotient, in terms of the scaled quotient. -/
theorem roundQuotient_shifted {num den m : Nat} {q : Int} (hden : 0 < den)
    (hlow : (m : ℚ) - 1 / 2 ≤ (num : ℚ) / den / 2 ^ q) (hhigh : (num : ℚ) / den / 2 ^ q ≤ m + 1 / 2)
    (hodd : m % 2 = 1 → (m : ℚ) - 1 / 2 < (num : ℚ) / den / 2 ^ q ∧ (num : ℚ) / den / 2 ^ q < m + 1 / 2) :
    roundQuotient (num <<< (-q).toNat) (den <<< q.toNat) = m := by
  have hpos := shiftLeft_pos hden q.toNat
  have hpos' : (0 : ℚ) < (den <<< q.toNat : Nat) := by exact_mod_cast hpos
  rw [← shifted_quotient] at hlow hhigh hodd
  rw [le_div_iff₀ hpos'] at hlow
  rw [div_le_iff₀ hpos'] at hhigh
  rw [lt_div_iff₀ hpos', div_lt_iff₀ hpos'] at hodd
  refine roundQuotient_eq ?_ ?_ (fun hm => ⟨?_, ?_⟩) hpos
  · have : (2 * m * (den <<< q.toNat : Nat) : ℚ) ≤ 2 * (num <<< (-q).toNat : Nat) + (den <<< q.toNat : Nat) := by
      linarith
    exact_mod_cast this
  · have : (2 * (num <<< (-q).toNat : Nat) : ℚ) ≤ (2 * m + 1) * (den <<< q.toNat : Nat) := by linarith
    exact_mod_cast this
  · have : (2 * m * (den <<< q.toNat : Nat) : ℚ) < 2 * (num <<< (-q).toNat : Nat) + (den <<< q.toNat : Nat) := by
      linarith [(hodd hm).1]
    exact_mod_cast this
  · have : (2 * (num <<< (-q).toNat : Nat) : ℚ) < (2 * m + 1) * (den <<< q.toNat : Nat) := by linarith [(hodd hm).2]
    exact_mod_cast this

theorem two_zpow_add_le_iff {r : ℚ} {s n : Int} : (2 : ℚ) ^ (s + n) ≤ r ↔ (2 : ℚ) ^ n ≤ r / 2 ^ s := by
  rw [le_div_iff₀ (two_zpow_pos s), ← zpow_add₀ (by norm_num), add_comm]

theorem lt_two_zpow_add_iff {r : ℚ} {s n : Int} : r < (2 : ℚ) ^ (s + n) ↔ r / 2 ^ s < (2 : ℚ) ^ n := by
  rw [div_lt_iff₀ (two_zpow_pos s), ← zpow_add₀ (by norm_num), add_comm]

section Nearest

variable {x : Double} {num den : Nat}

/-- Rounding where the scale of the quotient is that of the double. -/
theorem ofQuotient?_of_scale (hnum : 0 < num) (hden : 0 < den) (h : x.Nearest ((num : ℚ) / den))
    (hscale : max (log2Quotient num den) (-1022) - 52 = x.scale) : ofQuotient? x.negative num den = some x := by
  have hwidth : (x.significand : ℚ) - 1 / 2 ≤ (num : ℚ) / den / 2 ^ x.scale := by
    have := h.low
    split at this <;> linarith
  have hround := roundQuotient_shifted hden hwidth h.high h.odd
  have hlt := x.significand_lt
  unfold ofQuotient?
  dsimp only
  rw [if_neg hnum.ne', hscale, hround, if_neg hlt.ne]
  exact ofParts?_self x

/-- Just below a power of two the quotient is scaled one step finer, and the rounding carries. -/
theorem ofQuotient?_of_carry (hnum : 0 < num) (hden : 0 < den) (hx : x.significand = leadingBit)
    (hlow : (leadingBit : ℚ) - 1 / 4 ≤ (num : ℚ) / den / 2 ^ x.scale)
    (hhigh : (num : ℚ) / den / 2 ^ x.scale < leadingBit)
    (hscale : max (log2Quotient num den) (-1022) - 52 = x.scale - 1) : ofQuotient? x.negative num den = some x := by
  have hfiner : (num : ℚ) / den / 2 ^ (x.scale - 1) = 2 * ((num : ℚ) / den / 2 ^ x.scale) := by
    rw [zpow_sub_one₀ (by norm_num)]
    field_simp
  have hround : roundQuotient (num <<< (-(x.scale - 1)).toNat) (den <<< (x.scale - 1).toNat) = 2 * leadingBit := by
    refine roundQuotient_shifted hden ?_ ?_ (fun hodd => ?_)
    · rw [hfiner]; push_cast; linarith
    · rw [hfiner]; push_cast; linarith
    · omega
  unfold ofQuotient?
  dsimp only
  rw [if_neg hnum.ne', hscale, hround, if_pos rfl, sub_add_cancel, ← hx]
  exact ofParts?_self x

/-- Every fraction nearest to a double is rounded to it. -/
theorem ofQuotient?_of_nearest (hx : x.isZero = false) (hden : 0 < den) (h : x.Nearest ((num : ℚ) / den)) :
    ofQuotient? x.negative num den = some x := by
  have hm : (1 : ℚ) ≤ x.significand := by exact_mod_cast significand_pos hx
  have hlead : (2 : ℚ) ^ (52 : Int) = leadingBit := by norm_num
  have hlow := h.low
  have hpos : (0 : ℚ) < (num : ℚ) / den / 2 ^ x.scale := by
    split at hlow <;> linarith
  have hnum : 0 < num := by
    rcases Nat.eq_zero_or_pos num with rfl | hnum
    · simp at hpos
    · exact hnum
  have hbelow : (num : ℚ) / den / 2 ^ x.scale < (2 : ℚ) ^ (52 + 1 : Int) := by
    have hle : (x.significand : ℚ) + 1 ≤ 2 * leadingBit := by exact_mod_cast x.significand_lt
    have hhigh := h.high
    rw [zpow_add_one₀ (by norm_num), hlead]
    linarith
  have hs := x.scale_bounds
  by_cases hbinade : (2 : ℚ) ^ (52 : Int) ≤ (num : ℚ) / den / 2 ^ x.scale
  · -- the quotient has as many binary digits as a normal significand
    have hlog := log2Quotient_eq hnum hden (two_zpow_add_le_iff.2 hbinade)
      (by rw [add_assoc]; exact lt_two_zpow_add_iff.2 hbelow)
    exact ofQuotient?_of_scale hnum hden h (by omega)
  · rw [not_le] at hbinade
    by_cases hleast : x.scale = -1074
    · -- no finer scale exists
      have hlog := (log2Quotient_spec hnum hden).1.trans_lt (lt_two_zpow_add_iff.2 hbinade)
      rw [zpow_lt_zpow_iff_right₀ (by norm_num)] at hlog
      exact ofQuotient?_of_scale hnum hden h (by omega)
    · -- the double is a power of two, and the quotient is in the narrow half of its interval
      have hnormal : x.exponent.val ≠ 0 := fun he => hleast (scale_of_subnormal he)
      have hscale := scale_of_normal hnormal
      have hsig := significand_of_normal hnormal
      have hfraction : x.fraction.val = 0 := by
        by_contra hne
        have hge : (leadingBit : ℚ) + 1 ≤ x.significand := by
          rw [hsig]
          exact_mod_cast (by omega : leadingBit + 1 ≤ x.fraction.val + leadingBit)
        rw [hlead] at hbinade
        split at hlow <;> linarith
      have hnarrow : x.narrowBelow = true := by
        simp only [narrowBelow, hfraction, beq_self_eq_true, Bool.true_and, decide_eq_true_eq]
        omega
      rw [hfraction, Nat.zero_add] at hsig
      rw [if_pos hnarrow, hsig] at hlow
      have hlog : log2Quotient num den = x.scale + 51 := by
        refine log2Quotient_eq hnum hden (two_zpow_add_le_iff.2 ?_) ?_
        · have hhalf : (2 : ℚ) ^ (51 : Int) + 1 / 4 ≤ leadingBit := by norm_num
          linarith
        · rw [add_assoc]; exact lt_two_zpow_add_iff.2 hbinade
      exact ofQuotient?_of_carry hnum hden hsig hlow (hlead ▸ hbinade) (by omega)

end Nearest

/-! ## The range -/

/-- The number that a double stands for, without the sign. -/
def magnitude (x : Double) : ℚ := (x.significand : ℚ) * 2 ^ x.scale

theorem magnitude_nonneg (x : Double) : 0 ≤ x.magnitude :=
  mul_nonneg (Nat.cast_nonneg _) (two_zpow_pos _).le

/-- The numbers from here on are too large: those below are nearer to the greatest double than to the next power of
two. -/
def overflow : ℚ := (2 * leadingBit - 1 / 2) * 2 ^ (971 : Int)

/-- A rounding changes a number by at most this part of it. -/
def unitRoundoff : ℚ := 1 / (2 * leadingBit)

theorem magnitude_lt (x : Double) : x.magnitude < overflow := by
  have hsig : (x.significand : ℚ) ≤ 2 * leadingBit - 1 := by
    have : (x.significand : ℚ) + 1 ≤ 2 * leadingBit := by exact_mod_cast x.significand_lt
    linarith
  have hscale : (2 : ℚ) ^ x.scale ≤ 2 ^ (971 : Int) := zpow_le_zpow_right₀ (by norm_num) x.scale_bounds.2
  have htop := two_zpow_pos 971
  calc x.magnitude ≤ (2 * leadingBit - 1) * 2 ^ (971 : Int) := by
        unfold magnitude
        gcongr
    _ < overflow := by
        unfold overflow
        gcongr
        norm_num

/-- Parts in range make up a double of that magnitude. -/
theorem exists_ofParts? (negative : Bool) {m : Nat} {q : Int} (hm : m < 2 * leadingBit) (hleast : -1074 ≤ q)
    (hmost : q ≤ 971) (hsubnormal : m < leadingBit → q = -1074) :
    ∃ y, ofParts? negative m q = some y ∧ y.negative = negative ∧ y.magnitude = m * 2 ^ q := by
  unfold ofParts?
  split
  · rename_i h
    refine ⟨_, if_pos (hsubnormal h), rfl, ?_⟩
    rw [hsubnormal h]
    rfl
  · rename_i h
    refine ⟨_, dif_pos ⟨by omega, by omega⟩, rfl, ?_⟩
    have hexponent : (q + 1075).toNat ≠ 0 := by omega
    have hfraction : m - leadingBit + leadingBit = m := by omega
    have hscale : ((q + 1075).toNat : Int) - 1075 = q := by omega
    simp only [magnitude, significand, scale, if_neg hexponent, hfraction, hscale]

/-- A rounded quotient is within a half of the quotient. -/
theorem roundQuotient_within (num : Nat) {den : Nat} (hden : 0 < den) :
    2 * roundQuotient num den * den ≤ 2 * num + den ∧ 2 * num ≤ (2 * roundQuotient num den + 1) * den := by
  have hsplit := Nat.div_add_mod num den
  have hrem := Nat.mod_lt num hden
  unfold roundQuotient
  generalize num / den = q at *
  generalize num % den = r at *
  subst hsplit
  dsimp only
  split
  · rename_i h
    rw [Nat.compare_eq_lt] at h
    constructor <;> nlinarith
  · rename_i h
    rw [Nat.compare_eq_gt] at h
    constructor <;> nlinarith
  · rename_i h
    rw [Nat.compare_eq_eq] at h
    split <;> constructor <;> nlinarith

/-- The same for the scaled quotient. -/
theorem roundQuotient_shifted_within (num : Nat) {den : Nat} (hden : 0 < den) (q : Int) :
    (roundQuotient (num <<< (-q).toNat) (den <<< q.toNat) : ℚ) ≤ (num : ℚ) / den / 2 ^ q + 1 / 2 ∧
      (num : ℚ) / den / 2 ^ q ≤ roundQuotient (num <<< (-q).toNat) (den <<< q.toNat) + 1 / 2 := by
  have hpos := shiftLeft_pos hden q.toNat
  have hpos' : (0 : ℚ) < (den <<< q.toNat : Nat) := by exact_mod_cast hpos
  obtain ⟨hlow, hhigh⟩ := roundQuotient_within (num <<< (-q).toNat) hpos
  rw [← shifted_quotient]
  generalize roundQuotient (num <<< (-q).toNat) (den <<< q.toNat) = m at *
  constructor
  · have : (2 * m * (den <<< q.toNat : Nat) : ℚ) ≤ 2 * (num <<< (-q).toNat : Nat) + (den <<< q.toNat : Nat) := by
      exact_mod_cast hlow
    rw [← sub_le_iff_le_add, le_div_iff₀ hpos']
    linarith
  · have : (2 * (num <<< (-q).toNat : Nat) : ℚ) ≤ (2 * m + 1) * (den <<< q.toNat : Nat) := by exact_mod_cast hhigh
    rw [div_le_iff₀ hpos']
    linarith

/-- What a number in the range is rounded to. -/
structure Rounded (r : ℚ) (y : Double) : Prop where
  le : (2 : ℚ) ^ (-1022 : Int) ≤ r → y.magnitude ≤ r * (1 + unitRoundoff)
  /-- Rounding does not go below a power of two. -/
  ge : ∀ k : Int, -1022 ≤ k → (2 : ℚ) ^ k ≤ r → (2 : ℚ) ^ k ≤ y.magnitude

section Rounding

variable {num den : Nat} {k q : Int} {m : Nat}

/-- The rounded significand has 53 bits, or fewer at the least scale, unless it is the next power of two. -/
theorem significand_bounds (hlow : (2 : ℚ) ^ k ≤ (num : ℚ) / den) (hhigh : (num : ℚ) / den < 2 ^ (k + 1))
    (hq : max k (-1022) - 52 = q) (hdown : (m : ℚ) ≤ (num : ℚ) / den / 2 ^ q + 1 / 2)
    (hup : (num : ℚ) / den / 2 ^ q ≤ m + 1 / 2) : m ≤ 2 * leadingBit ∧ (-1022 ≤ k → leadingBit ≤ m) := by
  constructor
  · have hfew : (num : ℚ) / den / 2 ^ q < (2 : ℚ) ^ (53 : Int) :=
      lt_two_zpow_add_iff.1 (hhigh.trans_le (zpow_le_zpow_right₀ (by norm_num) (by omega)))
    have hlead : (2 : ℚ) ^ (53 : Int) = 2 * leadingBit := by norm_num
    have hlt : (m : ℚ) < (2 * leadingBit + 1 : Nat) := by push_cast; linarith
    exact Nat.le_of_lt_succ (Nat.cast_lt.1 hlt)
  · intro hk
    have hmany : (2 : ℚ) ^ (52 : Int) ≤ (num : ℚ) / den / 2 ^ q :=
      two_zpow_add_le_iff.1 ((zpow_le_zpow_right₀ (by norm_num) (by omega)).trans hlow)
    have hlead : (2 : ℚ) ^ (52 : Int) = leadingBit := by norm_num
    have hlt : (leadingBit : ℚ) < (m + 1 : Nat) := by push_cast; linarith
    exact Nat.le_of_lt_succ (Nat.cast_lt.1 hlt)

/-- Below the overflow the scale is that of a double, and at the greatest scale the rounding does not carry. -/
theorem scale_le (h : (num : ℚ) / den < overflow) (hlow : (2 : ℚ) ^ k ≤ (num : ℚ) / den)
    (hq : max k (-1022) - 52 = q) (hdown : (m : ℚ) ≤ (num : ℚ) / den / 2 ^ q + 1 / 2) :
    q ≤ 971 ∧ (m = 2 * leadingBit → q < 971) := by
  have htop : overflow < 2 ^ (53 + 971 : Int) := by
    rw [zpow_add₀ (by norm_num), overflow]
    gcongr
    norm_num
  have hk := (zpow_lt_zpow_iff_right₀ (by norm_num)).1 (hlow.trans_lt (h.trans htop))
  refine ⟨by omega, fun hfull => ?_⟩
  by_contra hge
  have hgreatest : q = 971 := by omega
  have hlt : (num : ℚ) / den / 2 ^ q < 2 * leadingBit - 1 / 2 := by
    rw [div_lt_iff₀ (two_zpow_pos _), hgreatest]
    exact h
  rw [hfull] at hdown
  push_cast at hdown
  linarith only [hdown, hlt]

/-- A double with the rounded significand and the scale is what the quotient is rounded to. -/
theorem rounded_of_parts (hlow : (2 : ℚ) ^ k ≤ (num : ℚ) / den) (hhigh : (num : ℚ) / den < 2 ^ (k + 1))
    (hq : max k (-1022) - 52 = q) (hdown : (m : ℚ) ≤ (num : ℚ) / den / 2 ^ q + 1 / 2)
    (hnormal : -1022 ≤ k → leadingBit ≤ m) {y : Double} (hy : y.magnitude = m * 2 ^ q) :
    Rounded ((num : ℚ) / den) y := by
  have hunit := two_zpow_pos q
  constructor
  · intro hleast
    have hk := (zpow_lt_zpow_iff_right₀ (by norm_num)).1 (hleast.trans_lt hhigh)
    have hhalf : (2 : ℚ) ^ q / 2 ≤ (num : ℚ) / den * unitRoundoff := by
      have hpow : (2 : ℚ) ^ k = 2 ^ q * leadingBit := by
        rw [show k = q + 52 by omega, zpow_add₀ (by norm_num)]
        norm_num
      rw [hpow] at hlow
      unfold unitRoundoff
      linarith
    calc y.magnitude = m * 2 ^ q := hy
      _ ≤ ((num : ℚ) / den / 2 ^ q + 1 / 2) * 2 ^ q := by gcongr
      _ = (num : ℚ) / den + 2 ^ q / 2 := by field_simp
      _ ≤ (num : ℚ) / den * (1 + unitRoundoff) := by linarith
  · intro j hj hle
    have hjk := (zpow_lt_zpow_iff_right₀ (by norm_num)).1 (hle.trans_lt hhigh)
    have hm : (leadingBit : ℚ) ≤ m := by exact_mod_cast hnormal (by omega)
    calc (2 : ℚ) ^ j ≤ 2 ^ (52 + q) := zpow_le_zpow_right₀ (by norm_num) (by omega)
      _ = leadingBit * 2 ^ q := by
        rw [zpow_add₀ (by norm_num)]
        norm_num
      _ ≤ m * 2 ^ q := by gcongr
      _ = y.magnitude := hy.symm

end Rounding

/-- Every fraction below the overflow is rounded to a double. -/
theorem exists_ofQuotient? (negative : Bool) {num den : Nat} (hden : 0 < den) (h : (num : ℚ) / den < overflow) :
    ∃ y, ofQuotient? negative num den = some y ∧ y.negative = negative ∧ Rounded ((num : ℚ) / den) y := by
  unfold ofQuotient?
  dsimp only
  split
  · rename_i hnum
    refine ⟨_, rfl, rfl, ?_⟩
    rw [hnum, Nat.cast_zero, zero_div]
    exact ⟨fun hle => absurd hle (not_le.2 (two_zpow_pos _)), fun _ _ hle => absurd hle (not_le.2 (two_zpow_pos _))⟩
  rename_i hnum
  obtain ⟨hlow, hhigh⟩ := log2Quotient_spec (Nat.pos_of_ne_zero hnum) hden
  generalize log2Quotient num den = k at *
  generalize hq : max k (-1022) - 52 = q
  obtain ⟨hdown, hup⟩ := roundQuotient_shifted_within num hden q
  generalize roundQuotient (num <<< (-q).toNat) (den <<< q.toNat) = m at *
  obtain ⟨hm, hnormal⟩ := significand_bounds hlow hhigh hq hdown hup
  obtain ⟨hscale, hcarry⟩ := scale_le h hlow hq hdown
  split
  · rename_i hfull
    have := hcarry hfull
    obtain ⟨y, hy, hsign, hmag⟩ :=
      exists_ofParts? negative (m := leadingBit) (q := q + 1) (by decide) (by omega) (by omega)
        (fun hlt => absurd hlt (Nat.lt_irrefl _))
    refine ⟨y, hy, hsign, rounded_of_parts hlow hhigh hq hdown hnormal ?_⟩
    rw [hmag, hfull, zpow_add_one₀ (by norm_num)]
    push_cast
    ring
  · have hsubnormal (hlt : m < leadingBit) : q = -1074 := by
      by_contra hne
      have := hnormal (by omega)
      omega
    obtain ⟨y, hy, hsign, hmag⟩ := exists_ofParts? negative (by omega) (by omega) hscale hsubnormal
    exact ⟨y, hy, hsign, rounded_of_parts hlow hhigh hq hdown hnormal hmag⟩

end EffectTyping.Double
