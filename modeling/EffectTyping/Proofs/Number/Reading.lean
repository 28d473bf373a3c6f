/-
Numerals that are read as some double. A double that is divided stays in range, so only a multiplication can overflow.
A significand of no more than the digits of the numeral is rounded, and so are the power of ten and their product: two
roundings, each up by at most a part in `2 ^ 53`, before the product is compared with the overflow. So a numeral that
stays below the overflow with these two parts added is read.
-/
import EffectTyping.Number.Reading
import EffectTyping.Proofs.Number.Numeral

namespace EffectTyping

namespace Double

/-! ## Products and quotients -/

variable {x y : Double}

theorem multiply?_isSome (h : x.magnitude * y.magnitude < overflow) : (x.multiply? y).isSome = true := by
  have hvalue : (((x.significand * y.significand) <<< (x.scale + y.scale).toNat : Nat) : ℚ) /
      (1 <<< (-(x.scale + y.scale)).toNat : Nat) = x.magnitude * y.magnitude := by
    have hshift := shifted_quotient (x.significand * y.significand) 1 (-(x.scale + y.scale))
    rw [neg_neg] at hshift
    rw [hshift, zpow_neg, div_inv_eq_mul, zpow_add₀ (by norm_num), magnitude, magnitude]
    push_cast
    ring
  rw [← hvalue] at h
  obtain ⟨z, hz, -⟩ := exists_ofQuotient? (x.negative != y.negative) (shiftLeft_pos one_pos _) h
  exact Option.isSome_of_eq_some hz

theorem significand_pos_of_magnitude (h : 0 < x.magnitude) : 0 < x.significand := by
  rcases Nat.eq_zero_or_pos x.significand with hzero | hpos
  · rw [magnitude, hzero, Nat.cast_zero, zero_mul] at h
    exact absurd h (lt_irrefl 0)
  · exact hpos

/-- A division by at least one does not overflow. -/
theorem divide?_isSome (h : 1 ≤ y.magnitude) : (x.divide? y).isSome = true := by
  have hvalue : ((x.significand <<< (x.scale - y.scale).toNat : Nat) : ℚ) /
      (y.significand <<< (-(x.scale - y.scale)).toNat : Nat) = x.magnitude / y.magnitude := by
    have hshift := shifted_quotient x.significand y.significand (-(x.scale - y.scale))
    rw [neg_neg] at hshift
    rw [hshift, zpow_neg, div_inv_eq_mul, zpow_sub₀ (by norm_num), magnitude, magnitude, mul_div_mul_comm]
  have hdivisor := shiftLeft_pos (significand_pos_of_magnitude (by linarith : 0 < y.magnitude)) (-(x.scale - y.scale)).toNat
  have hlt : x.magnitude / y.magnitude < overflow := (div_le_self x.magnitude_nonneg h).trans_lt x.magnitude_lt
  rw [← hvalue] at hlt
  obtain ⟨z, hz, -⟩ := exists_ofQuotient? (x.negative != y.negative) hdivisor hlt
  exact Option.isSome_of_eq_some hz

/-! ## Powers of ten -/

theorem one_le_one_add_roundoff : 1 ≤ 1 + unitRoundoff := by
  unfold unitRoundoff
  norm_num

/-- The powers of ten up to the greatest exponent are in range, and no others. -/
theorem overflow_between : (10 : ℚ) ^ maxTenPower < overflow ∧ overflow < 10 ^ (maxTenPower + 1) := by
  -- twice the overflow is an integer
  have hdouble : 2 * overflow = (((4 * leadingBit - 1) * 2 ^ 971 : Nat) : ℚ) := by
    have hsig : ((4 * leadingBit - 1 : Nat) : ℚ) = 2 * (2 * leadingBit - 1 / 2) := by norm_num
    rw [overflow, Nat.cast_mul, hsig, Nat.cast_pow, Nat.cast_ofNat, mul_assoc, ← zpow_natCast]
    rfl
  have hlow : 2 * 10 ^ maxTenPower < (4 * leadingBit - 1) * 2 ^ 971 := by decide +kernel
  have hhigh : (4 * leadingBit - 1) * 2 ^ 971 < 2 * 10 ^ (maxTenPower + 1) := by decide +kernel
  rw [← Nat.cast_lt (α := ℚ), ← hdouble, Nat.cast_mul, Nat.cast_pow, Nat.cast_ofNat, Nat.cast_ofNat] at hlow hhigh
  exact ⟨lt_of_mul_lt_mul_left hlow zero_le_two, lt_of_mul_lt_mul_left hhigh zero_le_two⟩

/-- A number from one up to the overflow is rounded to at least one, and up by at most a part in `2 ^ 53`. -/
theorem exists_ofNat (negative : Bool) {m : Nat} (hpos : 0 < m) (hlt : (m : ℚ) < overflow) :
    ∃ y, ofQuotient? negative m 1 = some y ∧ 1 ≤ y.magnitude ∧ y.magnitude ≤ m * (1 + unitRoundoff) := by
  have hvalue : (m : ℚ) / (1 : Nat) = m := by rw [Nat.cast_one, div_one]
  obtain ⟨y, hy, -, hrounded⟩ := exists_ofQuotient? negative one_pos (hvalue.trans_lt hlt)
  rw [hvalue] at hrounded
  have hone : (2 : ℚ) ^ (0 : Int) ≤ m := by
    rw [zpow_zero]
    exact_mod_cast hpos
  refine ⟨y, hy, ?_, hrounded.le ?_⟩
  · simpa using hrounded.ge 0 (by norm_num) hone
  · exact (zpow_le_zpow_right₀ (by norm_num) (by norm_num)).trans hone

theorem tenPower?_spec {k : Nat} (hk : k ≤ maxTenPower) :
    ∃ y, tenPower? k = some y ∧ 1 ≤ y.magnitude ∧ y.magnitude ≤ 10 ^ k * (1 + unitRoundoff) := by
  have hvalue : (tenTo k : ℚ) = 10 ^ k := by simp [tenTo]
  rw [← hvalue]
  refine exists_ofNat false (Nat.pow_pos (by omega)) ?_
  rw [hvalue]
  exact (pow_le_pow_right₀ (by norm_num) hk).trans_lt overflow_between.1

theorem shrink?_isSome (x : Double) (k : Nat) : (x.shrink? k).isSome = true := by
  induction k using Nat.strong_induction_on generalizing x with
  | _ k ih =>
    rw [shrink?]
    split
    · rename_i hk
      obtain ⟨ten, hten, hone, -⟩ := tenPower?_spec hk
      rw [hten, Option.bind_some]
      exact divide?_isSome hone
    · rename_i hk
      split
      · rfl
      · obtain ⟨ten, hten, hone, -⟩ := tenPower?_spec le_rfl
        obtain ⟨y, hy⟩ := Option.isSome_iff_exists.1 (divide?_isSome (x := x) hone)
        rw [hten, Option.bind_some, hy, Option.bind_some]
        exact ih _ (by unfold maxTenPower at *; omega) y

/-- A double of at least one is multiplied by a power of ten if the product with the rounded power is in range. -/
theorem scaleByTen?_isSome {power : Int} (hx : x.isZero = true ∨ 1 ≤ x.magnitude)
    (h : x.magnitude * 10 ^ power * (1 + unitRoundoff) < overflow) : (x.scaleByTen? power).isSome = true := by
  have hmag := x.magnitude_nonneg
  unfold scaleByTen?
  split
  · exact shrink?_isSome x _
  · rename_i hneg
    obtain ⟨k, rfl⟩ := Int.eq_ofNat_of_zero_le (not_lt.1 hneg)
    rw [zpow_natCast] at h
    split
    · rename_i hk
      obtain ⟨ten, hten, -, hle⟩ := tenPower?_spec (k := k) (by omega)
      rw [Int.toNat_natCast, hten, Option.bind_some]
      refine multiply?_isSome (lt_of_le_of_lt ?_ h)
      rw [mul_assoc]
      gcongr
    · rename_i hk
      rcases hx with hzero | hone
      · rw [if_pos hzero]
        rfl
      · -- the power alone is beyond the overflow
        have hpow : overflow < 10 ^ k :=
          overflow_between.2.trans_le (pow_le_pow_right₀ (by norm_num) (by omega))
        have hround := one_le_one_add_roundoff
        have hle : (10 : ℚ) ^ k ≤ x.magnitude * 10 ^ k * (1 + unitRoundoff) :=
          calc (10 : ℚ) ^ k = 1 * 10 ^ k * 1 := by ring
            _ ≤ x.magnitude * 10 ^ k * (1 + unitRoundoff) := by gcongr
        exact absurd (hle.trans_lt h) (not_lt.2 hpow.le)

end Double

namespace Numeral

/-! ## Significands -/

theorem next_digit (m : Nat) (c : Char) (cs : List Char) :
    (10 * m + (c.toNat - '0'.toNat)) * 10 ^ cs.length + ofDigits cs =
      m * 10 ^ (c :: cs).length + ofDigits (c :: cs) := by
  rw [ofDigits_cons, List.length_cons, Nat.pow_succ]
  ring

/-- No digit counts for more than it stands for. -/
theorem takeDigits_le (m : Nat) (cs : List Char) :
    (takeDigits m cs).1 * 10 ^ (takeDigits m cs).2 ≤ m * 10 ^ cs.length + ofDigits cs := by
  fun_induction takeDigits m cs with
  | case1 m => simp
  | case2 m c cs next hfits ih => exact ih.trans_eq (next_digit m c cs)
  | case3 m c cs next hfull => exact Nat.le_add_right _ _

theorem takeDigits_le_max {m : Nat} (hm : m ≤ maxSignificand) (cs : List Char) :
    (takeDigits m cs).1 ≤ maxSignificand := by
  fun_induction takeDigits m cs with
  | case1 m => exact hm
  | case2 m c cs next hfits ih => exact ih hfits
  | case3 m c cs next hfull => exact hm

/-- Digits that fit are all taken. -/
theorem takeDigits_eq {m : Nat} {cs : List Char} (h : m * 10 ^ cs.length + ofDigits cs ≤ maxSignificand) :
    takeDigits m cs = (m * 10 ^ cs.length + ofDigits cs, 0) := by
  fun_induction takeDigits m cs with
  | case1 m => simp [ofDigits]
  | case2 m c cs next hfits ih =>
    rw [← next_digit] at h ⊢
    exact ih h
  | case3 m c cs next hfull =>
    rw [← next_digit] at h
    have hnext : next ≤ next * 10 ^ cs.length := Nat.le_mul_of_pos_right _ (Nat.pow_pos (by omega))
    exact absurd ((hnext.trans (Nat.le_add_right _ _)).trans h) hfull

/-! ## Numerals -/

/-- A significand is far below the overflow. -/
theorem natCast_lt_overflow {m : Nat} (hm : m ≤ maxSignificand) :
    (m : ℚ) * (1 + Double.unitRoundoff) ^ 2 < Double.overflow := by
  have hcast : (m : ℚ) ≤ maxSignificand := by exact_mod_cast hm
  calc (m : ℚ) * (1 + Double.unitRoundoff) ^ 2
      ≤ maxSignificand * (1 + Double.unitRoundoff) ^ 2 := by gcongr
    _ ≤ 10 ^ 20 := by
        unfold maxSignificand Double.unitRoundoff
        norm_num
    _ ≤ 10 ^ Double.maxTenPower := pow_le_pow_right₀ (by norm_num) (by decide)
    _ < Double.overflow := Double.overflow_between.1

/-- A significand in range is rounded to a double of at least one, unless it is zero. -/
theorem exists_ofSignificand (negative : Bool) {m : Nat} (hm : m ≤ maxSignificand) :
    ∃ x, Double.ofQuotient? negative m 1 = some x ∧ (x.isZero = true ∨ 1 ≤ x.magnitude) ∧
      x.magnitude ≤ m * (1 + Double.unitRoundoff) := by
  rcases Nat.eq_zero_or_pos m with rfl | hpos
  · exact ⟨.zero negative, rfl, .inl rfl, by simp [Double.magnitude, Double.zero, Double.significand]⟩
  · have hlt : (m : ℚ) < Double.overflow :=
      (le_mul_of_one_le_right m.cast_nonneg (one_le_pow₀ Double.one_le_one_add_roundoff)).trans_lt (natCast_lt_overflow hm)
    obtain ⟨x, hx, hone, hle⟩ := Double.exists_ofNat negative hpos hlt
    exact ⟨x, hx, .inr hone, hle⟩

/-- A numeral with whole digits that fit, and with a value below the overflow by the part of two roundings, is read. -/
theorem toDouble?_isSome {n : Numeral} (hwhole : ofDigits n.whole ≤ maxSignificand)
    (h : n.magnitude * (1 + Double.unitRoundoff) ^ 2 < Double.overflow) : n.toDouble?.isSome = true := by
  have htaken : takeDigits 0 n.whole = (ofDigits n.whole, 0) := by
    rw [takeDigits_eq (by simpa using hwhole), Nat.zero_mul, Nat.zero_add]
  have hle := takeDigits_le (ofDigits n.whole) n.fraction
  have hmax := takeDigits_le_max hwhole n.fraction
  unfold toDouble?
  simp only [htaken]
  generalize takeDigits (ofDigits n.whole) n.fraction = all at *
  generalize hpower : n.power + ((0 : Nat) : Int) - ((n.fraction.length : Int) - all.2) = power
  have hvalue : (all.1 : ℚ) * 10 ^ power ≤ n.magnitude := by
    have hsplit : power = (all.2 : Int) + (n.power - n.fraction.length) := by omega
    have hdigits : (all.1 : ℚ) * 10 ^ all.2 ≤ ofDigits (n.whole ++ n.fraction) := by
      rw [ofDigits_append, Nat.mul_comm]
      exact_mod_cast hle
    rw [hsplit, zpow_add₀ (by norm_num), zpow_natCast, ← mul_assoc, magnitude]
    exact mul_le_mul_of_nonneg_right hdigits (ten_zpow_pos _).le
  obtain ⟨x, hx, hone, hround⟩ := exists_ofSignificand n.negative hmax
  rw [hx, Option.bind_some]
  refine Double.scaleByTen?_isSome hone (lt_of_le_of_lt ?_ h)
  have hpos := ten_zpow_pos power
  have hfactor : 0 ≤ 1 + Double.unitRoundoff := zero_le_one.trans Double.one_le_one_add_roundoff
  calc x.magnitude * 10 ^ power * (1 + Double.unitRoundoff)
      ≤ all.1 * (1 + Double.unitRoundoff) * 10 ^ power * (1 + Double.unitRoundoff) := by gcongr
    _ = all.1 * 10 ^ power * (1 + Double.unitRoundoff) ^ 2 := by ring
    _ ≤ n.magnitude * (1 + Double.unitRoundoff) ^ 2 := by gcongr

/-- Integers of 64 bits are well within the range. -/
theorem toDouble?_digitsOf_isSome (negative : Bool) {n : Nat} (h : n < UInt64.size) :
    (toDouble? ⟨negative, digitsOf n, [], none⟩).isSome = true := by
  have hmax : n ≤ maxSignificand := Nat.le_of_lt_succ h
  have hvalue : magnitude ⟨negative, digitsOf n, [], none⟩ = n := by
    simp [magnitude, ofDigits_digitsOf, power]
  refine toDouble?_isSome (by rwa [ofDigits_digitsOf]) ?_
  rw [hvalue]
  exact natCast_lt_overflow hmax

end Numeral

end EffectTyping
