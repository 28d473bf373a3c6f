/-
Doubles and their numerals. The decimal chosen for a double is nearest to it, whichever number of digits the search ends
with and also if it finds none, and the layouts of a decimal all stand for its value. So the double nearest to the
numeral of a double is that double, and no two doubles share a numeral. The numeral is always read as some double; that
the roundings of the reader lead back to the same double is not said.
-/
import EffectTyping.Number.Layout
import EffectTyping.Proofs.Number.Reading

namespace EffectTyping

/-- The value of a decimal. -/
def Decimal.value (d : Decimal) : ℚ := (d.digits : ℚ) * 10 ^ d.exponent

namespace Double

/-! ## Exact comparisons -/

theorem zpow_mul_pow_toNat {b : ℚ} (hb : b ≠ 0) (i : Int) : b ^ i * b ^ (-i).toNat = b ^ i.toNat := by
  rw [← zpow_natCast, ← zpow_natCast, ← zpow_add₀ hb]
  congr 1
  omega

/-- The comparison of `a * 10 ^ i` with `n * 2 ^ j` is made between integers, both sides multiplied by the same power
of ten and of two. -/
theorem compareScaled_spec (a : Nat) (i : Int) (n : Nat) (j : Int) :
    (compareScaled a i n j = .lt ↔ (a : ℚ) * 10 ^ i < n * 2 ^ j) ∧
      (compareScaled a i n j = .eq ↔ (a : ℚ) * 10 ^ i = n * 2 ^ j) ∧
      (compareScaled a i n j = .gt ↔ (n : ℚ) * 2 ^ j < a * 10 ^ i) := by
  have hten := zpow_mul_pow_toNat (b := 10) (by norm_num) i
  have htwo := zpow_mul_pow_toNat (b := 2) (by norm_num) j
  have hscale : (0 : ℚ) < 10 ^ (-i).toNat * 2 ^ (-j).toNat := by positivity
  have hleft : (a : ℚ) * 10 ^ i * (10 ^ (-i).toNat * 2 ^ (-j).toNat) =
      ((a * tenTo i.toNat) <<< (-j).toNat : Nat) := by
    rw [Nat.shiftLeft_eq, tenTo, Nat.pow_eq]
    push_cast
    rw [← hten]
    ring
  have hright : (n : ℚ) * 2 ^ j * (10 ^ (-i).toNat * 2 ^ (-j).toNat) =
      ((n * tenTo (-i).toNat) <<< j.toNat : Nat) := by
    rw [Nat.shiftLeft_eq, tenTo, Nat.pow_eq]
    push_cast
    rw [← htwo]
    ring
  unfold compareScaled
  rw [Nat.compare_eq_lt, Nat.compare_eq_eq, Nat.compare_eq_gt, ← Nat.cast_lt (α := ℚ), ← Nat.cast_inj (R := ℚ),
    ← Nat.cast_lt (α := ℚ), ← hleft, ← hright, mul_lt_mul_iff_left₀ hscale, mul_left_inj' hscale.ne',
    mul_lt_mul_iff_left₀ hscale]
  exact ⟨Iff.rfl, Iff.rfl, Iff.rfl⟩

/-! ## The decimal of a double -/

/-- Where the gap below is narrow the significand is a power of two. -/
theorem narrowBelow_of_odd {x : Double} (h : x.significand % 2 = 1) : x.narrowBelow = false := by
  rw [Bool.eq_false_iff]
  intro hnarrow
  simp only [narrowBelow, Bool.and_eq_true, beq_iff_eq, decide_eq_true_eq] at hnarrow
  rw [significand_of_normal (by omega), hnarrow.1] at h
  exact absurd h (by decide)

/-- The lower end of the interval, counted in quarters. -/
theorem lowEnd_eq {x : Double} (hx : x.isZero = false) :
    ((if x.narrowBelow then 4 * x.significand - 1 else 4 * x.significand - 2 : Nat) : ℚ) =
      4 * (x.significand - if x.narrowBelow then 1 / 4 else 1 / 2) := by
  have hpos := significand_pos hx
  split
  · rw [Nat.cast_sub (by omega)]
    push_cast
    ring
  · rw [Nat.cast_sub (by omega)]
    push_cast
    ring

/-- What the test of a decimal checks is the interval of the numbers nearest to the double. -/
theorem nearest_of_readsBack {x : Double} {d : Decimal} (hx : x.isZero = false) (h : x.readsBack d = true) :
    x.Nearest d.value := by
  have hquarter : (2 : ℚ) ^ (x.scale - 2) = 2 ^ x.scale / 4 := by
    rw [zpow_sub₀ (by norm_num)]
    norm_num
  have hunit := two_zpow_pos x.scale
  unfold readsBack at h
  simp only [Bool.and_eq_true, Bool.or_eq_true, beq_iff_eq, compareScaled_spec, hquarter, lowEnd_eq hx] at h
  change (_ < d.value ∨ _ ∧ d.value = _) ∧ (d.value < _ ∨ _ ∧ d.value = _) at h
  obtain ⟨hlow, hhigh⟩ := h
  push_cast at hhigh
  refine ⟨?_, ?_, ?_⟩
  · rw [le_div_iff₀ hunit]
    rcases hlow with hlow | ⟨-, hlow⟩ <;> linarith
  · rw [div_le_iff₀ hunit]
    rcases hhigh with hhigh | ⟨-, hhigh⟩ <;> linarith
  · -- an odd significand is not at the end of a binade, and the ends are then left out
    intro hodd
    rw [narrowBelow_of_odd hodd, if_neg Bool.false_ne_true] at hlow
    rw [lt_div_iff₀ hunit, div_lt_iff₀ hunit]
    constructor
    · rcases hlow with hlow | ⟨heven, -⟩
      · linarith
      · omega
    · rcases hhigh with hhigh | ⟨heven, -⟩
      · linarith
      · omega

theorem readsBack_of_neighbour? {tie : Tie} {x : Double} {g : Int} {d : Decimal} (h : x.neighbour? tie g = some d) :
    x.readsBack d = true := by
  unfold neighbour? at h
  dsimp only at h
  split at h
  · cases h
  · rename_i hbelow _
    cases h
    exact hbelow
  · rename_i habove
    cases h
    exact habove
  · rename_i hbelow habove
    split at h
    · cases h
      exact hbelow
    · cases h
      exact habove
    · split at h
      · cases h
        exact habove
      · cases h
        split
        · exact hbelow
        · exact habove

/-- The magnitude of a double is what is nearest to it. -/
theorem nearest_self (x : Double) : x.Nearest x.magnitude := by
  have hself : x.magnitude / 2 ^ x.scale = x.significand := mul_div_cancel_right₀ _ (two_zpow_pos x.scale).ne'
  refine ⟨?_, ?_, ?_⟩
  · rw [hself]
    split <;> linarith
  · rw [hself]
    linarith
  · intro _
    rw [hself]
    constructor <;> linarith

theorem value_exact (x : Double) : x.exact.value = x.magnitude := by
  unfold exact Decimal.value magnitude
  split
  · rename_i hscale
    obtain ⟨n, hn⟩ := Int.eq_ofNat_of_zero_le hscale
    rw [hn, Nat.shiftLeft_eq, Int.toNat_natCast, zpow_natCast, zpow_zero]
    push_cast
    ring
  · rename_i hscale
    obtain ⟨n, hn⟩ : ∃ n : Nat, x.scale = -(n : Int) := ⟨(-x.scale).toNat, by omega⟩
    have hten : (10 : ℚ) ^ n = 2 ^ n * 5 ^ n := by
      rw [← mul_pow]
      norm_num
    rw [hn, neg_neg, Int.toNat_natCast, zpow_neg, zpow_neg, zpow_natCast, zpow_natCast, Nat.pow_eq, hten]
    push_cast
    field_simp

end Double

theorem Decimal.value_strip (d : Decimal) : d.strip.value = d.value := by
  induction d using Decimal.strip.induct with
  | case1 d h ih =>
    have hdigits : (d.digits : ℚ) = (d.digits / 10 : Nat) * 10 := by
      exact_mod_cast (Nat.div_mul_cancel (Nat.dvd_of_mod_eq_zero h.2)).symm
    rw [Decimal.strip, dif_pos h, ih]
    unfold Decimal.value
    rw [hdigits, zpow_add₀ (by norm_num)]
    ring
  | case2 d h => rw [Decimal.strip, dif_neg h]

namespace Double

/-- The shortest decimal of a double other than zero is nearest to it. -/
theorem nearest_shortest {x : Double} (tie : Tie) (hx : x.isZero = false) : x.Nearest (x.shortest tie).value := by
  unfold shortest
  rw [hx, if_neg Bool.false_ne_true, Decimal.value_strip]
  cases hfound : (List.range 17).findSome? fun (n : Nat) => x.neighbour? tie (x.place - (n : Int) - 1) with
  | none =>
    rw [Option.getD_none, value_exact]
    exact x.nearest_self
  | some d =>
    obtain ⟨n, -, hn⟩ := List.exists_of_findSome?_eq_some hfound
    exact nearest_of_readsBack hx (readsBack_of_neighbour? hn)

end Double

/-! ## Layouts -/

/-- The numeral can be read and stands for the value of the decimal. -/
structure Decimal.Written (d : Decimal) (n : Numeral) : Prop where
  readable : n.Readable
  value : n.magnitude = d.value

namespace Decimal

open Numeral (digitsOf ofDigits ofDigits_digitsOf ofDigits_append ofDigits_zeros isDigit_of_mem_digitsOf)
open DoubleFormat (zeros)

variable {d : Decimal} (negative : Bool)

theorem isDigit_of_mem_zeros {n : Nat} {c : Char} (h : c ∈ zeros n) : c.isDigit = true := by
  rw [List.eq_of_mem_replicate h]
  rfl

theorem length_digitsOf_pos (n : Nat) : 0 < (digitsOf n).length :=
  List.length_pos_of_ne_nil (Numeral.digitsOf_ne_nil n)

/-- The digits from the first on, divided at a place after it. -/
theorem readable_divided (hd : d.digits ≠ 0) {k : Nat} (hk : k ≠ 0) {exponent : Option Exponent}
    (hne : ∀ e, exponent = some e → e.digits ≠ [])
    (hdigits : ∀ e, exponent = some e → ∀ c ∈ e.digits, c.isDigit = true) :
    Numeral.Readable ⟨negative, (digitsOf d.digits).take k, (digitsOf d.digits).drop k, exponent⟩ := by
  refine ⟨?_, ?_, ?_, ?_, hne, hdigits⟩
  · simp [hk, Numeral.digitsOf_ne_nil]
  · intro hlead
    rw [List.head?_take, if_neg hk] at hlead
    exact absurd hlead (Numeral.head?_digitsOf hd)
  · exact fun c hc => isDigit_of_mem_digitsOf (List.mem_of_mem_take hc)
  · exact fun c hc => isDigit_of_mem_digitsOf (List.mem_of_mem_drop hc)

theorem written_zero (hd : d.digits = 0) : d.Written ⟨negative, ['0'], ['0'], none⟩ where
  readable := ⟨by simp, by simp, by simp, by simp, by simp, by simp⟩
  value := by
    unfold Decimal.value
    rw [hd]
    simp [Numeral.magnitude, show ofDigits ['0', '0'] = 0 from rfl]

/-- Zeros between the digits and the point. -/
theorem written_whole (hd : d.digits ≠ 0) (he : 0 ≤ d.exponent) :
    d.Written ⟨negative, digitsOf d.digits ++ zeros d.exponent.toNat, ['0'], none⟩ := by
  have hne := Numeral.digitsOf_ne_nil d.digits
  obtain ⟨k, hk⟩ := Int.eq_ofNat_of_zero_le he
  rw [hk, Int.toNat_natCast]
  constructor
  · refine ⟨by simp [hne], ?_, ?_, by simp, by simp, by simp⟩
    · intro hlead
      rw [List.head?_append_of_ne_nil _ hne] at hlead
      exact absurd hlead (Numeral.head?_digitsOf hd)
    · intro c hc
      rcases List.mem_append.1 hc with hc | hc
      · exact isDigit_of_mem_digitsOf hc
      · exact isDigit_of_mem_zeros hc
  · have hsum : ofDigits (digitsOf d.digits ++ zeros k ++ ['0']) = d.digits * 10 ^ k * 10 := by
      rw [ofDigits_append, ofDigits_append, ofDigits_digitsOf, zeros, ofDigits_zeros, List.length_replicate]
      change 10 ^ 1 * (10 ^ k * d.digits + 0) + 0 = _
      ring
    unfold Decimal.value
    simp only [Numeral.magnitude, hsum, Numeral.power, List.length_singleton, hk, zpow_natCast]
    push_cast
    norm_num
    ring

/-- The point between two of the digits. -/
theorem written_inside (hd : d.digits ≠ 0) {k : Nat} (hk : 0 < k)
    (he : (k : Int) = (digitsOf d.digits).length + d.exponent) (hneg : d.exponent < 0) :
    d.Written ⟨negative, (digitsOf d.digits).take k, (digitsOf d.digits).drop k, none⟩ := by
  refine ⟨readable_divided negative hd hk.ne' (by simp) (by simp), ?_⟩
  unfold Numeral.magnitude Decimal.value
  rw [List.take_append_drop, ofDigits_digitsOf, List.length_drop]
  congr 2
  change 0 - (((digitsOf d.digits).length - k : Nat) : Int) = d.exponent
  omega

/-- Zeros between the point and the digits. -/
theorem written_small (he : (digitsOf d.digits).length + d.exponent ≤ 0) :
    d.Written ⟨negative, ['0'], zeros (-((digitsOf d.digits).length + d.exponent)).toNat ++ digitsOf d.digits, none⟩ := by
  constructor
  · refine ⟨by simp, by simp, by simp, ?_, by simp, by simp⟩
    intro c hc
    rcases List.mem_append.1 hc with hc | hc
    · exact isDigit_of_mem_zeros hc
    · exact isDigit_of_mem_digitsOf hc
  · unfold Decimal.value
    simp only [Numeral.magnitude, ofDigits_append, zeros, ofDigits_zeros, ofDigits_digitsOf, Numeral.power,
      List.length_append, List.length_replicate]
    rw [show ofDigits ['0'] = 0 from rfl, Nat.mul_zero, Nat.mul_zero, Nat.zero_add, Nat.zero_add]
    congr 2
    omega

/-- The point after the first digit, and the exponent of that digit. -/
theorem written_scientific (hd : d.digits ≠ 0) {power : Int} (hpower : power = (digitsOf d.digits).length + d.exponent - 1) :
    d.Written ⟨negative, (digitsOf d.digits).take 1, (digitsOf d.digits).drop 1,
      some ⟨decide (power < 0), digitsOf power.natAbs⟩⟩ := by
  constructor
  · refine readable_divided negative hd one_ne_zero ?_ ?_
    · rintro e ⟨⟩
      exact Numeral.digitsOf_ne_nil _
    · rintro e ⟨⟩ c hc
      exact isDigit_of_mem_digitsOf hc
  · have hsigned : Numeral.power ⟨negative, (digitsOf d.digits).take 1, (digitsOf d.digits).drop 1,
        some ⟨decide (power < 0), digitsOf power.natAbs⟩⟩ = power := by
      simp only [Numeral.power, ofDigits_digitsOf, decide_eq_true_eq]
      split <;> omega
    have hlength := length_digitsOf_pos d.digits
    unfold Numeral.magnitude Decimal.value
    rw [hsigned, List.take_append_drop, ofDigits_digitsOf, List.length_drop]
    congr 2
    omega

end Decimal

namespace DoubleFormat

variable (format : DoubleFormat) (x : Double)

/-- Wherever the point is put, the numeral has the sign of the double and the value of its shortest decimal. -/
theorem written_layout :
    (x.shortest format.tie).Written (format.layout x) ∧ (format.layout x).negative = x.negative := by
  unfold layout
  dsimp only
  split
  · rename_i hd
    exact ⟨Decimal.written_zero x.negative hd, rfl⟩
  · rename_i hd
    split
    · split
      · rename_i he
        exact ⟨Decimal.written_whole x.negative hd he, rfl⟩
      · rename_i he
        split
        · rename_i hbefore
          exact ⟨Decimal.written_inside x.negative hd (by omega) (by omega) (by omega), rfl⟩
        · rename_i hbefore
          exact ⟨Decimal.written_small x.negative (by omega), rfl⟩
    · exact ⟨Decimal.written_scientific x.negative hd rfl, rfl⟩

theorem readable_layout : (format.layout x).Readable := (format.written_layout x).1.readable

theorem magnitude_layout : (format.layout x).magnitude = (x.shortest format.tie).value :=
  (format.written_layout x).1.value

theorem layout_of_isZero (hx : x.isZero = true) : format.layout x = ⟨x.negative, ['0'], ['0'], none⟩ := by
  unfold layout Double.shortest
  rw [if_pos hx]
  rfl

/-- The double nearest to the numeral of a double is that double. -/
theorem nearest?_layout : (format.layout x).nearest? = some x := by
  cases hx : x.isZero with
  | true =>
    rw [layout_of_isZero format x hx, Double.eq_zero_of_isZero hx]
    rfl
  | false =>
    refine Numeral.nearest?_eq_some hx (format.written_layout x).2 ?_
    rw [magnitude_layout]
    exact Double.nearest_shortest format.tie hx

theorem layout_injective : Function.Injective format.layout := by
  intro x y h
  have hx := format.nearest?_layout x
  rw [h, nearest?_layout] at hx
  exact (Option.some.inj hx).symm

/-! ## Numerals of doubles in range -/

/-- A number that is written positionally has few digits before the point. -/
theorem length_whole_layout (h : format.plainBelow ≤ 19) : (format.layout x).whole.length ≤ 19 := by
  unfold layout
  dsimp only
  split
  · exact Nat.one_le_ofNat
  · split
    · split
      · rw [List.length_append, zeros, List.length_replicate]
        omega
      · split
        · exact (List.length_take_le _ _).trans (by omega)
        · exact Nat.one_le_ofNat
    · exact (List.length_take_le _ _).trans (by decide)

theorem ofDigits_whole_layout_le (h : format.plainBelow ≤ 19) :
    Numeral.ofDigits (format.layout x).whole ≤ Numeral.maxSignificand := by
  have hlt := Numeral.ofDigits_lt (format.readable_layout x).whole_digits
  have hpow := Nat.pow_le_pow_right (n := 10) (by omega) (format.length_whole_layout x h)
  exact (hlt.trans_le hpow).le.trans (by decide)

/-- A number too large to be written positionally has an exponent. -/
theorem layout_of_large {d : Decimal} (hd : x.shortest format.tie = d) (hne : d.digits ≠ 0)
    (hlarge : format.plainBelow ≤ (Numeral.digitsOf d.digits).length + d.exponent - 1) :
    format.layout x = ⟨x.negative, (Numeral.digitsOf d.digits).take 1, (Numeral.digitsOf d.digits).drop 1,
      some ⟨decide ((Numeral.digitsOf d.digits).length + d.exponent - 1 < 0),
        Numeral.digitsOf ((Numeral.digitsOf d.digits).length + d.exponent - 1).natAbs⟩⟩ := by
  unfold layout
  rw [hd]
  dsimp only
  rw [if_neg hne, if_neg (by omega)]

/-- The shortest decimals of the two greatest doubles. -/
theorem shortest_of_greatest {x : Double} (tie : Tie) (hscale : x.scale = 971)
    (hsig : 2 * leadingBit - 2 ≤ x.significand) :
    x.shortest tie = ⟨17976931348623157, 292⟩ ∨ x.shortest tie = ⟨17976931348623155, 292⟩ := by
  have hparts := x.ofParts?_self
  have hlt := x.significand_lt
  rw [hscale] at hparts
  obtain hsig | hsig : x.significand = 2 * leadingBit - 1 ∨ x.significand = 2 * leadingBit - 2 := by omega
  · have hx : x = ⟨x.negative, 2046, ⟨leadingBit - 1, by decide⟩⟩ := by
      rw [hsig] at hparts
      exact (Option.some.inj hparts).symm
    left
    rw [hx]
    cases x.negative <;> cases tie <;> decide +kernel
  · have hx : x = ⟨x.negative, 2046, ⟨leadingBit - 2, by decide⟩⟩ := by
      rw [hsig] at hparts
      exact (Option.some.inj hparts).symm
    right
    rw [hx]
    cases x.negative <;> cases tie <;> decide +kernel

/-- These two are closer to the overflow than the roundings of the reader in general; they are read all the same. -/
theorem toDouble?_layout_of_greatest (h : format.plainBelow ≤ 19) (hscale : x.scale = 971)
    (hsig : 2 * leadingBit - 2 ≤ x.significand) : (format.layout x).toDouble?.isSome = true := by
  rcases shortest_of_greatest format.tie hscale hsig with hshortest | hshortest
  · rw [format.layout_of_large x hshortest (by decide) (h.trans (by decide))]
    cases x.negative <;> decide +kernel
  · rw [format.layout_of_large x hshortest (by decide) (h.trans (by decide))]
    cases x.negative <;> decide +kernel

/-- What is nearest to one of the other doubles is two units of the last place away from the overflow. -/
theorem nearest_le {x : Double} {r : ℚ} (h : x.Nearest r) (hx : x.scale = 971 → x.significand < 2 * leadingBit - 2) :
    r ≤ (2 * leadingBit - 5 / 2) * 2 ^ (971 : Int) := by
  have hhigh := h.high
  rw [div_le_iff₀ (Double.two_zpow_pos _)] at hhigh
  by_cases hscale : x.scale = 971
  · have hsig : (x.significand : ℚ) + 1 / 2 ≤ 2 * leadingBit - 5 / 2 := by
      have hle : x.significand + 3 ≤ 2 * leadingBit := by have := hx hscale; omega
      have hcast : (x.significand : ℚ) + 3 ≤ (2 * leadingBit : Nat) := by exact_mod_cast hle
      norm_num at hcast ⊢
      linarith
    rw [hscale] at hhigh
    exact hhigh.trans (mul_le_mul_of_nonneg_right hsig (Double.two_zpow_pos _).le)
  · have hsig : (x.significand : ℚ) + 1 / 2 ≤ 2 * leadingBit := by
      have hcast : (x.significand : ℚ) + 1 ≤ (2 * leadingBit : Nat) := by exact_mod_cast x.significand_lt
      norm_num at hcast ⊢
      linarith
    have hpow : (2 : ℚ) ^ x.scale ≤ 2 ^ (971 - 1 : Int) := by
      have := x.scale_bounds
      exact zpow_le_zpow_right₀ (by norm_num) (by omega)
    have htop := Double.two_zpow_pos 971
    rw [zpow_sub_one₀ (by norm_num)] at hpow
    calc r ≤ (x.significand + 1 / 2) * 2 ^ x.scale := hhigh
      _ ≤ 2 * leadingBit * (2 ^ (971 : Int) * 2⁻¹) := by gcongr
      _ = leadingBit * 2 ^ (971 : Int) := by ring
      _ ≤ (2 * leadingBit - 5 / 2) * 2 ^ (971 : Int) := by gcongr; norm_num

/-- The numeral of a double is read as some double. -/
theorem toDouble?_layout_isSome (h : format.plainBelow ≤ 19) : (format.layout x).toDouble?.isSome = true := by
  have hwhole := format.ofDigits_whole_layout_le x h
  cases hx : x.isZero with
  | true =>
    refine Numeral.toDouble?_isSome hwhole ?_
    rw [magnitude_layout, Double.shortest, if_pos hx, Decimal.value, Nat.cast_zero, zero_mul, zero_mul]
    exact (Double.magnitude_nonneg x).trans_lt x.magnitude_lt
  | false =>
    by_cases hgreatest : x.scale = 971 ∧ 2 * leadingBit - 2 ≤ x.significand
    · exact format.toDouble?_layout_of_greatest x h hgreatest.1 hgreatest.2
    · refine Numeral.toDouble?_isSome hwhole ?_
      have hle := nearest_le (Double.nearest_shortest format.tie hx) (by omega)
      have hround : (2 * leadingBit - 5 / 2) * (1 + Double.unitRoundoff) ^ 2 < 2 * leadingBit - 1 / 2 := by
        unfold Double.unitRoundoff
        norm_num
      rw [magnitude_layout]
      calc (x.shortest format.tie).value * (1 + Double.unitRoundoff) ^ 2
          ≤ (2 * leadingBit - 5 / 2) * 2 ^ (971 : Int) * (1 + Double.unitRoundoff) ^ 2 := by gcongr
        _ = (2 * leadingBit - 5 / 2) * (1 + Double.unitRoundoff) ^ 2 * 2 ^ (971 : Int) := by ring
        _ < Double.overflow := mul_lt_mul_of_pos_right hround (Double.two_zpow_pos _)

-- 51.248178375505404 is read as 51.24817837550541, the next double
example : (layout ⟨-5, 16, .toEven⟩ ⟨false, 1028, 2708940279983968⟩).toDouble? =
    some ⟨false, 1028, 2708940279983969⟩ := by decide +kernel

end DoubleFormat

end EffectTyping
