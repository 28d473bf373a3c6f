/-
Numerals and the numbers they stand for. The digits of a number read as that number and begin with zero only for zero;
a numeral of an integer reads as the integer; and the value of any numeral is a fraction, of which there is a nearest
double.
-/
import EffectTyping.Proofs.Number.Double

namespace EffectTyping

namespace Numeral

/-! ## Digits -/

theorem ofDigits_digitsOf (n : Nat) : ofDigits (digitsOf n) = n := Nat.ofDigitChars_ten_toDigits

theorem isDigit_of_mem_digitsOf {n : Nat} {c : Char} (h : c ∈ digitsOf n) : c.isDigit = true :=
  Nat.isDigit_of_mem_toDigits (by omega) (by omega) h

theorem toList_toString (n : Nat) : (toString n).toList = digitsOf n := Nat.toList_repr

theorem digitsOf_ne_nil (n : Nat) : digitsOf n ≠ [] := Nat.toDigits_ne_nil

/-- A text is cut where a test fails for the first time. -/
theorem span_append {p : Char → Bool} {front rest : List Char} (hfront : ∀ c ∈ front, p c = true)
    (hrest : ∀ c ∈ rest.head?, p c = false) :
    (front ++ rest).takeWhile p = front ∧ (front ++ rest).dropWhile p = rest := by
  rw [List.takeWhile_append_of_pos hfront, List.dropWhile_append_of_pos hfront]
  cases rest with
  | nil => exact ⟨List.append_nil _, rfl⟩
  | cons c rest =>
    have hc : p c = false := hrest c rfl
    rw [List.takeWhile_cons, List.dropWhile_cons, hc]
    exact ⟨List.append_nil _, rfl⟩

/-- The digits of a number other than zero do not begin with zero. -/
theorem head?_digitsOf {n : Nat} (h : n ≠ 0) : (digitsOf n).head? ≠ some '0' := by
  unfold digitsOf
  induction n using Nat.strong_induction_on with
  | _ n ih =>
    rw [Nat.toDigits_eq_if (by omega)]
    split
    · simp [Nat.digitChar_eq_zero, h]
    · rename_i hge
      rw [List.head?_append_of_ne_nil _ Nat.toDigits_ne_nil]
      exact ih (n / 10) (by omega) (by omega)

theorem ofDigits_append (l r : List Char) : ofDigits (l ++ r) = 10 ^ r.length * ofDigits l + ofDigits r := by
  unfold ofDigits
  rw [Nat.ofDigitChars_append, Nat.ofDigitChars_eq_ofDigitChars_zero]

theorem ofDigits_zeros (n : Nat) : ofDigits (List.replicate n '0') = 0 := by
  unfold ofDigits
  rw [Nat.ofDigitChars_replicate_zero, Nat.mul_zero]

theorem ofDigits_cons (c : Char) (cs : List Char) :
    ofDigits (c :: cs) = 10 ^ cs.length * (c.toNat - '0'.toNat) + ofDigits cs := by
  unfold ofDigits
  rw [Nat.ofDigitChars_cons, Nat.ofDigitChars_eq_ofDigitChars_zero, Nat.mul_zero, Nat.zero_add]

theorem toNat_bounds {c : Char} (h : c.isDigit = true) : 48 ≤ c.toNat ∧ c.toNat ≤ 57 := by
  simp only [Char.isDigit, Bool.and_eq_true, decide_eq_true_eq, ge_iff_le, UInt32.le_iff_toNat_le] at h
  exact h

theorem ofDigits_lt {l : List Char} (h : ∀ c ∈ l, c.isDigit = true) : ofDigits l < 10 ^ l.length := by
  induction l with
  | nil => decide
  | cons c cs ih =>
    obtain ⟨hc, hcs⟩ := List.forall_mem_cons.1 h
    have hlt := ih hcs
    have hb := toNat_bounds hc
    have hz : '0'.toNat = 48 := rfl
    rw [ofDigits_cons, List.length_cons, Nat.pow_succ, hz]
    have : 10 ^ cs.length * (c.toNat - 48) ≤ 10 ^ cs.length * 9 := Nat.mul_le_mul_left _ (by omega)
    omega

/-! ## Numerals that can be read -/

/-- The digits a numeral has where some have to stand, and only digits: at least one before the point, with no zero in
front of others, and at least one in the exponent if there is one. -/
structure Readable (n : Numeral) : Prop where
  whole_ne_nil : n.whole ≠ []
  whole_lead : n.whole.head? = some '0' → n.whole = ['0']
  whole_digits : ∀ c ∈ n.whole, c.isDigit = true
  fraction_digits : ∀ c ∈ n.fraction, c.isDigit = true
  exponent_ne_nil : ∀ e, n.exponent = some e → e.digits ≠ []
  exponent_digits : ∀ e, n.exponent = some e → ∀ c ∈ e.digits, c.isDigit = true

theorem digitsOf_lead {n : Nat} (h : (digitsOf n).head? = some '0') : digitsOf n = ['0'] := by
  by_cases hn : n = 0
  · subst hn; rfl
  · exact absurd h (head?_digitsOf hn)

/-- The digits of a number as a numeral. -/
theorem readable_digitsOf (negative : Bool) (n : Nat) : Readable ⟨negative, digitsOf n, [], none⟩ where
  whole_ne_nil := digitsOf_ne_nil n
  whole_lead := digitsOf_lead
  whole_digits _ := isDigit_of_mem_digitsOf
  fraction_digits := List.forall_mem_nil _
  exponent_ne_nil := by simp
  exponent_digits := by simp

theorem readable_ofNat (n : Nat) : (ofNat n).Readable := readable_digitsOf false n

theorem readable_ofInt (n : Int) : (ofInt n).Readable := readable_digitsOf _ n.natAbs

theorem toInt?_ofInt (n : Int) : (ofInt n).toInt? = some n := by
  unfold toInt? ofInt
  simp only [and_self, if_true, ofDigits_digitsOf, decide_eq_true_eq]
  split
  · rw [if_neg (by omega)]
    congr 1
    omega
  · congr 1
    omega

theorem toInt?_ofNat (n : Nat) : (ofNat n).toInt? = some (n : Int) := by
  unfold toInt? ofNat
  simp [ofDigits_digitsOf]

/-! ## The value of a numeral -/

/-- The value without the sign. -/
def magnitude (n : Numeral) : ℚ := (ofDigits (n.whole ++ n.fraction) : ℚ) * 10 ^ (n.power - n.fraction.length)

theorem ten_zpow_pos (k : Int) : (0 : ℚ) < 10 ^ k := zpow_pos (by norm_num) k

/-- The fraction that a scaled number is. -/
theorem tenTo_quotient (a : Nat) (p : Int) :
    ((a * tenTo p.toNat : Nat) : ℚ) / (tenTo (-p).toNat : Nat) = a * 10 ^ p := by
  unfold tenTo
  simp only [Nat.pow_eq]
  push_cast
  rcases Int.le_total 0 p with hp | hp
  · obtain ⟨n, rfl⟩ := Int.eq_ofNat_of_zero_le hp
    rw [Int.toNat_natCast, Int.toNat_of_nonpos (by omega), zpow_natCast, pow_zero, div_one]
  · obtain ⟨n, rfl⟩ : ∃ n : Nat, p = -(n : Int) := ⟨(-p).toNat, by omega⟩
    rw [neg_neg, Int.toNat_natCast, Int.toNat_of_nonpos (by omega), zpow_neg, zpow_natCast, pow_zero, mul_one,
      div_eq_mul_inv]

/-- The double nearest to the value, none if that is too large. -/
def nearest? (n : Numeral) : Option Double :=
  let power := n.power - n.fraction.length
  Double.ofQuotient? n.negative (ofDigits (n.whole ++ n.fraction) * tenTo power.toNat) (tenTo (-power).toNat)

theorem nearest?_eq_some {n : Numeral} {x : Double} (hx : x.isZero = false) (hsign : n.negative = x.negative)
    (h : x.Nearest n.magnitude) : n.nearest? = some x := by
  unfold nearest?
  rw [hsign]
  refine Double.ofQuotient?_of_nearest hx (Nat.pow_pos (by omega)) ?_
  rw [tenTo_quotient]
  exact h

end Numeral

end EffectTyping
