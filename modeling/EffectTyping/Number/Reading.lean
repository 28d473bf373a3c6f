/-
Numerals read as doubles. The digits are taken into a significand for as long as 64 bits hold it; the significand is
rounded to a double, and that double is multiplied or divided by a power of ten, which is a rounded double too. With up
to three roundings the result need not be the double nearest to the numeral: it may lie beside it.
-/
import EffectTyping.Number.Double

namespace EffectTyping

namespace Double

/-- The greatest power of ten among the doubles has this exponent. -/
def maxTenPower : Nat := 308

/-- The double nearest to a power of ten. -/
def tenPower? (k : Nat) : Option Double := ofQuotient? false (tenTo k) 1

/-- Divides by `10 ^ k`, in several rounds if that is beyond the doubles. -/
def shrink? (x : Double) (k : Nat) : Option Double :=
  if k ≤ maxTenPower then (tenPower? k).bind x.divide?
  else if x.isZero then some x
  else (tenPower? maxTenPower).bind fun ten => (x.divide? ten).bind fun y => y.shrink? (k - maxTenPower)
termination_by k
decreasing_by
  unfold maxTenPower at *
  omega

/-- Multiplies by `10 ^ power`, none if the product is too large. -/
def scaleByTen? (x : Double) (power : Int) : Option Double :=
  if power < 0 then x.shrink? (-power).toNat
  else if power ≤ maxTenPower then (tenPower? power.toNat).bind x.multiply?
  else if x.isZero then some x
  else none

end Double

namespace Numeral

/-- The greatest significand that is read. -/
def maxSignificand : Nat := 18446744073709551615

/-- Takes digits into the significand `m` until one does not fit: the significand, and the number of digits left. -/
def takeDigits (m : Nat) : List Char → Nat × Nat
  | [] => (m, 0)
  | c :: cs =>
    let next := 10 * m + (c.toNat - '0'.toNat)
    if next ≤ maxSignificand then takeDigits next cs else (m, cs.length + 1)

/-- The double that a numeral is read as, none if it is too large. Whole digits that do not fit count for the power of
ten, and digits after the point that do not fit count for nothing. -/
def toDouble? (n : Numeral) : Option Double :=
  let whole := takeDigits 0 n.whole
  let all := takeDigits whole.1 n.fraction
  let power := n.power + whole.2 - ((n.fraction.length : Int) - all.2)
  (Double.ofQuotient? n.negative all.1 1).bind fun x => x.scaleByTen? power

end Numeral

end EffectTyping
