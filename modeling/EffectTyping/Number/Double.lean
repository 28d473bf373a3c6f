/-
Doubles: the finite binary64 numbers, as sign, exponent field and fraction field. Infinities and non-numbers are left
out: a document has no text for them, a number beyond the range is refused where it is read, and nothing computes with
the floats of a term, so no term holds one. A fraction is rounded to the nearest double, a half to the neighbour with
an even significand, in exact arithmetic.
-/
import EffectTyping.Number.Numeral

namespace EffectTyping

/-- The weight of the leading bit of a significand, `2 ^ 52`; the fraction field does not hold that bit. -/
abbrev leadingBit : Nat := 4503599627370496

/-- A finite binary64 number by its three fields. -/
structure Double where
  negative : Bool
  /-- The exponent field; the field 2047, of infinities and non-numbers, is left out. -/
  exponent : Fin 2047
  fraction : Fin leadingBit
  deriving DecidableEq, Repr

namespace Double

/-- The `m` of the magnitude `m * 2 ^ q`. -/
def significand (x : Double) : Nat :=
  if x.exponent.val = 0 then x.fraction.val else x.fraction.val + leadingBit

/-- The `q` of the magnitude `m * 2 ^ q`. -/
def scale (x : Double) : Int :=
  if x.exponent.val = 0 then -1074 else (x.exponent.val : Int) - 1075

/-- Zero with a sign. -/
def zero (negative : Bool) : Double := ⟨negative, 0, 0⟩

def isZero (x : Double) : Bool := x.exponent.val == 0 && x.fraction.val == 0

/-- The double `m * 2 ^ q`, if the fields can hold it. -/
def ofParts? (negative : Bool) (m : Nat) (q : Int) : Option Double :=
  if h : m < leadingBit then
    if q = -1074 then some ⟨negative, 0, ⟨m, h⟩⟩ else none
  else if h : (q + 1075).toNat < 2047 ∧ m - leadingBit < leadingBit then
    some ⟨negative, ⟨(q + 1075).toNat, h.1⟩, ⟨m - leadingBit, h.2⟩⟩
  else none

/-- The quotient rounded to the nearest integer, a half to the even one. -/
def roundQuotient (num den : Nat) : Nat :=
  let q := num / den
  match compare (2 * (num % den)) den with
  | .lt => q
  | .gt => q + 1
  | .eq => if q % 2 = 0 then q else q + 1

/-- The greatest `k` with `2 ^ k ≤ num / den`. -/
def log2Quotient (num den : Nat) : Int :=
  let k := (num.log2 : Int) - den.log2
  if den <<< k.toNat ≤ num <<< (-k).toNat then k else k - 1

/-- The double nearest to the fraction, none if it is too large. -/
def ofQuotient? (negative : Bool) (num den : Nat) : Option Double :=
  if num = 0 then some (zero negative)
  else
    let q := max (log2Quotient num den) (-1022) - 52
    let m := roundQuotient (num <<< (-q).toNat) (den <<< q.toNat)
    if m = 2 * leadingBit then ofParts? negative leadingBit (q + 1) else ofParts? negative m q

/-- The double nearest to the product, none if it is too large. -/
def multiply? (x y : Double) : Option Double :=
  let q := x.scale + y.scale
  ofQuotient? (x.negative != y.negative) ((x.significand * y.significand) <<< q.toNat) (1 <<< (-q).toNat)

/-- The double nearest to the quotient, none if it is too large. The divisor is not zero. -/
def divide? (x y : Double) : Option Double :=
  let q := x.scale - y.scale
  ofQuotient? (x.negative != y.negative) (x.significand <<< q.toNat) (y.significand <<< (-q).toNat)

end Double

/-- The power of ten. -/
def tenTo (n : Nat) : Nat := Nat.pow 10 n

end EffectTyping
