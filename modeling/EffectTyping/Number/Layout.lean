/-
How a double is laid out as a numeral: which exponents are written positionally, and which way a tie between
two shortest decimals goes. A number written positionally has at least one digit after the point.
-/
import EffectTyping.Number.Shortest

namespace EffectTyping

/-- The decisions of a format for doubles. -/
structure DoubleFormat where
  /-- A number is written positionally if the exponent of its leading digit is at least `plainFrom` … -/
  plainFrom : Int
  /-- … and below `plainBelow`. -/
  plainBelow : Int
  tie : Tie

namespace DoubleFormat

def zeros (n : Nat) : List Char := List.replicate n '0'

/-- The shortest decimal of `x` laid out: the point after, inside or before its digits, or an exponent. -/
def layout (format : DoubleFormat) (x : Double) : Numeral :=
  let d := x.shortest format.tie
  let digits := Numeral.digitsOf d.digits
  -- the number of digits before the point
  let before := (digits.length : Int) + d.exponent
  if d.digits = 0 then ⟨x.negative, ['0'], ['0'], none⟩
  else if format.plainFrom ≤ before - 1 ∧ before - 1 < format.plainBelow then
    if 0 ≤ d.exponent then ⟨x.negative, digits ++ zeros d.exponent.toNat, ['0'], none⟩
    else if 0 < before then ⟨x.negative, digits.take before.toNat, digits.drop before.toNat, none⟩
    else ⟨x.negative, ['0'], zeros (-before).toNat ++ digits, none⟩
  else
    let exponent : Exponent := ⟨decide (before - 1 < 0), Numeral.digitsOf (before - 1).natAbs⟩
    ⟨x.negative, digits.take 1, digits.drop 1, some exponent⟩

end DoubleFormat

end EffectTyping
