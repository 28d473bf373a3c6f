/-
Numerals: decimal numbers as they are written, with a sign, whole digits, digits after the point and an exponent.
A numeral is kept as its digits, so that reading a text decides nothing about the size or the precision of the
number.
-/

namespace EffectTyping

/-- The power of ten a numeral is scaled by, as written. -/
structure Exponent where
  negative : Bool
  digits : List Char
  deriving DecidableEq, Repr

/-- A decimal number as written. -/
structure Numeral where
  negative : Bool
  /-- The digits before the point. -/
  whole : List Char
  /-- The digits after the point; without any, no point is written. -/
  fraction : List Char
  exponent : Option Exponent
  deriving DecidableEq, Repr

namespace Numeral

/-- The decimal digits of a number. -/
def digitsOf (n : Nat) : List Char := Nat.toDigits 10 n

/-- The number with the given decimal digits. -/
def ofDigits (digits : List Char) : Nat := Nat.ofDigitChars 10 digits 0

/-- The numeral of an integer. -/
def ofInt (n : Int) : Numeral := ⟨decide (n < 0), digitsOf n.natAbs, [], none⟩

def ofNat (n : Nat) : Numeral := ⟨false, digitsOf n, [], none⟩

/-- The integer a numeral stands for. One with a point or an exponent is no integer, and neither is `-0`: zero
has a sign only among the doubles. -/
def toInt? (n : Numeral) : Option Int :=
  if n.fraction = [] ∧ n.exponent = none then
    let magnitude := ofDigits n.whole
    if n.negative then
      if magnitude = 0 then none else some (-(magnitude : Int))
    else some (magnitude : Int)
  else none

/-- The value of the exponent, 0 if none is written. -/
def power (n : Numeral) : Int :=
  match n.exponent with
  | none => 0
  | some ⟨negative, digits⟩ =>
    let magnitude : Int := ofDigits digits
    if negative then -magnitude else magnitude

/-- The text of a numeral; `plus` says whether an exponent of zero or more is written with its sign. -/
def render (plus : Bool) (n : Numeral) : List Char :=
  let sign := if n.negative then ['-'] else []
  let point := if n.fraction = [] then [] else '.' :: n.fraction
  let power :=
    match n.exponent with
    | none => []
    | some ⟨true, digits⟩ => 'e' :: '-' :: digits
    | some ⟨false, digits⟩ => if plus then 'e' :: '+' :: digits else 'e' :: digits
  sign ++ n.whole ++ point ++ power

end Numeral

end EffectTyping
