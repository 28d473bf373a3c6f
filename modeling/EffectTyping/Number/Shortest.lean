/-
The shortest decimal of a double: the fewest digits that read back to it, and of those the nearest. The reals
that round to `m * 2 ^ q` form an interval, its ends included exactly if `m` is even; for one digit, two digits
and so on the two neighbours of the value on that decimal grid are tested, in exact arithmetic.
-/
import EffectTyping.Number.Double

namespace EffectTyping

/-- The number `digits * 10 ^ exponent`. -/
structure Decimal where
  digits : Nat
  exponent : Int
  deriving DecidableEq, Repr

/-- Which of two decimals at the same distance is taken. -/
inductive Tie where
  | toEven
  | up
  deriving DecidableEq, Repr

namespace Double

/-- Compares `a * 10 ^ i` with `n * 2 ^ j`. -/
def compareScaled (a : Nat) (i : Int) (n : Nat) (j : Int) : Ordering :=
  compare ((a * tenTo i.toNat) <<< (-j).toNat) ((n * tenTo (-i).toNat) <<< j.toNat)

/-- Is the gap to the next double below half the gap to the one above? -/
def narrowBelow (x : Double) : Bool := x.fraction.val == 0 && 1 < x.exponent.val

/-- Does the decimal lie among the reals that round to the magnitude of `x`? -/
def readsBack (x : Double) (d : Decimal) : Bool :=
  let low := if x.narrowBelow then 4 * x.significand - 1 else 4 * x.significand - 2
  let high := 4 * x.significand + 2
  let ends := x.significand % 2 == 0
  let fromLow := compareScaled d.digits d.exponent low (x.scale - 2)
  let fromHigh := compareScaled d.digits d.exponent high (x.scale - 2)
  (fromLow == .gt || (ends && fromLow == .eq)) && (fromHigh == .lt || (ends && fromHigh == .eq))

/-- The least `k` with the magnitude of `x` below `10 ^ k`, for `x` not zero. The logarithm base 2 gives it up
to one, and exact comparison decides. -/
def place (x : Double) : Int :=
  let guess := ((x.significand.log2 : Int) + x.scale) * 30103 / 100000
  let above (k : Int) : Bool := compareScaled 1 k x.significand x.scale == .gt
  if above guess then guess
  else if above (guess + 1) then guess + 1
  else guess + 2

/-- The largest multiple of `10 ^ g` that is at most the magnitude of `x`, as the factor. -/
def floorAt (x : Double) (g : Int) : Nat :=
  ((x.significand * tenTo (-g).toNat) <<< x.scale.toNat) / (tenTo g.toNat <<< (-x.scale).toNat)

/-- The better of the two neighbours of `x` among the multiples of `10 ^ g` that reads back, if one does. -/
def neighbour? (tie : Tie) (x : Double) (g : Int) : Option Decimal :=
  let below : Decimal := ⟨x.floorAt g, g⟩
  let above : Decimal := ⟨x.floorAt g + 1, g⟩
  match x.readsBack below, x.readsBack above with
  | false, false => none
  | true, false => some below
  | false, true => some above
  | true, true =>
    match compareScaled (2 * below.digits + 1) g (2 * x.significand) x.scale with
    | .gt => some below
    | .lt => some above
    | .eq =>
      match tie with
      | .up => some above
      | .toEven => some (if below.digits % 2 = 0 then below else above)

/-- The magnitude of `x` itself, as a decimal. -/
def exact (x : Double) : Decimal :=
  if 0 ≤ x.scale then ⟨x.significand <<< x.scale.toNat, 0⟩
  else ⟨x.significand * Nat.pow 5 (-x.scale).toNat, x.scale⟩

end Double

/-- Moves trailing zeros of the digits into the exponent. -/
def Decimal.strip (d : Decimal) : Decimal :=
  if h : 0 < d.digits ∧ d.digits % 10 = 0 then
    strip ⟨d.digits / 10, d.exponent + 1⟩
  else d
termination_by d.digits
decreasing_by
  show d.digits / 10 < d.digits
  omega

/-- The shortest decimal that reads back to the magnitude of `x`. Seventeen digits always do. -/
def Double.shortest (tie : Tie) (x : Double) : Decimal :=
  if x.isZero then ⟨0, 0⟩
  else
    let k := x.place
    ((List.range 17).findSome? fun (n : Nat) => x.neighbour? tie (k - (n : Int) - 1)).getD x.exact |>.strip

end EffectTyping
