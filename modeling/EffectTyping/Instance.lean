/-
Instances of a type: `specific` is an instance of `general` if replacing the variables of `general` gives
exactly `specific`, latent effects included. The variables of `specific` are fixed names here. Finding the
replacement walks both types from left to right and collects the bindings.
-/
import EffectTyping.Subst

namespace EffectTyping.Ty

mutual

/-- Extends the bindings `w` so that `general` becomes `specific`, if that can be done. -/
def matchWith (w : Subst) : (general specific : Ty) → Option Subst
  | .var v, t =>
    match w.get? v with
    | some bound => if bound = t then some w else none
    | none => some (w.insert v t)
  | .base b, .base c => if b = c then some w else none
  | .option t, .option u => matchWith w t u
  | .list t, .list u => matchWith w t u
  | .tuple ts, .tuple us => matchAllWith w ts us
  | .arrow a e r, .arrow b f q =>
    if e = f then (matchWith w a b).bind fun w' => matchWith w' r q else none
  | _, _ => none

def matchAllWith (w : Subst) : (general specific : List Ty) → Option Subst
  | [], [] => some w
  | t :: ts, u :: us => (matchWith w t u).bind fun w' => matchAllWith w' ts us
  | _, _ => none

end

/-- The bindings of the variables of `general` that turn it into `specific`. -/
def instantiation? (general specific : Ty) : Option Subst := matchWith .empty general specific

/-- Is `specific` an instance of `general`? -/
def generalizes (general specific : Ty) : Bool := (instantiation? general specific).isSome

end EffectTyping.Ty
