/-
Substitutions of types for type variables, as finite maps. `apply` replaces the variables of a type in one
pass, `compose` is application one after the other, and `bind` adds a binding to a solution and carries it
into the bindings already there.
-/
import EffectTyping.Ty.Printer

namespace EffectTyping

/-- A finite assignment of types to type variables; other variables stand for themselves. -/
abbrev Subst := OrderedMap TypeVar Ty

namespace Subst

/-- What a variable is replaced by. -/
def image (s : Subst) (v : TypeVar) : Ty := (s.get? v).getD (.var v)

mutual

/-- Replaces the bound variables of a type; the types put in are not looked at again. -/
def apply (s : Subst) : Ty → Ty
  | .var v => s.image v
  | .base b => .base b
  | .option t => .option (apply s t)
  | .list t => .list (apply s t)
  | .tuple ts => .tuple (applyAll s ts)
  | .arrow a e r => .arrow (apply s a) e (apply s r)

def applyAll (s : Subst) : List Ty → List Ty
  | [] => []
  | t :: ts => apply s t :: applyAll s ts

end

/-- The substitution that acts as `s` after `first`. -/
def compose (s first : Subst) : Subst := (first.mapValues s.apply).union s

/-- Adds `v ↦ t` to a solution and replaces `v` in the bindings already there. -/
def bind (s : Subst) (v : TypeVar) (t : Ty) : Subst := compose (.singleton v t) s

/-- No bound variable occurs in a bound type, so that a second application changes nothing. -/
def isIdempotent (s : Subst) : Bool :=
  s.toList.all fun binding => binding.2.vars.all fun v => !s.contains v

/-- The text of one binding. -/
def renderBinding (binding : TypeVar × Ty) : String := binding.1.name ++ " := " ++ binding.2.render

/-- The bindings in ascending order of variables, in braces. -/
def render (s : Subst) : String :=
  "\x7b" ++ ", ".intercalate (s.toList.map renderBinding) ++ "\x7d"

end Subst

end EffectTyping
