/-
A supply of fresh type variables and fresh names, each with a count of its own.
-/
import EffectTyping.Ty.Basic

namespace EffectTyping

/-- How many type variables and how many names have been handed out. -/
structure Supply where
  typeVars : UInt32
  names : UInt32
  deriving DecidableEq, Repr, Inhabited

namespace Supply

/-- Nothing handed out yet. -/
def start : Supply := ⟨0, 0⟩

/-- A type variable that this supply has not handed out before. -/
def freshTypeVar (s : Supply) : TypeVar × Supply :=
  (⟨s.typeVars⟩, { s with typeVars := s.typeVars + 1 })

/-- A name that this supply has not handed out before: `var0`, `var1` and so on. -/
def freshName (s : Supply) : String × Supply :=
  ("var" ++ toString s.names.toNat, { s with names := s.names + 1 })

end Supply

end EffectTyping
