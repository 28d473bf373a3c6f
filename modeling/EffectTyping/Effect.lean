/-
Effects: the chain pure < weak < strong, with its join and its order, and the pair of flags (effectful,
strong) an effect is written as. Of the four pairs `(false, true)` is no effect.
-/

namespace EffectTyping

/-- What evaluating an expression may do. -/
inductive Effect where
  /-- No tracked side effect. -/
  | pure
  /-- A tracked side effect, leaving the expression early included. -/
  | weak
  /-- An effect of the most general kind. -/
  | strong
  deriving DecidableEq, Repr, Inhabited

namespace Effect

/-- Position in the chain. -/
def rank : Effect → Nat
  | pure => 0
  | weak => 1
  | strong => 2

instance : Ord Effect := ⟨fun a b => compare a.rank b.rank⟩

/-- The flags (effectful, strong). -/
def flags : Effect → Bool × Bool
  | pure => (false, false)
  | weak => (true, false)
  | strong => (true, true)

/-- The effect with the given flags. A strong effect is in particular an effect, so `(false, true)` is none. -/
def ofFlags? (effectful strong : Bool) : Option Effect :=
  match effectful, strong with
  | false, false => some pure
  | true, false => some weak
  | true, true => some .strong
  | false, true => none

/-- Why a pair of flags is no effect. -/
def illegalFlags : String :=
  "illegal effect flags (false, true): the strong flag requires the effect flag"

def isPure (e : Effect) : Bool := e == pure

/-- The least effect above both. -/
def join : Effect → Effect → Effect
  | pure, e => e
  | e, pure => e
  | weak, weak => weak
  | _, _ => strong

/-- An expression of the smaller effect may stand where the larger one is declared. -/
instance : LE Effect := ⟨fun a b => a.join b = b⟩

instance (a b : Effect) : Decidable (a ≤ b) := inferInstanceAs (Decidable (a.join b = b))

/-- The join of all effects of a list, `pure` if there are none. -/
def joinAll (effects : List Effect) : Effect := effects.foldl join pure

def name : Effect → String
  | pure => "pure"
  | weak => "weak"
  | strong => "strong"

end Effect

end EffectTyping
