/-
Why a term is not accepted, and where. A rejection names the rule that does not hold; the other kind of failure
says that the checker itself reached a state it should not reach.
-/
import EffectTyping.Term.Printer
import EffectTyping.Unify.Basic

namespace EffectTyping

/-- The rule a term or a pattern breaks. -/
inductive Rejection where
  | unknownVariable (name : String)
  | incompatible (checked declared : Ty)
  /-- Both parts of an application have an effect, and their order is not fixed. -/
  | orderDependentEffects (fnEff argEff : Effect)
  | unsatisfiable (left right : Ty) (source : UnifyError)
  | annotationMismatch (declared solved : Ty)
  | effectTooStrong (effect ceiling : Effect)
  | conditionNotBool (ty : Ty)
  | notAList (ty : Ty)
  | constructorShape (tag : Tag) (ty : Ty)
  | constructorArity (tag : Tag) (expected found : Nat)
  | unknownConstructor (name : String)
  | patternIncompatible (pattern expected : Ty)
  | duplicateBinding (name : String)
  | emptyMatch
  | depthLimitExceeded (limit : Nat)
  deriving DecidableEq, Repr

def Rejection.message : Rejection → String
  | unknownVariable name => "unknown variable `" ++ name ++ "`"
  | incompatible checked declared =>
    "checked type " ++ checked.render ++ " is not compatible with declared type " ++ declared.render
  | orderDependentEffects fnEff argEff =>
    "function (" ++ fnEff.name ++ ") and argument (" ++ argEff.name ++ ") are both effectful"
  | unsatisfiable left right source =>
    "cannot unify " ++ left.render ++ " with " ++ right.render ++ ": " ++ source.message
  | annotationMismatch declared solved =>
    "declared type " ++ declared.render ++ " does not match solved type " ++ solved.render
  | effectTooStrong effect ceiling => "effect " ++ effect.name ++ " exceeds declared effect " ++ ceiling.name
  | conditionNotBool ty => "condition has type " ++ ty.render ++ ", expected bool"
  | notAList ty => "list literal declared with non-list type " ++ ty.render
  | constructorShape tag ty => "constructor " ++ tag.render ++ " cannot build a value of type " ++ ty.render
  | constructorArity tag expected found =>
    "constructor " ++ tag.render ++ " expects " ++ toString expected ++ " arguments, found " ++ toString found
  | unknownConstructor name => "unknown constructor `" ++ name ++ "`"
  | patternIncompatible pattern expected =>
    "pattern of type " ++ pattern.render ++ " cannot match a value of type " ++ expected.render
  | duplicateBinding name => "variable `" ++ name ++ "` is bound more than once in a pattern"
  | emptyMatch => "match has no cases"
  | depthLimitExceeded limit => "nesting exceeds the depth limit of " ++ toString limit

inductive Cause where
  | rejected (reason : Rejection)
  /-- A fault of the checker, never of the term. -/
  | invariant (message : String)
  deriving DecidableEq, Repr

def Cause.message : Cause → String
  | rejected reason => "rejected: " ++ reason.message
  | invariant message => "internal invariant violated: " ++ message

/-- A failed check: what is wrong, and the path to where. -/
structure Failure where
  path : Path
  cause : Cause
  deriving DecidableEq, Repr

namespace Failure

def message (f : Failure) : String := f.cause.message ++ " at " ++ f.path.render

/-- The same failure seen from one step further up. -/
def within (f : Failure) (step : Step) : Failure := { f with path := f.path.within step }

end Failure

/-- The outcome of checking something. -/
abbrev Checked (α : Type) := Except Failure α

namespace Checked

/-- Fails at the place looked at. -/
def reject {α : Type} (reason : Rejection) : Checked α := .error ⟨.root, .rejected reason⟩

/-- Fails at the place looked at if a rule is broken. -/
def ofRule {α : Type} : Except Rejection α → Checked α
  | .ok a => .ok a
  | .error reason => reject reason

/-- A check made one step further down: its failures get that step in front. -/
def within {α : Type} (step : Step) : Checked α → Checked α
  | .ok a => .ok a
  | .error f => .error (f.within step)

end Checked

end EffectTyping
