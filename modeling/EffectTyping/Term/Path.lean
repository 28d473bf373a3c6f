/-
Places in a term: a path is the list of steps from the root of a term to a subterm, or, after a step into the
pattern of a branch, on to a part of that pattern.
-/
import EffectTyping.Term.Basic

namespace EffectTyping

/-- One step down; a number counts from 0. -/
inductive Step where
  | listElem (i : Nat)
  | ctorArg (i : Nat)
  | scrutinee
  | branchBody (i : Nat)
  | branchPattern (i : Nat)
  | subpattern (i : Nat)
  | lambdaBody
  | applyFn
  | applyArg
  | letBound
  | letBody
  | condTest
  | condThen
  | condElse
  deriving DecidableEq, Repr

namespace Step

/-- Does the step lead into a pattern, or from a pattern to a part of it? -/
def isPattern : Step → Bool
  | branchPattern _ | subpattern _ => true
  | _ => false

def render : Step → String
  | listElem i => "list[" ++ toString i ++ "]"
  | ctorArg i => "ctor[" ++ toString i ++ "]"
  | scrutinee => "match.scrutinee"
  | branchBody i => "case[" ++ toString i ++ "]"
  | branchPattern i => "case[" ++ toString i ++ "].pattern"
  | subpattern i => "pattern[" ++ toString i ++ "]"
  | lambdaBody => "fun.body"
  | applyFn => "app.fun"
  | applyArg => "app.arg"
  | letBound => "let.bound"
  | letBody => "let.body"
  | condTest => "if.cond"
  | condThen => "if.then"
  | condElse => "if.else"

end Step

/-- The steps from the root to a place. -/
structure Path where
  steps : List Step
  deriving DecidableEq, Repr

namespace Path

def root : Path := ⟨[]⟩

/-- One step further down. -/
def push (p : Path) (step : Step) : Path := ⟨p.steps ++ [step]⟩

/-- The same place seen from one step further up. -/
def within (p : Path) (step : Step) : Path := ⟨step :: p.steps⟩

/-- The steps before the first one that leads into a pattern. -/
def termSteps (p : Path) : List Step := p.steps.takeWhile (!·.isPattern)

def render (p : Path) : String :=
  match p.steps with
  | [] => "root"
  | steps => "/".intercalate (steps.map Step.render)

end Path

namespace Term

/-- The immediate subterm a step leads to, if the step fits the node. -/
def child? : Term → Step → Option Term
  | .list _ elems _, .listElem i => elems[i]?
  | .ctor _ _ args _, .ctorArg i => args[i]?
  | .cases _ scrutinee _ _, .scrutinee => some scrutinee
  | .cases _ _ branches _, .branchBody i => branches[i]?.map (·.2)
  | .lambda _ _ _ body, .lambdaBody => some body
  | .apply _ fn _ _ _, .applyFn => some fn
  | .apply _ _ _ arg _, .applyArg => some arg
  | .letIn _ _ bound _ _ _, .letBound => some bound
  | .letIn _ _ _ body _ _, .letBody => some body
  | .cond _ test _ _ _, .condTest => some test
  | .cond _ _ thenBranch _ _, .condThen => some thenBranch
  | .cond _ _ _ elseBranch _, .condElse => some elseBranch
  | _, _ => none

/-- The subterm the steps lead to, if every step fits the node it meets. -/
def at? (t : Term) (steps : List Step) : Option Term := steps.foldlM child? t

end Term

namespace Pattern

/-- The immediate part of a pattern a step leads to. -/
def child? : Pattern → Step → Option Pattern
  | .ctor _ _ args, .subpattern i => args[i]?
  | _, _ => none

/-- The part of a pattern the steps lead to. -/
def at? (p : Pattern) (steps : List Step) : Option Pattern := steps.foldlM child? p

end Pattern

end EffectTyping
