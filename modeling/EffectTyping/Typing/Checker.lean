/-
A checker that can be used again and again. It keeps its configuration and a counter of 32 bits for the depth of the
node it is at. Every node raises the counter on the way in and lowers it on the way out, whether it is accepted or not;
only a node that is too deep fails before that and leaves the counter raised. The next check starts from zero again.
A counter that would leave its range makes the check have no outcome at all.
-/
import EffectTyping.Typing.Check

namespace EffectTyping

/-- A check that can see and change the counter. There is no outcome if the counter leaves its range; after a failure
the counter is where the failure left it. -/
abbrev Counted (α : Type) := ExceptT Failure (StateT UInt32 Option) α

namespace Counted

variable {α : Type}

/-- A check that does not touch the counter. -/
def ofChecked (x : Checked α) : Counted α := ExceptT.mk (pure x)

/-- A check made one step further down: its failures get that step in front. -/
def within (step : Step) (x : Counted α) : Counted α := ExceptT.mk (Checked.within step <$> x.run)

/-- One level down. The counter is compared with the limit after it has been raised. -/
def enter (config : Config) : Counted Unit := ExceptT.mk fun depth =>
  if depth.toNat + 1 < UInt32.size then
    let outcome : Checked Unit :=
      if (depth + 1).toNat ≤ config.maxDepth then .ok () else Checked.reject (.depthLimitExceeded config.maxDepth)
    some (outcome, depth + 1)
  else none

/-- One level up. A counter that is at zero has no outcome, which is stricter than to leave it there. No check gets to
that point: every way up has a way down before it. -/
def leave : StateT UInt32 Option Unit := fun depth => if depth = 0 then none else some ((), depth - 1)

/-- Checks what is inside a node one level further down, and comes back up whatever the outcome. -/
def node (config : Config) (inner : Counted α) : Counted α := do
  enter config
  ExceptT.mk do
    let outcome ← inner.run
    leave
    return outcome

open Check in
mutual

/-- The type and effect of a term. -/
def term (config : Config) (env : Env) (t : Term) : Counted (Ty × Effect) :=
  node config (match t with
    | .lit l => pure (l.ty, .pure)
    | .var ty name =>
      match env.get? name with
      | none => ofChecked (Checked.reject (.unknownVariable name))
      | some found => do
        ofChecked (expectInstance found ty)
        pure (found, .pure)
    | .list ty elems eff =>
      match ty with
      | .list elemTy => do
        components config env eff .listElem 0 elems (List.replicate elems.length elemTy)
        pure (ty, eff)
      | _ => ofChecked (Checked.reject (.notAList ty))
    | .ctor ty tag args eff => do
      let fields ← ofChecked (Checked.ofRule (constructorFields ty tag args.length))
      components config env eff .ctorArg 0 args fields
      pure (ty, eff)
    | .cases ty scrutinee branches eff =>
      if branches.isEmpty && config.rejectEmptyMatch then ofChecked (Checked.reject .emptyMatch)
      else do
        let value ← within .scrutinee (term config env scrutinee)
        ofChecked (Checked.within .scrutinee (expectWithin value.2 eff))
        cases config env value.1 ty eff 0 branches
        pure (ty, eff)
    | .lambda ty param paramTy body => do
      let result ← within .lambdaBody (term config (env.insert param paramTy) body)
      ofChecked (expectInstance (.arrow paramTy result.2 result.1) ty)
      pure (.arrow paramTy result.2 result.1, .pure)
    | .apply ty fn argTy arg eff => do
      let fnPart ← within .applyFn (term config env fn)
      let argPart ← within .applyArg (term config env arg)
      ofChecked (applyParts fnPart argPart ty argTy eff)
    | .letIn name boundTy bound body ty eff => do
      let boundPart ← within .letBound (term config env bound)
      ofChecked (Checked.within .letBound (expectInstance boundPart.1 boundTy))
      let bodyPart ← within .letBody (term config (env.insert name boundPart.1) body)
      ofChecked (expectInstance bodyPart.1 ty)
      ofChecked (expectWithin (boundPart.2.join bodyPart.2) eff)
      pure (bodyPart.1, eff)
    | .cond ty test thenBranch elseBranch eff => do
      let testPart ← within .condTest (term config env test)
      ofChecked (Checked.within .condTest (expectBool testPart.1))
      ofChecked (Checked.within .condTest (expectWithin testPart.2 eff))
      let thenPart ← within .condThen (term config env thenBranch)
      let elsePart ← within .condElse (term config env elseBranch)
      ofChecked (condParts testPart thenPart elsePart ty eff))
termination_by structural t

/-- Checks the parts of a list or a constructed value, numbered from `i`, against their types. -/
def components (config : Config) (env : Env) (ceiling : Effect) (step : Nat → Step) (i : Nat) (ts : List Term)
    (tys : List Ty) : Counted Unit :=
  match ts, tys with
  | t :: ts, ty :: tys => do
    let part ← within (step i) (term config env t)
    ofChecked (Checked.within (step i) (expectComponent part ty ceiling))
    components config env ceiling step (i + 1) ts tys
  | _, _ => pure ()
termination_by structural ts

/-- Checks the branches of a match on a value of type `valueTy`, numbered from `i`. -/
def cases (config : Config) (env : Env) (valueTy ty : Ty) (ceiling : Effect) (i : Nat)
    (branches : List (Pattern × Term)) : Counted Unit :=
  match branches with
  | [] => pure ()
  | (pattern, body) :: rest => do
    let bindings ← ofChecked (Checked.within (.branchPattern i) (pattern.check valueTy))
    let part ← within (.branchBody i) (term config (env.extend bindings) body)
    ofChecked (Checked.within (.branchBody i) (expectComponent part ty ceiling))
    cases config env valueTy ty ceiling (i + 1) rest
termination_by structural branches

end

end Counted

/-- What it has been told, and the depth of the node it is at. -/
structure Checker where
  config : Config
  depth : UInt32 := 0
  deriving DecidableEq, Repr

namespace Checker

/-- Checks a term, from the root. Whatever an earlier check left in the counter is forgotten. -/
def check (checker : Checker) (env : Env) (t : Term) : Option (Checked (Ty × Effect) × Checker) := do
  let result ← (Counted.term checker.config env t).run.run 0
  return (result.1, { checker with depth := result.2 })

/-- Checks terms one after the other, going on after failures. -/
def checkAll (checker : Checker) : List (Env × Term) → Option (List (Checked (Ty × Effect)) × Checker)
  | [] => some ([], checker)
  | (env, t) :: rest => do
    let first ← checker.check env t
    let others ← first.2.checkAll rest
    return (first.1 :: others.1, others.2)

end Checker

end EffectTyping
