/-
The checker: walks a term in its environment and computes the type and effect of every node, comparing them with
what the node declares. A declared type may be an instance of the computed one; a declared effect is a ceiling.
The first rule that fails, in evaluation order of the parts, is reported with the path to its place.
-/
import EffectTyping.Typing.Pattern

namespace EffectTyping

/-- What the checker can be told. -/
structure Config where
  /-- The number of nodes allowed on a way from the root down. -/
  maxDepth : Nat := 512
  /-- Is a match without cases an error? -/
  rejectEmptyMatch : Bool := true
  deriving DecidableEq, Repr

namespace Check

/-! ## Rules -/

/-- The declared type has to be an instance of the computed one. -/
def expectInstance (checked declared : Ty) : Checked Unit :=
  if checked.generalizes declared then .ok () else Checked.reject (.incompatible checked declared)

/-- An effect may not exceed the declared one. -/
def expectWithin (effect ceiling : Effect) : Checked Unit :=
  if effect ≤ ceiling then .ok () else Checked.reject (.effectTooStrong effect ceiling)

/-- A part of a larger node: its type is given by the node, its effect stays below the effect of the node. -/
def expectComponent (part : Ty × Effect) (ty : Ty) (ceiling : Effect) : Checked Unit := do
  expectInstance part.1 ty
  expectWithin part.2 ceiling

/-- Both parts of an application may not have an effect. -/
def expectOrder (fnEff argEff : Effect) : Checked Unit :=
  if fnEff.isPure || argEff.isPure then .ok () else Checked.reject (.orderDependentEffects fnEff argEff)

def expectBool (ty : Ty) : Checked Unit :=
  if ty = .base .bool then .ok () else Checked.reject (.conditionNotBool ty)

/-- Solves an equation, and makes sure that the solution equates its sides up to latent effects. -/
def solve (left right : Ty) : Checked Subst :=
  match unify left right with
  | .error source => Checked.reject (.unsatisfiable left right source)
  | .ok s =>
    let l := s.apply left
    let r := s.apply right
    if l.eraseEffects = r.eraseEffects then .ok s
    else .error ⟨.root, .invariant ("unifier solution " ++ s.render ++ " does not equate " ++ left.render ++
      " and " ++ right.render ++ " (got " ++ l.render ++ " and " ++ r.render ++ ")")⟩

/-- Whether the effect of the outermost arrow takes part in a comparison. -/
inductive LatentSlot where
  /-- It is left out: the effect of the call bounds it instead. -/
  | exempt
  | compared
  deriving DecidableEq, Repr

/-- Equality of a solved type with a declared one. -/
def agree (slot : LatentSlot) (solved declared : Ty) : Bool :=
  match slot, solved, declared with
  | .exempt, .arrow a _ r, .arrow b _ q => a = b && r = q
  | _, _, _ => solved = declared

/-- The computed type has to become the declared one by instantiating variables of the computed type alone. -/
def matchDeclared (checked declared : Ty) (slot : LatentSlot) : Checked Unit := do
  let s ← solve checked declared
  let solved := s.apply checked
  if agree slot solved declared then .ok () else Checked.reject (.annotationMismatch declared solved)

/-- The effect of calling a function of the given type. A function typed by a mere variable shows none; the
declared effect of the call stands for it. -/
def latentEffect (fnTy : Ty) (declared : Effect) : Effect :=
  match fnTy with
  | .arrow _ e _ => e
  | _ => declared

/-- The type and effect of an application whose parts have been checked. -/
def applyParts (fn arg : Ty × Effect) (ty argTy : Ty) (eff : Effect) : Checked (Ty × Effect) := do
  expectOrder fn.2 arg.2
  Checked.within .applyFn (matchDeclared fn.1 (.arrow argTy eff ty) .exempt)
  Checked.within .applyArg (matchDeclared arg.1 argTy .compared)
  let joined := Effect.joinAll [latentEffect fn.1 eff, fn.2, arg.2]
  expectWithin joined eff
  .ok (ty, joined)

/-- The type and effect of a conditional whose parts have been checked. The branches have to agree, and what
they agree on has to have the declared type as an instance. -/
def condParts (test thenPart elsePart : Ty × Effect) (ty : Ty) (eff : Effect) : Checked (Ty × Effect) := do
  let s ← solve thenPart.1 elsePart.1
  Checked.within .condThen (expectComponent (s.apply thenPart.1, thenPart.2) ty eff)
  Checked.within .condElse (expectComponent (s.apply elsePart.1, elsePart.2) ty eff)
  .ok (ty, Effect.joinAll [test.2, thenPart.2, elsePart.2])

/-! ## Terms -/

mutual

/-- The type and effect of a term. `room` is the number of levels, this one included, that the depth limit
still allows. -/
def term (config : Config) (room : Nat) (env : Env) (t : Term) : Checked (Ty × Effect) :=
  match room with
  | 0 => Checked.reject (.depthLimitExceeded config.maxDepth)
  | room + 1 =>
    match t with
    | .lit l => .ok (l.ty, .pure)
    | .var ty name =>
      match env.get? name with
      | none => Checked.reject (.unknownVariable name)
      | some found => do
        expectInstance found ty
        .ok (found, .pure)
    | .list ty elems eff =>
      match ty with
      | .list elemTy => do
        components config room env eff .listElem 0 elems (List.replicate elems.length elemTy)
        .ok (ty, eff)
      | _ => Checked.reject (.notAList ty)
    | .ctor ty tag args eff => do
      let fields ← Checked.ofRule (constructorFields ty tag args.length)
      components config room env eff .ctorArg 0 args fields
      .ok (ty, eff)
    | .cases ty scrutinee branches eff => do
      if branches.isEmpty && config.rejectEmptyMatch then Checked.reject .emptyMatch
      else
        let value ← Checked.within .scrutinee (term config room env scrutinee)
        Checked.within .scrutinee (expectWithin value.2 eff)
        cases config room env value.1 ty eff 0 branches
        .ok (ty, eff)
    | .lambda ty param paramTy body => do
      let result ← Checked.within .lambdaBody (term config room (env.insert param paramTy) body)
      let fnTy : Ty := .arrow paramTy result.2 result.1
      expectInstance fnTy ty
      .ok (fnTy, .pure)
    | .apply ty fn argTy arg eff => do
      let fnPart ← Checked.within .applyFn (term config room env fn)
      let argPart ← Checked.within .applyArg (term config room env arg)
      applyParts fnPart argPart ty argTy eff
    | .letIn name boundTy bound body ty eff => do
      let boundPart ← Checked.within .letBound (term config room env bound)
      Checked.within .letBound (expectInstance boundPart.1 boundTy)
      let bodyPart ← Checked.within .letBody (term config room (env.insert name boundPart.1) body)
      expectInstance bodyPart.1 ty
      expectWithin (boundPart.2.join bodyPart.2) eff
      .ok (bodyPart.1, eff)
    | .cond ty test thenBranch elseBranch eff => do
      let testPart ← Checked.within .condTest (term config room env test)
      Checked.within .condTest (expectBool testPart.1)
      Checked.within .condTest (expectWithin testPart.2 eff)
      let thenPart ← Checked.within .condThen (term config room env thenBranch)
      let elsePart ← Checked.within .condElse (term config room env elseBranch)
      condParts testPart thenPart elsePart ty eff
termination_by structural t

/-- Checks the parts of a list or a constructed value, numbered from `i`, against their types. -/
def components (config : Config) (room : Nat) (env : Env) (ceiling : Effect) (step : Nat → Step) (i : Nat)
    (ts : List Term) (tys : List Ty) : Checked Unit :=
  match ts, tys with
  | t :: ts, ty :: tys => do
    let part ← Checked.within (step i) (term config room env t)
    Checked.within (step i) (expectComponent part ty ceiling)
    components config room env ceiling step (i + 1) ts tys
  | _, _ => .ok ()
termination_by structural ts

/-- Checks the branches of a match on a value of type `valueTy`, numbered from `i`. -/
def cases (config : Config) (room : Nat) (env : Env) (valueTy ty : Ty) (ceiling : Effect) (i : Nat)
    (branches : List (Pattern × Term)) : Checked Unit :=
  match branches with
  | [] => .ok ()
  | (pattern, body) :: rest => do
    let bindings ← Checked.within (.branchPattern i) (pattern.check valueTy)
    let part ← Checked.within (.branchBody i) (term config room (env.extend bindings) body)
    Checked.within (.branchBody i) (expectComponent part ty ceiling)
    cases config room env valueTy ty ceiling (i + 1) rest
termination_by structural branches

end

end Check

/-- The type and effect of a term in an environment, or the first failure. -/
def Term.check (config : Config) (env : Env) (t : Term) : Checked (Ty × Effect) :=
  Check.term config config.maxDepth env t

end EffectTyping
