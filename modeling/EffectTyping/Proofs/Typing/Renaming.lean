/-
The verdict on a term does not depend on which type variables its annotations and its scope use. For every injective
renaming of variables the check of the renamed term in the renamed scope ends as the check of the term does, with the
types found, or the types in the failure, renamed. Each rule commutes with renaming (`Checked.rename`), and checks made
one after the other do if each of them does; the rest is an induction on the term.
-/
import EffectTyping.Proofs.Typing.Accepted
import EffectTyping.Proofs.Typing.Verdict
import EffectTyping.Proofs.Unify.Renaming
import Mathlib.Logic.Equiv.Basic

namespace EffectTyping

/-! ## Renamed patterns, terms and scopes -/

namespace Pattern

variable (r : TypeVar → TypeVar)

mutual

/-- The pattern with the variables of its declared types renamed. -/
def rename : Pattern → Pattern
  | .var name => .var name
  | .ctor ty tag args => .ctor (ty.rename r) tag (renameAll args)

def renameAll : List Pattern → List Pattern
  | [] => []
  | p :: ps => rename p :: renameAll ps

end

theorem length_renameAll (ps : List Pattern) : (renameAll r ps).length = ps.length := by
  induction ps with
  | nil => rfl
  | cons p ps ih => rw [renameAll, List.length_cons, List.length_cons, ih]

end Pattern

namespace Term

variable (r : TypeVar → TypeVar)

mutual

/-- The term with the variables of all declared types renamed, those of patterns included. -/
def rename : Term → Term
  | .lit l => .lit l
  | .var ty name => .var (ty.rename r) name
  | .list ty elems eff => .list (ty.rename r) (renameAll elems) eff
  | .ctor ty tag args eff => .ctor (ty.rename r) tag (renameAll args) eff
  | .cases ty scrutinee branches eff => .cases (ty.rename r) (rename scrutinee) (renameBranches branches) eff
  | .lambda ty param paramTy body => .lambda (ty.rename r) param (paramTy.rename r) (rename body)
  | .apply ty fn argTy arg eff => .apply (ty.rename r) (rename fn) (argTy.rename r) (rename arg) eff
  | .letIn name boundTy bound body ty eff =>
    .letIn name (boundTy.rename r) (rename bound) (rename body) (ty.rename r) eff
  | .cond ty test thenBranch elseBranch eff =>
    .cond (ty.rename r) (rename test) (rename thenBranch) (rename elseBranch) eff

def renameAll : List Term → List Term
  | [] => []
  | t :: ts => rename t :: renameAll ts

def renameBranches : List (Pattern × Term) → List (Pattern × Term)
  | [] => []
  | (p, body) :: rest => (p.rename r, rename body) :: renameBranches rest

end

theorem length_renameAll (ts : List Term) : (renameAll r ts).length = ts.length := by
  induction ts with
  | nil => rfl
  | cons t ts ih => rw [renameAll, List.length_cons, List.length_cons, ih]

theorem isEmpty_renameBranches (branches : List (Pattern × Term)) :
    (renameBranches r branches).isEmpty = branches.isEmpty := by
  cases branches <;> rfl

end Term

/-- The scope with the variables of its types renamed. -/
def Env.rename (r : TypeVar → TypeVar) (env : Env) : Env := env.mapValues (Ty.rename r)

/-- The reason with the variables of the types in it renamed, and those of the failed equation. -/
def Rejection.rename (r : TypeVar → TypeVar) : Rejection → Rejection
  | .unknownVariable name => .unknownVariable name
  | .incompatible checked declared => .incompatible (checked.rename r) (declared.rename r)
  | .orderDependentEffects fnEff argEff => .orderDependentEffects fnEff argEff
  | .unsatisfiable left right source => .unsatisfiable (left.rename r) (right.rename r) (source.rename r)
  | .annotationMismatch declared solved => .annotationMismatch (declared.rename r) (solved.rename r)
  | .effectTooStrong effect ceiling => .effectTooStrong effect ceiling
  | .conditionNotBool ty => .conditionNotBool (ty.rename r)
  | .notAList ty => .notAList (ty.rename r)
  | .constructorShape tag ty => .constructorShape tag (ty.rename r)
  | .constructorArity tag expected found => .constructorArity tag expected found
  | .unknownConstructor name => .unknownConstructor name
  | .patternIncompatible pattern expected => .patternIncompatible (pattern.rename r) (expected.rename r)
  | .duplicateBinding name => .duplicateBinding name
  | .emptyMatch => .emptyMatch
  | .depthLimitExceeded limit => .depthLimitExceeded limit

/-- The same place, and the reason renamed. -/
def Failure.rename (r : TypeVar → TypeVar) (f : Failure) : Failure where
  path := f.path
  cause := match f.cause with
    | .rejected reason => .rejected (reason.rename r)
    | .invariant message => .invariant message

/-! ## Renamed outcomes -/

namespace Checked

variable {α α' β β' : Type} {r : TypeVar → TypeVar}

/-- The outcome with the types of a failure renamed, and what was found as `g` renames it. -/
def rename (r : TypeVar → TypeVar) (g : α → α') : Checked α → Checked α'
  | .ok a => .ok (g a)
  | .error f => .error (f.rename r)

theorem rename_within {g : α → α'} {x : Checked α} {x' : Checked α'} (step : Step) (hx : x' = rename r g x) :
    within step x' = rename r g (within step x) := by
  subst hx
  cases x <;> rfl

theorem rename_ofRule (g : α → α') (x : Except Rejection α) :
    ofRule ((x.map g).mapError (Rejection.rename r)) = rename r g (ofRule x) := by
  cases x <;> rfl

/-- Checks made one after the other are renamed if each of them is. -/
theorem rename_bind {g : α → α'} {g' : β → β'} {x : Checked α} {x' : Checked α'} {f : α → Checked β}
    {f' : α' → Checked β'} (hx : x' = rename r g x) (hf : ∀ a, f' (g a) = rename r g' (f a)) :
    (x' >>= f') = rename r g' (x >>= f) := by
  subst hx
  cases x with
  | ok a => exact hf a
  | error f => rfl

theorem rename_ite {c c' : Prop} [Decidable c] [Decidable c'] (hc : c' ↔ c) (g : α → α') (a : α)
    (reason : Rejection) :
    (if c' then .ok (g a) else reject (reason.rename r)) = rename r g (if c then .ok a else reject reason) := by
  by_cases h : c
  · rw [if_pos h, if_pos (hc.2 h)]; rfl
  · rw [if_neg h, if_neg (mt hc.1 h)]; rfl

end Checked

open Checked

/-- What was found for a term, renamed. -/
def renameFound (r : TypeVar → TypeVar) (found : Ty × Effect) : Ty × Effect := (found.1.rename r, found.2)

/-! ## Scopes and patterns -/

section Patterns

variable {r : TypeVar → TypeVar}

namespace Env

theorem rename_singleton (name : String) (t : Ty) :
    (.singleton name (t.rename r) : Env) = Env.rename r (.singleton name t) :=
  (OrderedMap.mapValues_singleton _ name t).symm

theorem rename_insert (env : Env) (name : String) (t : Ty) :
    (env.rename r).insert name (t.rename r) = Env.rename r (env.insert name t) :=
  (OrderedMap.mapValues_insert _ env name t).symm

theorem rename_extend (env bindings : Env) :
    (env.rename r).extend (bindings.rename r) = Env.rename r (env.extend bindings) :=
  (OrderedMap.mapValues_union _ bindings env).symm

theorem contains_rename (env : Env) (name : String) : (env.rename r).contains name = env.contains name :=
  OrderedMap.contains_mapValues _ env name

theorem rename_merge (env other : Env) :
    (env.rename r).merge (other.rename r) = ((env.merge other).map (Env.rename r)).mapError (Rejection.rename r) := by
  have hlist : (other.rename r).toList = other.toList.map fun binding => (binding.1, binding.2.rename r) := rfl
  unfold Env.merge
  simp only [hlist, List.find?_map, contains_rename, Function.comp_def]
  cases other.toList.find? fun binding => env.contains binding.1 with
  | none => exact congrArg Except.ok (rename_extend env other)
  | some binding => rfl

end Env

theorem constructorFields_rename (ty : Ty) (tag : Tag) (found : Nat) :
    constructorFields (ty.rename r) tag found =
      ((constructorFields ty tag found).map (Ty.renameAll r)).mapError (Rejection.rename r) := by
  cases tag with
  | tuple arity =>
    cases ty with
    | tuple ts =>
      simp only [Ty.rename, constructorFields, Ty.length_renameAll]
      split
      · split <;> rfl
      · rfl
    | var | base | option | list | arrow => rfl
  | variant name =>
    unfold constructorFields
    cases ty with
    | option t =>
      dsimp only [Ty.rename]
      split
      · split <;> rfl
      · split
        · split <;> rfl
        · rfl
    | var | base | list | tuple | arrow =>
      dsimp only [Ty.rename]
      split
      · rfl
      · split <;> rfl

namespace Pattern

mutual

theorem check_rename (hr : Function.Injective r) : ∀ (p : Pattern) (expected : Ty),
    (p.rename r).check (expected.rename r) = Checked.rename r (Env.rename r) (p.check expected)
  | .var name, expected => congrArg Except.ok (Env.rename_singleton name expected)
  | .ctor ty tag args, expected => by
    rw [rename, check, check, length_renameAll, constructorFields_rename]
    refine rename_bind (rename_ofRule _ _) fun fields => ?_
    rw [Ty.instantiation?_rename hr]
    cases ty.instantiation? expected with
    | none => rfl
    | some witness =>
      have hfields : (witness.rename r).applyAll (Ty.renameAll r fields) = Ty.renameAll r (witness.applyAll fields) := by
        simp only [Subst.applyAll_eq_map, Ty.renameAll_eq_map, List.map_map]
        exact List.map_congr_left fun t _ => Subst.apply_rename hr witness t
      simp only [Option.map_some, hfields]
      exact checkAll_rename hr args 0 .empty (witness.applyAll fields)

theorem checkAll_rename (hr : Function.Injective r) : ∀ (ps : List Pattern) (i : Nat) (env : Env) (ts : List Ty),
    checkAll i (env.rename r) (renameAll r ps) (Ty.renameAll r ts) =
      Checked.rename r (Env.rename r) (checkAll i env ps ts)
  | [], i, env, ts => by
    rw [renameAll, checkAll, checkAll]
    · rfl
    · simp
    · simp
  | p :: ps, i, env, [] => by
    rw [Ty.renameAll, checkAll, checkAll]
    · rfl
    · simp
    · simp
  | p :: ps, i, env, t :: ts => by
    rw [renameAll, Ty.renameAll, checkAll, checkAll]
    refine rename_bind (rename_within _ (check_rename hr p t)) fun bindings => ?_
    rw [Env.rename_merge]
    exact rename_bind (rename_ofRule _ _) fun env' => checkAll_rename hr ps (i + 1) env' ts

end

end Pattern

end Patterns

/-! ## Rules -/

namespace Check

section Rules

variable {r : TypeVar → TypeVar}

theorem expectWithin_rename (effect ceiling : Effect) :
    expectWithin effect ceiling = Checked.rename r id (expectWithin effect ceiling) :=
  rename_ite Iff.rfl id () (.effectTooStrong effect ceiling)

theorem expectOrder_rename (fnEff argEff : Effect) :
    expectOrder fnEff argEff = Checked.rename r id (expectOrder fnEff argEff) :=
  rename_ite Iff.rfl id () (.orderDependentEffects fnEff argEff)

theorem latentEffect_rename (fnTy : Ty) (declared : Effect) :
    latentEffect (fnTy.rename r) declared = latentEffect fnTy declared := by
  cases fnTy <;> rfl

variable (hr : Function.Injective r)
include hr

theorem expectInstance_rename (checked declared : Ty) :
    expectInstance (checked.rename r) (declared.rename r) = Checked.rename r id (expectInstance checked declared) :=
  rename_ite (by rw [Ty.generalizes_rename hr]) id () (.incompatible checked declared)

theorem expectComponent_rename (part : Ty × Effect) (ty : Ty) (ceiling : Effect) :
    expectComponent (renameFound r part) (ty.rename r) ceiling =
      Checked.rename r id (expectComponent part ty ceiling) :=
  rename_bind (expectInstance_rename hr part.1 ty) fun _ => expectWithin_rename part.2 ceiling

theorem expectBool_rename (ty : Ty) : expectBool (ty.rename r) = Checked.rename r id (expectBool ty) :=
  rename_ite ((Ty.rename_injective hr).eq_iff (b := .base .bool)) id () (.conditionNotBool ty)

theorem solve_rename (left right : Ty) :
    solve (left.rename r) (right.rename r) = Checked.rename r (Subst.rename r) (solve left right) := by
  rw [solve_eq_mapError, solve_eq_mapError, unify_rename hr]
  cases unify left right <;> rfl

theorem agree_rename (slot : LatentSlot) (solved declared : Ty) :
    agree slot (solved.rename r) (declared.rename r) = agree slot solved declared := by
  have hsame : ∀ t u : Ty, decide (t.rename r = u.rename r) = decide (t = u) := fun t u =>
    decide_eq_decide.2 (Ty.rename_injective hr).eq_iff
  cases slot with
  | compared => exact hsame solved declared
  | exempt =>
    cases solved with
    | arrow a e q =>
      cases declared with
      | arrow b f p => rw [Ty.rename, Ty.rename, agree, agree, hsame, hsame]
      | var | base | option | list | tuple => rfl
    | var | base | option | list | tuple => exact hsame _ _

theorem matchDeclared_rename (checked declared : Ty) (slot : LatentSlot) :
    matchDeclared (checked.rename r) (declared.rename r) slot =
      Checked.rename r id (matchDeclared checked declared slot) := by
  unfold matchDeclared
  refine rename_bind (solve_rename hr checked declared) fun s => ?_
  dsimp only
  rw [Subst.apply_rename hr, agree_rename hr]
  exact rename_ite Iff.rfl id () (.annotationMismatch declared (s.apply checked))

theorem applyParts_rename (fn arg : Ty × Effect) (ty argTy : Ty) (eff : Effect) :
    applyParts (renameFound r fn) (renameFound r arg) (ty.rename r) (argTy.rename r) eff =
      Checked.rename r (renameFound r) (applyParts fn arg ty argTy eff) := by
  unfold applyParts
  refine rename_bind (expectOrder_rename fn.2 arg.2) fun _ => ?_
  refine rename_bind (rename_within _ (matchDeclared_rename hr fn.1 (.arrow argTy eff ty) .exempt)) fun _ => ?_
  refine rename_bind (rename_within _ (matchDeclared_rename hr arg.1 argTy .compared)) fun _ => ?_
  simp only [renameFound, latentEffect_rename]
  exact rename_bind (expectWithin_rename _ eff) fun _ => rfl

theorem condParts_rename (test thenPart elsePart : Ty × Effect) (ty : Ty) (eff : Effect) :
    condParts (renameFound r test) (renameFound r thenPart) (renameFound r elsePart) (ty.rename r) eff =
      Checked.rename r (renameFound r) (condParts test thenPart elsePart ty eff) := by
  unfold condParts
  refine rename_bind (solve_rename hr thenPart.1 elsePart.1) fun s => ?_
  simp only [renameFound, Subst.apply_rename hr]
  refine rename_bind (rename_within _ (expectComponent_rename hr (s.apply thenPart.1, thenPart.2) ty eff)) fun _ => ?_
  exact rename_bind (rename_within _ (expectComponent_rename hr (s.apply elsePart.1, elsePart.2) ty eff)) fun _ => rfl

end Rules

/-! ## Terms -/

/-- Wherever the term is checked, the check of the renamed term has the renamed outcome. -/
def Renames (r : TypeVar → TypeVar) (config : Config) (t : Term) : Prop := ∀ (room : Nat) (env : Env),
  term config room (env.rename r) (t.rename r) = Checked.rename r (renameFound r) (term config room env t)

section Terms

variable {r : TypeVar → TypeVar} {config : Config}

theorem renames_of_room {t : Term} (h : ∀ room env, term config (room + 1) (env.rename r) (t.rename r) =
    Checked.rename r (renameFound r) (term config (room + 1) env t)) : Renames r config t := by
  intro room env
  cases room with
  | zero => rw [term_zero, term_zero]; rfl
  | succ room => exact h room env

variable (hr : Function.Injective r)
include hr

theorem components_rename {room : Nat} {env : Env} {ceiling : Effect} {step : Nat → Step} {ts : List Term}
    (h : ∀ t ∈ ts, Renames r config t) (i : Nat) (tys : List Ty) :
    components config room (env.rename r) ceiling step i (Term.renameAll r ts) (Ty.renameAll r tys) =
      Checked.rename r id (components config room env ceiling step i ts tys) := by
  induction ts generalizing i tys with
  | nil =>
    rw [Term.renameAll, components, components]
    · rfl
    · simp
    · simp
  | cons t ts ih =>
    obtain ⟨ht, hts⟩ := List.forall_mem_cons.1 h
    cases tys with
    | nil =>
      rw [Ty.renameAll, components, components]
      · rfl
      · simp
      · simp
    | cons ty tys =>
      rw [Term.renameAll, Ty.renameAll, components, components]
      refine rename_bind (rename_within _ (ht room env)) fun part => ?_
      refine rename_bind (rename_within _ (expectComponent_rename hr part ty ceiling)) fun _ => ?_
      exact ih hts (i + 1) tys

theorem cases_rename {room : Nat} {env : Env} {valueTy ty : Ty} {ceiling : Effect}
    {branches : List (Pattern × Term)} (h : ∀ b ∈ branches, Renames r config b.2) (i : Nat) :
    cases config room (env.rename r) (valueTy.rename r) (ty.rename r) ceiling i (Term.renameBranches r branches) =
      Checked.rename r id (cases config room env valueTy ty ceiling i branches) := by
  induction branches generalizing i with
  | nil => rw [Term.renameBranches, cases, cases]; rfl
  | cons branch rest ih =>
    obtain ⟨pattern, body⟩ := branch
    obtain ⟨hbody, hrest⟩ := List.forall_mem_cons.1 h
    rw [Term.renameBranches, cases, cases]
    refine rename_bind (rename_within _ (pattern.check_rename hr valueTy)) fun bindings => ?_
    rw [Env.rename_extend]
    refine rename_bind (rename_within _ (hbody room _)) fun part => ?_
    refine rename_bind (rename_within _ (expectComponent_rename hr part ty ceiling)) fun _ => ?_
    exact ih hrest (i + 1)

theorem renames_var (ty : Ty) (name : String) : Renames r config (.var ty name) := by
  refine renames_of_room fun room env => ?_
  have hget : (env.rename r).get? name = (env.get? name).map (Ty.rename r) := OrderedMap.get?_mapValues _ _ _
  rw [Term.rename]
  cases hfound : env.get? name with
  | none =>
    rw [hfound] at hget
    rw [term_var_unknown _ _ _ hfound, term_var_unknown _ _ _ hget]; rfl
  | some found =>
    rw [hfound] at hget
    rw [term_var_found _ _ _ hfound, term_var_found _ _ _ hget]
    exact rename_bind (expectInstance_rename hr found ty) fun _ => rfl

theorem renames_list {ty : Ty} {elems : List Term} {eff : Effect} (h : ∀ t ∈ elems, Renames r config t) :
    Renames r config (.list ty elems eff) := by
  refine renames_of_room fun room env => ?_
  rw [Term.rename]
  cases ty with
  | list elem =>
    have htys : List.replicate (Term.renameAll r elems).length (elem.rename r) =
        Ty.renameAll r (List.replicate elems.length elem) := by
      rw [Term.length_renameAll, Ty.renameAll_eq_map, List.map_replicate]
    rw [Ty.rename, term_list, term_list, htys]
    exact rename_bind (components_rename hr h 0 _) fun _ => rfl
  | var | base | option | tuple | arrow => rfl

theorem renames (t : Term) : Renames r config t := by
  induction t using Term.induct
  case lit l =>
    refine renames_of_room fun room env => ?_
    rw [Term.rename, term_lit, term_lit]
    -- the type of a literal has no variables
    cases l <;> rfl
  case var ty name => exact renames_var hr ty name
  case list ty elems eff ih => exact renames_list hr ih
  case ctor ty tag args eff ih =>
    refine renames_of_room fun room env => ?_
    rw [Term.rename, term_ctor, term_ctor, Term.length_renameAll, constructorFields_rename]
    refine rename_bind (rename_ofRule _ _) fun fields => ?_
    exact rename_bind (components_rename hr ih 0 fields) fun _ => rfl
  case cases ty scrutinee branches eff ih ihs =>
    refine renames_of_room fun room env => ?_
    rw [Term.rename, term_cases, term_cases, Term.isEmpty_renameBranches]
    split
    · rfl
    · refine rename_bind (rename_within _ (ih room env)) fun value => ?_
      refine rename_bind (rename_within _ (expectWithin_rename value.2 eff)) fun _ => ?_
      exact rename_bind (cases_rename hr ihs 0) fun _ => rfl
  case lambda ty param paramTy body ih =>
    refine renames_of_room fun room env => ?_
    rw [Term.rename, term_lambda, term_lambda, Env.rename_insert]
    refine rename_bind (rename_within _ (ih room _)) fun result => ?_
    exact rename_bind (expectInstance_rename hr (.arrow paramTy result.2 result.1) ty) fun _ => rfl
  case apply ty fn argTy arg eff ihfn iharg =>
    refine renames_of_room fun room env => ?_
    rw [Term.rename, term_apply, term_apply]
    refine rename_bind (rename_within _ (ihfn room env)) fun fnPart => ?_
    refine rename_bind (rename_within _ (iharg room env)) fun argPart => ?_
    exact applyParts_rename hr fnPart argPart ty argTy eff
  case letIn name boundTy bound body ty eff ihbound ihbody =>
    refine renames_of_room fun room env => ?_
    rw [Term.rename, term_letIn, term_letIn]
    refine rename_bind (rename_within _ (ihbound room env)) fun boundPart => ?_
    refine rename_bind (rename_within _ (expectInstance_rename hr boundPart.1 boundTy)) fun _ => ?_
    simp only [renameFound, Env.rename_insert]
    refine rename_bind (rename_within _ (ihbody room _)) fun bodyPart => ?_
    refine rename_bind (expectInstance_rename hr bodyPart.1 ty) fun _ => ?_
    exact rename_bind (expectWithin_rename _ eff) fun _ => rfl
  case cond ty test thenBranch elseBranch eff ih ihthen ihelse =>
    refine renames_of_room fun room env => ?_
    rw [Term.rename, term_cond, term_cond]
    refine rename_bind (rename_within _ (ih room env)) fun testPart => ?_
    refine rename_bind (rename_within _ (expectBool_rename hr testPart.1)) fun _ => ?_
    refine rename_bind (rename_within _ (expectWithin_rename testPart.2 eff)) fun _ => ?_
    refine rename_bind (rename_within _ (ihthen room env)) fun thenPart => ?_
    refine rename_bind (rename_within _ (ihelse room env)) fun elsePart => ?_
    exact condParts_rename hr testPart thenPart elsePart ty eff

end Terms

end Check

/-- Injectively renamed, a term is accepted in the renamed scope with the renamed type and the same effect, or rejected
in the same place for the same reason with the types in it renamed. The solution or the failure of a renamed equation is
the renamed one, and so are the bindings that make a type an instance of another. -/
theorem Term.check_renamed (r : TypeVar → TypeVar) (hr : Function.Injective r) :
    (∀ (config : Config) (env : Env) (t : Term),
      (∀ ty eff, t.check config env = .ok (ty, eff) →
        (t.rename r).check config (env.rename r) = .ok (ty.rename r, eff)) ∧
      ∀ f, t.check config env = .error f → ∃ reason, f.cause = .rejected reason ∧
        (t.rename r).check config (env.rename r) = .error ⟨f.path, .rejected (reason.rename r)⟩) ∧
    (∀ a b : Ty,
      (∀ s, unify a b = .ok s → unify (a.rename r) (b.rename r) = .ok (s.rename r)) ∧
      ∀ e, unify a b = .error e → unify (a.rename r) (b.rename r) = .error (e.rename r)) ∧
    ∀ a b : Ty, (a.rename r).instantiation? (b.rename r) = (a.instantiation? b).map (Subst.rename r) := by
  refine ⟨fun config env t => ?_, fun a b => ?_, Ty.instantiation?_rename hr⟩
  · have hcheck : (t.rename r).check config (env.rename r) = Checked.rename r (renameFound r) (t.check config env) :=
      Check.renames hr t config.maxDepth env
    refine ⟨fun ty eff h => ?_, fun f h => ?_⟩
    · rw [hcheck, h]; rfl
    · obtain ⟨reason, hf⟩ := rejected_of_check_error h
      refine ⟨reason, by rw [hf], ?_⟩
      rw [hcheck, h, hf]; rfl
  · have hunify := unify_rename hr a b
    refine ⟨fun s h => ?_, fun e h => ?_⟩
    · rw [hunify, h]; rfl
    · rw [hunify, h]; rfl

/-- With two variables exchanged, `putOff` is accepted as before, the type that the scope gives to `keep` changes its
variable in a failure, and so do an equation without solution and the bindings of an instance. -/
theorem swapped_renamed :
    let r : TypeVar → TypeVar := Equiv.swap ⟨0⟩ ⟨1⟩
    let misused : Term := .var (.pureArrow (.base .bool) (.var ⟨1⟩)) "keep"
    Function.Injective r ∧
    (putOff.rename r).check {} (sampleScope.rename r) = .ok (.base .int, .pure) ∧
    (misused.rename r).check {} (sampleScope.rename r) = .error ⟨.root, .rejected
      (.incompatible (.pureArrow (.var ⟨1⟩) (.var ⟨1⟩)) (.pureArrow (.base .bool) (.var ⟨0⟩)))⟩ ∧
    unify (.var ⟨1⟩) (.list (.var ⟨1⟩)) = .error (.occurs ⟨1⟩ (.list (.var ⟨1⟩))) ∧
    (Ty.pureArrow (.var ⟨1⟩) (.base .int)).instantiation? (.pureArrow (.var ⟨0⟩) (.base .int)) =
      some (.singleton ⟨1⟩ (.var ⟨0⟩)) := by
  intro r misused
  have hr : Function.Injective r := (Equiv.swap _ _).injective
  obtain ⟨hcheck, hunify, hinstance⟩ := Term.check_renamed r hr
  have hmisused : misused.check {} sampleScope = .error ⟨.root, .rejected
      (.incompatible (.pureArrow (.var ⟨0⟩) (.var ⟨0⟩)) (.pureArrow (.base .bool) (.var ⟨1⟩)))⟩ := by rfl
  have hoccurs : unify (.var ⟨0⟩) (.list (.var ⟨0⟩)) = .error (.occurs ⟨0⟩ (.list (.var ⟨0⟩))) := by
    have hstep : Unify.step .empty (.var ⟨0⟩) (.list (.var ⟨0⟩)) = (.error (.occurs ⟨0⟩ (.list (.var ⟨0⟩))), .empty) :=
      Unify.solve_of_impossible rfl
    rw [unify, hstep]
  refine ⟨hr, (hcheck {} sampleScope putOff).1 _ _ putOff_accepted, ?_, (hunify _ _).2 _ hoccurs,
    hinstance (.pureArrow (.var ⟨0⟩) (.base .int)) (.pureArrow (.var ⟨1⟩) (.base .int))⟩
  obtain ⟨reason, hreason, hrenamed⟩ := (hcheck {} sampleScope misused).2 _ hmisused
  cases hreason
  exact hrenamed

end EffectTyping
