/-
Terms without type variables. Where all types of the scope and all annotations are ground, an instance of a type is the
type itself, and the checker is the plain simply-typed system with effects: the one that compares types by equality,
knows no substitution, and finds for a term exactly the type it declares.
-/
import EffectTyping.Proofs.Term
import EffectTyping.Proofs.Typing.Accepted
import EffectTyping.Proofs.Typing.Ground

namespace EffectTyping

open Checked

/-! ## The plain system -/

namespace Plain

def require (p : Prop) [Decidable p] : Option Unit := if p then some () else none

mutual

/-- The bindings of a pattern that declares exactly the type of the value it takes apart. -/
def pattern : Pattern → (expected : Ty) → Option Env
  | .var name, expected => some (.singleton name expected)
  | .ctor ty tag args, expected => do
    let fields ← (constructorFields ty tag args.length).toOption
    require (ty = expected)
    patterns .empty args fields

def patterns (env : Env) : List Pattern → (expected : List Ty) → Option Env
  | p :: ps, t :: ts => do
    let bindings ← pattern p t
    let env ← (env.merge bindings).toOption
    patterns env ps ts
  | _, _ => some env

end

def component (part : Ty × Effect) (ty : Ty) (ceiling : Effect) : Option Unit := do
  require (part.1 = ty)
  require (part.2 ≤ ceiling)

/-- The function is one from the declared argument type to the declared type, and the argument is of the declared
argument type. -/
def applyParts (fn arg : Ty × Effect) (ty argTy : Ty) (eff : Effect) : Option (Ty × Effect) := do
  require (fn.2 = .pure ∨ arg.2 = .pure)
  match fn.1 with
  | .arrow a latent r =>
    require (a = argTy ∧ r = ty)
    require (arg.1 = argTy)
    let joined := Effect.joinAll [latent, fn.2, arg.2]
    require (joined ≤ eff)
    some (ty, joined)
  | _ => none

/-- The branches and the declared type are one. -/
def condParts (test thenPart elsePart : Ty × Effect) (ty : Ty) (eff : Effect) : Option (Ty × Effect) := do
  require (thenPart.1 = elsePart.1 ∧ elsePart.1 = ty)
  require (thenPart.2 ≤ eff)
  require (elsePart.2 ≤ eff)
  some (ty, Effect.joinAll [test.2, thenPart.2, elsePart.2])

mutual

/-- The type and effect of a term in the plain system, which has the limits of the configuration too. -/
def term (config : Config) (room : Nat) (env : Env) (t : Term) : Option (Ty × Effect) :=
  match room with
  | 0 => none
  | room + 1 =>
    match t with
    | .lit l => some (l.ty, .pure)
    | .var ty name => do
      let found ← env.get? name
      require (found = ty)
      some (found, .pure)
    | .list ty elems eff =>
      match ty with
      | .list elemTy => do
        components config room env eff elems (List.replicate elems.length elemTy)
        some (ty, eff)
      | _ => none
    | .ctor ty tag args eff => do
      let fields ← (constructorFields ty tag args.length).toOption
      components config room env eff args fields
      some (ty, eff)
    | .cases ty scrutinee branches eff =>
      if branches.isEmpty && config.rejectEmptyMatch then none
      else do
        let value ← term config room env scrutinee
        require (value.2 ≤ eff)
        cases config room env value.1 ty eff branches
        some (ty, eff)
    | .lambda ty param paramTy body => do
      let result ← term config room (env.insert param paramTy) body
      require (.arrow paramTy result.2 result.1 = ty)
      some (.arrow paramTy result.2 result.1, .pure)
    | .apply ty fn argTy arg eff => do
      let fnPart ← term config room env fn
      let argPart ← term config room env arg
      applyParts fnPart argPart ty argTy eff
    | .letIn name boundTy bound body ty eff => do
      let boundPart ← term config room env bound
      require (boundPart.1 = boundTy)
      let bodyPart ← term config room (env.insert name boundPart.1) body
      require (bodyPart.1 = ty)
      require (boundPart.2.join bodyPart.2 ≤ eff)
      some (bodyPart.1, eff)
    | .cond ty test thenBranch elseBranch eff => do
      let testPart ← term config room env test
      require (testPart.1 = .base .bool)
      require (testPart.2 ≤ eff)
      let thenPart ← term config room env thenBranch
      let elsePart ← term config room env elseBranch
      condParts testPart thenPart elsePart ty eff
termination_by structural t

def components (config : Config) (room : Nat) (env : Env) (ceiling : Effect) (ts : List Term) (tys : List Ty) :
    Option Unit :=
  match ts, tys with
  | t :: ts, ty :: tys => do
    let part ← term config room env t
    component part ty ceiling
    components config room env ceiling ts tys
  | _, _ => some ()
termination_by structural ts

def cases (config : Config) (room : Nat) (env : Env) (valueTy ty : Ty) (ceiling : Effect)
    (branches : List (Pattern × Term)) : Option Unit :=
  match branches with
  | [] => some ()
  | (p, body) :: rest => do
    let bindings ← pattern p valueTy
    let part ← term config room (env.extend bindings) body
    component part ty ceiling
    cases config room env valueTy ty ceiling rest
termination_by structural branches

end

end Plain

/-- The type and effect of a term in the plain system, if it has any. -/
def Term.checkPlain (config : Config) (env : Env) (t : Term) : Option (Ty × Effect) :=
  Plain.term config config.maxDepth env t

/-! ## Outcomes without their failures -/

namespace Checked

variable {α β : Type}

theorem toOption_bind (x : Checked α) (f : α → Checked β) :
    (x >>= f).toOption = x.toOption.bind fun a => (f a).toOption := by
  cases x <;> rfl

theorem toOption_within (step : Step) (x : Checked α) : (within step x).toOption = x.toOption := by
  cases x <;> rfl

theorem toOption_ofRule (x : Except Rejection α) : (ofRule x).toOption = x.toOption := by
  cases x <;> rfl

/-- A check that has nothing to return. -/
theorem toOption_eq_require {x : Checked Unit} {p : Prop} [Decidable p] (h : x = .ok () ↔ p) :
    x.toOption = Plain.require p := by
  unfold Plain.require
  split
  · rename_i hp
    rw [h.2 hp]
    rfl
  · rename_i hp
    cases x with
    | ok u => exact absurd (h.1 rfl) hp
    | error f => rfl

end Checked

namespace Plain

theorem require_eq_some_iff {p : Prop} [Decidable p] {u : Unit} : require p = some u ↔ p := by
  unfold require
  split <;> simp_all

/-! ## Patterns -/

mutual

/-- On ground types a pattern is checked as in the plain system. -/
theorem pattern_eq : ∀ (p : Pattern) (expected : Ty), p.isGround = true →
    (p.check expected).toOption = pattern p expected
  | .var name, expected, _ => by
    rw [Pattern.check, pattern]
    rfl
  | .ctor ty tag args, expected, hp => by
    rw [Pattern.isGround, Bool.and_eq_true] at hp
    obtain ⟨hty, hargs⟩ := hp
    rw [Pattern.check, pattern, toOption_bind, toOption_ofRule]
    refine Option.bind_congr fun fields hfields => ?_
    rw [← toOption_ofRule, toOption_eq_some_iff, ofRule_eq_ok_iff] at hfields
    have hground := (constructorFields_ok_iff.1 hfields).1.isGround hty
    by_cases heq : ty = expected
    · obtain ⟨w, hw⟩ := (Ty.instantiation?_of_isGround hty).2 heq
      have hparts : w.applyAll fields = fields := by
        rw [Subst.applyAll_eq_map]
        exact (List.map_congr_left fun t ht => Ty.apply_of_isGround (hground t ht) w).trans (List.map_id fields)
      simp only [hw, hparts, require, if_pos heq]
      exact patterns_eq args fields 0 .empty hargs
    · have hnone : ty.instantiation? expected = none := by
        rw [← Option.not_isSome_iff_eq_none, Option.isSome_iff_exists, Ty.instantiation?_of_isGround hty]
        exact heq
      simp only [hnone, require, if_neg heq]
      rfl

theorem patterns_eq : ∀ (ps : List Pattern) (ts : List Ty) (i : Nat) (env : Env), Pattern.isGroundAll ps = true →
    (Pattern.checkAll i env ps ts).toOption = patterns env ps ts
  | [], ts, i, env, _ => by
    simp [Pattern.checkAll, patterns, Except.toOption]
  | p :: ps, [], i, env, _ => by
    simp [Pattern.checkAll, patterns, Except.toOption]
  | p :: ps, t :: ts, i, env, hps => by
    rw [Pattern.isGroundAll, Bool.and_eq_true] at hps
    obtain ⟨hp, hps⟩ := hps
    rw [Pattern.checkAll, patterns, toOption_bind, toOption_within, pattern_eq p t hp]
    refine Option.bind_congr fun bindings _ => ?_
    rw [toOption_bind, toOption_ofRule]
    exact Option.bind_congr fun env' _ => patterns_eq ps ts (i + 1) env' hps

end

/-! ## Rules -/

theorem expectInstance_eq {checked declared : Ty} (h : checked.isGround = true) :
    (Check.expectInstance checked declared).toOption = require (checked = declared) :=
  toOption_eq_require (Check.expectInstance_ok_iff.trans (Ty.hasInstance_iff_eq h))

theorem expectWithin_eq (effect ceiling : Effect) :
    (Check.expectWithin effect ceiling).toOption = require (effect ≤ ceiling) :=
  toOption_eq_require Check.expectWithin_ok_iff

theorem expectComponent_eq {part : Ty × Effect} (h : part.1.isGround = true) (ty : Ty) (ceiling : Effect) :
    (Check.expectComponent part ty ceiling).toOption = component part ty ceiling := by
  unfold Check.expectComponent component
  rw [toOption_bind, expectInstance_eq h]
  exact Option.bind_congr fun _ _ => expectWithin_eq part.2 ceiling

theorem applyParts_eq_some_iff {fn arg out : Ty × Effect} {ty argTy : Ty} {eff : Effect} :
    applyParts fn arg ty argTy eff = some out ↔
      (fn.2 = .pure ∨ arg.2 = .pure) ∧ ∃ latent, fn.1 = .arrow argTy latent ty ∧ arg.1 = argTy ∧
        (latent.join fn.2).join arg.2 ≤ eff ∧ out = (ty, (latent.join fn.2).join arg.2) := by
  obtain ⟨fnTy, fnEff⟩ := fn
  unfold applyParts
  have hjoin (latent : Effect) : Effect.joinAll [latent, fnEff, arg.2] = (latent.join fnEff).join arg.2 := rfl
  simp only [Option.bind_eq_bind, Option.bind_eq_some_iff, require_eq_some_iff, exists_const]
  refine and_congr_right fun _ => ?_
  cases fnTy with
  | arrow a latent r =>
    simp only [hjoin, Option.bind_eq_some_iff, require_eq_some_iff, exists_const, Option.some.injEq, Ty.arrow.injEq]
    constructor
    · rintro ⟨⟨rfl, rfl⟩, harg, hle, rfl⟩
      exact ⟨latent, ⟨rfl, rfl, rfl⟩, harg, hle, rfl⟩
    · rintro ⟨_, ⟨rfl, rfl, rfl⟩, harg, hle, rfl⟩
      exact ⟨⟨rfl, rfl⟩, harg, hle, rfl⟩
  | var | base | option | list | tuple => simp

theorem condParts_eq_some_iff {test thenPart elsePart out : Ty × Effect} {ty : Ty} {eff : Effect} :
    condParts test thenPart elsePart ty eff = some out ↔
      (thenPart.1 = ty ∧ elsePart.1 = ty) ∧ thenPart.2 ≤ eff ∧ elsePart.2 ≤ eff ∧
        out = (ty, (test.2.join thenPart.2).join elsePart.2) := by
  unfold condParts
  have hjoin : Effect.joinAll [test.2, thenPart.2, elsePart.2] = (test.2.join thenPart.2).join elsePart.2 := rfl
  simp only [hjoin, Option.bind_eq_bind, Option.bind_eq_some_iff, require_eq_some_iff, exists_const, Option.some.injEq]
  rw [eq_comm (a := out)]
  refine and_congr_left fun _ => ?_
  constructor
  · rintro ⟨h, rfl⟩; exact ⟨h, rfl⟩
  · rintro ⟨h, rfl⟩; exact ⟨h, rfl⟩

/-- Between ground types the only solution is equality, but for the effect of the outermost arrow. -/
theorem applyParts_eq {fn arg : Ty × Effect} (hfn : fn.1.isGround = true) (harg : arg.1.isGround = true) (ty argTy : Ty)
    (eff : Effect) : (Check.applyParts fn arg ty argTy eff).toOption = applyParts fn arg ty argTy eff := by
  refine Option.ext fun out => ?_
  rw [toOption_eq_some_iff, Check.applyParts_ok_iff, applyParts_eq_some_iff]
  simp only [Ty.apply_of_isGround hfn, Ty.apply_of_isGround harg]
  refine and_congr_right fun _ => ?_
  constructor
  · rintro ⟨⟨s, latent, -, -, hty⟩, ⟨s', -, hargTy⟩, hle, hout⟩
    rw [hty] at hle hout
    exact ⟨latent, hty, hargTy, hle, hout⟩
  · rintro ⟨latent, hty, hargTy, hle, hout⟩
    have hlatent : Check.latentEffect fn.1 eff = latent := by rw [hty]; rfl
    rw [hlatent]
    exact ⟨⟨.empty, latent, Subst.apply_empty _, Subst.apply_empty _, hty⟩, ⟨.empty, Subst.apply_empty _, hargTy⟩, hle,
      hout⟩

theorem condParts_eq (test : Ty × Effect) {thenPart elsePart : Ty × Effect} (hthen : thenPart.1.isGround = true)
    (helse : elsePart.1.isGround = true) (ty : Ty) (eff : Effect) :
    (Check.condParts test thenPart elsePart ty eff).toOption = condParts test thenPart elsePart ty eff := by
  refine Option.ext fun out => ?_
  rw [toOption_eq_some_iff, Check.condParts_ok_iff, condParts_eq_some_iff]
  simp only [Ty.apply_of_isGround hthen, Ty.apply_of_isGround helse, exists_const]

/-! ## The plain system, form by form -/

section Equations

variable (config : Config) (room : Nat) (env : Env)

theorem term_zero (t : Term) : term config 0 env t = none := by
  cases t <;> rfl

theorem term_var (ty : Ty) (name : String) :
    term config (room + 1) env (.var ty name) = (env.get? name).bind fun found =>
      (require (found = ty)).bind fun _ => some (found, .pure) := rfl

theorem term_list (elem : Ty) (elems : List Term) (eff : Effect) :
    term config (room + 1) env (.list (.list elem) elems eff) =
      (components config room env eff elems (List.replicate elems.length elem)).bind fun _ =>
        some (.list elem, eff) := rfl

theorem term_not_list {ty : Ty} (elems : List Term) (eff : Effect) (h : ∀ elem, ty ≠ .list elem) :
    term config (room + 1) env (.list ty elems eff) = none := by
  cases ty with
  | list elem => exact absurd rfl (h elem)
  | var | base | option | tuple | arrow => rfl

theorem term_ctor (ty : Ty) (tag : Tag) (args : List Term) (eff : Effect) :
    term config (room + 1) env (.ctor ty tag args eff) =
      (constructorFields ty tag args.length).toOption.bind fun fields =>
        (components config room env eff args fields).bind fun _ => some (ty, eff) := rfl

theorem term_cases (ty : Ty) (scrutinee : Term) (branches : List (Pattern × Term)) (eff : Effect) :
    term config (room + 1) env (.cases ty scrutinee branches eff) =
      if branches.isEmpty && config.rejectEmptyMatch then none
      else (term config room env scrutinee).bind fun value => (require (value.2 ≤ eff)).bind fun _ =>
        (cases config room env value.1 ty eff branches).bind fun _ => some (ty, eff) := rfl

theorem term_lambda (ty paramTy : Ty) (param : String) (body : Term) :
    term config (room + 1) env (.lambda ty param paramTy body) =
      (term config room (env.insert param paramTy) body).bind fun result =>
        (require (.arrow paramTy result.2 result.1 = ty)).bind fun _ =>
          some (.arrow paramTy result.2 result.1, .pure) := rfl

theorem term_apply (ty argTy : Ty) (fn arg : Term) (eff : Effect) :
    term config (room + 1) env (.apply ty fn argTy arg eff) =
      (term config room env fn).bind fun fnPart => (term config room env arg).bind fun argPart =>
        applyParts fnPart argPart ty argTy eff := rfl

theorem term_letIn (name : String) (boundTy ty : Ty) (bound body : Term) (eff : Effect) :
    term config (room + 1) env (.letIn name boundTy bound body ty eff) =
      (term config room env bound).bind fun boundPart => (require (boundPart.1 = boundTy)).bind fun _ =>
        (term config room (env.insert name boundPart.1) body).bind fun bodyPart =>
          (require (bodyPart.1 = ty)).bind fun _ => (require (boundPart.2.join bodyPart.2 ≤ eff)).bind fun _ =>
            some (bodyPart.1, eff) := rfl

theorem term_cond (ty : Ty) (test thenBranch elseBranch : Term) (eff : Effect) :
    term config (room + 1) env (.cond ty test thenBranch elseBranch eff) =
      (term config room env test).bind fun testPart => (require (testPart.1 = .base .bool)).bind fun _ =>
        (require (testPart.2 ≤ eff)).bind fun _ => (term config room env thenBranch).bind fun thenPart =>
          (term config room env elseBranch).bind fun elsePart => condParts testPart thenPart elsePart ty eff := rfl

end Equations

/-- The plain system finds for a term the type it declares. -/
theorem ty_of_term {config : Config} {room : Nat} {env : Env} {t : Term} {out : Ty × Effect}
    (h : term config room env t = some out) : out.1 = t.ty := by
  cases room with
  | zero => rw [term_zero] at h; cases h
  | succ room =>
    cases t with
    | lit l => cases h; rfl
    | var ty name =>
      rw [term_var] at h
      simp only [Option.bind_eq_some_iff, require_eq_some_iff, exists_const] at h
      obtain ⟨found, -, rfl, hout⟩ := h
      cases hout; rfl
    | list ty elems eff =>
      by_cases hty : ∃ elem, ty = .list elem
      · obtain ⟨elem, rfl⟩ := hty
        rw [term_list] at h
        obtain ⟨_, -, hout⟩ := Option.bind_eq_some_iff.1 h
        cases hout; rfl
      · rw [term_not_list _ _ _ _ _ (not_exists.1 hty)] at h; cases h
    | ctor ty tag args eff =>
      rw [term_ctor] at h
      simp only [Option.bind_eq_some_iff] at h
      obtain ⟨fields, -, _, -, hout⟩ := h
      cases hout; rfl
    | cases ty scrutinee branches eff =>
      rw [term_cases] at h
      split at h
      · cases h
      · simp only [Option.bind_eq_some_iff] at h
        obtain ⟨value, -, _, -, _, -, hout⟩ := h
        cases hout; rfl
    | lambda ty param paramTy body =>
      rw [term_lambda] at h
      simp only [Option.bind_eq_some_iff, require_eq_some_iff, exists_const] at h
      obtain ⟨result, -, rfl, hout⟩ := h
      cases hout; rfl
    | apply ty fn argTy arg eff =>
      rw [term_apply] at h
      simp only [Option.bind_eq_some_iff, applyParts_eq_some_iff] at h
      obtain ⟨fnPart, -, argPart, -, -, latent, -, -, -, rfl⟩ := h
      rfl
    | letIn name boundTy bound body ty eff =>
      rw [term_letIn] at h
      simp only [Option.bind_eq_some_iff, require_eq_some_iff, exists_const] at h
      obtain ⟨boundPart, -, -, bodyPart, -, rfl, -, hout⟩ := h
      cases hout; rfl
    | cond ty test thenBranch elseBranch eff =>
      rw [term_cond] at h
      simp only [Option.bind_eq_some_iff, condParts_eq_some_iff] at h
      obtain ⟨testPart, -, _, -, _, -, thenPart, -, elsePart, -, -, -, -, rfl⟩ := h
      rfl

theorem isGround_of_term {config : Config} {room : Nat} {env : Env} {t : Term} {out : Ty × Effect}
    (ht : t.isGround = true) (h : term config room env t = some out) : out.1.isGround = true := by
  rw [ty_of_term h]
  exact Term.isGround_ty ht

/-! ## The checker and the plain system agree -/

/-- In every ground scope and with any room left, the term gets from the checker what it gets from the plain system. -/
def Agrees (config : Config) (t : Term) : Prop := t.isGround = true → ∀ (room : Nat) (env : Env), env.isGround = true →
  (Check.term config room env t).toOption = term config room env t

variable {config : Config}

theorem agrees_of_room {t : Term} (h : t.isGround = true → ∀ (room : Nat) (env : Env), env.isGround = true →
    (Check.term config (room + 1) env t).toOption = term config (room + 1) env t) : Agrees config t := by
  intro ht room env henv
  cases room with
  | zero => rw [Check.term_zero, term_zero]; rfl
  | succ room => exact h ht room env henv

theorem components_eq {room : Nat} {env : Env} (henv : env.isGround = true) {ceiling : Effect} {step : Nat → Step}
    {ts : List Term} (hts : ∀ t ∈ ts, Agrees config t) (hground : Term.isGroundAll ts = true) (i : Nat)
    (tys : List Ty) :
    (Check.components config room env ceiling step i ts tys).toOption = components config room env ceiling ts tys := by
  induction ts generalizing i tys with
  | nil => simp only [Check.components, components]; rfl
  | cons t ts ih =>
    obtain ⟨ht, hts⟩ := List.forall_mem_cons.1 hts
    rw [Term.isGroundAll, Bool.and_eq_true] at hground
    cases tys with
    | nil => simp only [Check.components, components]; rfl
    | cons ty tys =>
      simp only [Check.components, components, toOption_bind, toOption_within, ht hground.1 room env henv]
      refine Option.bind_congr fun part hpart => ?_
      rw [expectComponent_eq (isGround_of_term hground.1 hpart)]
      exact Option.bind_congr fun _ _ => ih hts hground.2 (i + 1) tys

theorem cases_eq {room : Nat} {env : Env} (henv : env.isGround = true) {valueTy ty : Ty}
    (hvalue : valueTy.isGround = true) {ceiling : Effect} {branches : List (Pattern × Term)}
    (hbranches : ∀ b ∈ branches, Agrees config b.2) (hground : Term.isGroundBranches branches = true) (i : Nat) :
    (Check.cases config room env valueTy ty ceiling i branches).toOption =
      cases config room env valueTy ty ceiling branches := by
  induction branches generalizing i with
  | nil => simp only [Check.cases, cases]; rfl
  | cons branch rest ih =>
    obtain ⟨p, body⟩ := branch
    obtain ⟨hbody, hrest⟩ := List.forall_mem_cons.1 hbranches
    simp only [Term.isGroundBranches, Bool.and_eq_true] at hground
    obtain ⟨⟨hp, hbodyGround⟩, hrestGround⟩ := hground
    simp only [Check.cases, cases, toOption_bind, toOption_within, pattern_eq p valueTy hp]
    refine Option.bind_congr fun bindings hbindings => ?_
    -- the names a pattern binds are of ground types, so the scope of the body is ground
    rw [← pattern_eq p valueTy hp, toOption_eq_some_iff, Pattern.check_ok_iff] at hbindings
    have hscope : (env.extend bindings).isGround = true := Env.isGround_union (hbindings.isGround hvalue) henv
    have hpart : (Check.term config room (env.extend bindings) body).toOption = _ := hbody hbodyGround room _ hscope
    rw [hpart]
    refine Option.bind_congr fun part hpart => ?_
    rw [expectComponent_eq (isGround_of_term hbodyGround hpart)]
    exact Option.bind_congr fun _ _ => ih hrest hrestGround (i + 1)

theorem agrees (config : Config) (t : Term) : Agrees config t := by
  induction t using Term.induct <;> refine agrees_of_room fun ht room env henv => ?_
  case lit l => rfl
  case var ty name =>
    rw [term_var]
    cases hfound : env.get? name with
    | none => rw [Check.term_var_unknown _ _ _ hfound]; rfl
    | some found =>
      have hground := Env.isGround_iff.1 henv name found hfound
      rw [Check.term_var_found _ _ _ hfound, toOption_bind, expectInstance_eq hground]
      rfl
  case list ty elems eff ih =>
    rw [Term.isGround, Bool.and_eq_true] at ht
    by_cases hty : ∃ elem, ty = .list elem
    · obtain ⟨elem, rfl⟩ := hty
      rw [Check.term_list, term_list, toOption_bind, components_eq henv ih ht.2]
      rfl
    · rw [Check.term_not_list _ _ _ _ _ (not_exists.1 hty), term_not_list _ _ _ _ _ (not_exists.1 hty)]
      rfl
  case ctor ty tag args eff ih =>
    rw [Term.isGround, Bool.and_eq_true] at ht
    rw [Check.term_ctor, term_ctor, toOption_bind, toOption_ofRule]
    refine Option.bind_congr fun fields _ => ?_
    rw [toOption_bind, components_eq henv ih ht.2]
    rfl
  case cases ty scrutinee branches eff ih ihs =>
    simp only [Term.isGround, Bool.and_eq_true] at ht
    obtain ⟨⟨-, hvalueGround⟩, hground⟩ := ht
    rw [Check.term_cases, term_cases]
    split
    · rfl
    · rw [toOption_bind, toOption_within, ih hvalueGround room env henv]
      refine Option.bind_congr fun value hvalue => ?_
      rw [toOption_bind, toOption_within, expectWithin_eq]
      refine Option.bind_congr fun _ _ => ?_
      rw [toOption_bind, cases_eq henv (isGround_of_term hvalueGround hvalue) ihs hground]
      rfl
  case lambda ty param paramTy body ih =>
    simp only [Term.isGround, Bool.and_eq_true] at ht
    obtain ⟨⟨-, hparam⟩, hbody⟩ := ht
    rw [Check.term_lambda, term_lambda, toOption_bind, toOption_within,
      ih hbody room _ (Env.isGround_insert henv hparam param)]
    refine Option.bind_congr fun result hresult => ?_
    have harrow : (Ty.arrow paramTy result.2 result.1).isGround = true := by
      rw [Ty.isGround, hparam, isGround_of_term hbody hresult]; rfl
    rw [toOption_bind, expectInstance_eq harrow]
    rfl
  case apply ty fn argTy arg eff ihfn iharg =>
    simp only [Term.isGround, Bool.and_eq_true] at ht
    obtain ⟨⟨-, hfn⟩, harg⟩ := ht
    rw [Check.term_apply, term_apply, toOption_bind, toOption_within, ihfn hfn room env henv]
    refine Option.bind_congr fun fnPart hfnPart => ?_
    rw [toOption_bind, toOption_within, iharg harg room env henv]
    refine Option.bind_congr fun argPart hargPart => ?_
    exact applyParts_eq (isGround_of_term hfn hfnPart) (isGround_of_term harg hargPart) ty argTy eff
  case letIn name boundTy bound body ty eff ihbound ihbody =>
    simp only [Term.isGround, Bool.and_eq_true] at ht
    obtain ⟨⟨-, hbound⟩, hbody⟩ := ht
    rw [Check.term_letIn, term_letIn, toOption_bind, toOption_within, ihbound hbound room env henv]
    refine Option.bind_congr fun boundPart hboundPart => ?_
    have hfound := isGround_of_term hbound hboundPart
    rw [toOption_bind, toOption_within, expectInstance_eq hfound]
    refine Option.bind_congr fun _ _ => ?_
    rw [toOption_bind, toOption_within, ihbody hbody room _ (Env.isGround_insert henv hfound name)]
    refine Option.bind_congr fun bodyPart hbodyPart => ?_
    rw [toOption_bind, expectInstance_eq (isGround_of_term hbody hbodyPart)]
    refine Option.bind_congr fun _ _ => ?_
    rw [toOption_bind, expectWithin_eq]
    rfl
  case cond ty test thenBranch elseBranch eff ih ihthen ihelse =>
    simp only [Term.isGround, Bool.and_eq_true] at ht
    obtain ⟨⟨⟨-, htest⟩, hthen⟩, helse⟩ := ht
    rw [Check.term_cond, term_cond, toOption_bind, toOption_within, ih htest room env henv]
    refine Option.bind_congr fun testPart _ => ?_
    rw [toOption_bind, toOption_within, toOption_eq_require Check.expectBool_ok_iff]
    refine Option.bind_congr fun _ _ => ?_
    rw [toOption_bind, toOption_within, expectWithin_eq]
    refine Option.bind_congr fun _ _ => ?_
    rw [toOption_bind, toOption_within, ihthen hthen room env henv]
    refine Option.bind_congr fun thenPart hthenPart => ?_
    rw [toOption_bind, toOption_within, ihelse helse room env henv]
    refine Option.bind_congr fun elsePart helsePart => ?_
    exact condParts_eq testPart (isGround_of_term hthen hthenPart) (isGround_of_term helse helsePart) ty eff

end Plain

/-- Where the scope and all annotations are ground, a term is accepted with a type and an effect if and only if it has
them in the plain system; and the type is the one the term declares. -/
theorem Term.check_monomorphic (config : Config) (env : Env) (t : Term) (henv : env.isGround = true)
    (ht : t.isGround = true) :
    (∀ ty eff, t.check config env = .ok (ty, eff) ↔ t.checkPlain config env = some (ty, eff)) ∧
    ∀ ty eff, t.check config env = .ok (ty, eff) → ty = t.ty := by
  have hagrees : (t.check config env).toOption = t.checkPlain config env :=
    Plain.agrees config t ht config.maxDepth env henv
  have hiff : ∀ ty eff, t.check config env = .ok (ty, eff) ↔ t.checkPlain config env = some (ty, eff) := by
    intro ty eff
    rw [← hagrees, toOption_eq_some_iff]
  exact ⟨hiff, fun ty eff h => Plain.ty_of_term ((hiff ty eff).1 h)⟩

/-- Takes an option of ground type apart and calls a function with a strong effect on what is in it. -/
def unwrapCall : Term :=
  .cases (.base .int) (.someOf (.option (.base .int)) (.lit (.int 1)) .pure)
    [(.someOf (.option (.base .int)) (.var "x"), actCall), (.noneOf (.option (.base .int)), .lit (.int 0))] .strong

theorem unwrapCall_monomorphic :
    Env.isGround (.singleton "act" (.arrow (.base .int) .strong (.base .int))) = true ∧ unwrapCall.isGround = true ∧
    unwrapCall.checkPlain {} (.singleton "act" (.arrow (.base .int) .strong (.base .int))) =
      some (.base .int, .strong) ∧
    unwrapCall.check {} (.singleton "act" (.arrow (.base .int) .strong (.base .int))) = .ok (.base .int, .strong) ∧
    ∀ out, unwrapCall.check {} (.singleton "act" (.arrow (.base .int) .weak (.base .int))) ≠ .ok out := by
  have hplain : unwrapCall.checkPlain {} (.singleton "act" (.arrow (.base .int) .strong (.base .int))) =
      some (.base .int, .strong) := by rfl
  have hother : unwrapCall.checkPlain {} (.singleton "act" (.arrow (.base .int) .weak (.base .int))) = none := by rfl
  obtain ⟨hiff, -⟩ := Term.check_monomorphic {} (.singleton "act" (.arrow (.base .int) .strong (.base .int))) unwrapCall
    rfl rfl
  obtain ⟨hiff', -⟩ := Term.check_monomorphic {} (.singleton "act" (.arrow (.base .int) .weak (.base .int))) unwrapCall
    rfl rfl
  refine ⟨rfl, rfl, hplain, (hiff _ _).2 hplain, fun out h => ?_⟩
  rw [hiff' out.1 out.2, hother] at h
  cases h

end EffectTyping
