/-
The typing judgement `env ⊢ t : (ty, eff)` as rules, without solver, matcher or witness: a declared type is reached
by some substitution, and a pattern takes its components from the type of the value it is matched with. One rule
for each form of term and of pattern; the parts of a list, the arguments of a constructor and the branches of a
match are judged one after the other.
-/
import EffectTyping.Proofs.Instance
import EffectTyping.Proofs.OrderedMap
import EffectTyping.Typing.Pattern

namespace EffectTyping

/-- `s` leaves every variable of `t` alone. -/
def Subst.Fixes (s : Subst) (t : Ty) : Prop := ∀ v ∈ t.vars, s.apply (.var v) = .var v

theorem Subst.fixes_iff {s : Subst} {t : Ty} : s.Fixes t ↔ s.apply t = t := apply_eq_self_iff.symm

/-! ## Constructors and patterns -/

/-- A constructor with this tag builds a value of this type from parts of these types. -/
inductive Tag.Builds : Tag → Ty → List Ty → Prop
  | tuple {n : UInt64} {ts : List Ty} : ts.length = n.toNat → Tag.Builds (.tuple n) (.tuple ts) ts
  | none (t : Ty) : Tag.Builds (.variant "None") (.option t) []
  | some (t : Ty) : Tag.Builds (.variant "Some") (.option t) [t]

mutual

/-- A pattern that takes a value of type `expected` apart makes these bindings. The type a constructor pattern
declares has to have `expected` as an instance; what it binds are components of `expected`. -/
inductive Pattern.Binds : Pattern → (expected : Ty) → Env → Prop
  | var (name : String) (expected : Ty) : Pattern.Binds (.var name) expected (.singleton name expected)
  | ctor {ty expected : Ty} {tag : Tag} {args : List Pattern} {fields parts : List Ty} {bindings : Env} :
      tag.Builds ty fields → ty.HasInstance expected → tag.Builds expected parts →
      Pattern.BindAll args parts bindings → Pattern.Binds (.ctor ty tag args) expected bindings

/-- The patterns make these bindings together; no name is bound by two of them. -/
inductive Pattern.BindAll : List Pattern → (expected : List Ty) → Env → Prop
  | nil : Pattern.BindAll [] [] .empty
  | cons {p : Pattern} {ps : List Pattern} {t : Ty} {ts : List Ty} {bindings others : Env} :
      Pattern.Binds p t bindings → Pattern.BindAll ps ts others → bindings.Disjoint others →
      Pattern.BindAll (p :: ps) (t :: ts) (bindings.union others)

end

/-! ## Terms -/

mutual

/-- In the scope `env` the term has this type and this effect. `strict` forbids a match without branches. -/
inductive HasType (strict : Bool) : Env → Term → Ty → Effect → Prop
  | lit (env : Env) (l : Literal) : HasType strict env (.lit l) l.ty .pure
  | var {env : Env} {name : String} {ty found : Ty} :
      env.get? name = some found → found.HasInstance ty → HasType strict env (.var ty name) found .pure
  | list {env : Env} {elem : Ty} {elems : List Term} {eff : Effect} :
      PartsHaveType strict env eff elems (List.replicate elems.length elem) →
      HasType strict env (.list (.list elem) elems eff) (.list elem) eff
  | ctor {env : Env} {ty : Ty} {tag : Tag} {fields : List Ty} {args : List Term} {eff : Effect} :
      tag.Builds ty fields → PartsHaveType strict env eff args fields →
      HasType strict env (.ctor ty tag args eff) ty eff
  | cases {env : Env} {ty valueTy : Ty} {scrutinee : Term} {branches : List (Pattern × Term)}
      {eff valueEff : Effect} :
      (branches = [] → strict = false) → HasType strict env scrutinee valueTy valueEff → valueEff ≤ eff →
      BranchesHaveType strict env valueTy ty eff branches →
      HasType strict env (.cases ty scrutinee branches eff) ty eff
  | lambda {env : Env} {ty paramTy bodyTy : Ty} {param : String} {body : Term} {bodyEff : Effect} :
      HasType strict (env.insert param paramTy) body bodyTy bodyEff →
      (Ty.arrow paramTy bodyEff bodyTy).HasInstance ty →
      HasType strict env (.lambda ty param paramTy body) (.arrow paramTy bodyEff bodyTy) .pure
  /-- At most one of the parts has an effect. The type of the function becomes one from `argTy` to `ty`, and that
  of the argument becomes `argTy`, by substitutions that leave the variables of these types alone. A function
  whose type is no arrow is taken to have the declared effect. -/
  | apply {env : Env} {ty argTy fnTy foundTy : Ty} {fn arg : Term} {eff fnEff argEff latent : Effect} :
      HasType strict env fn fnTy fnEff → HasType strict env arg foundTy argEff →
      fnEff = .pure ∨ argEff = .pure →
      (∃ (s : Subst) (e : Effect), s.Fixes argTy ∧ s.Fixes ty ∧ s.apply fnTy = .arrow argTy e ty) →
      (∃ s : Subst, s.Fixes argTy ∧ s.apply foundTy = argTy) →
      (∀ a e r, fnTy = .arrow a e r → latent = e) → ((∀ a e r, fnTy ≠ .arrow a e r) → latent = eff) →
      (latent.join fnEff).join argEff ≤ eff →
      HasType strict env (.apply ty fn argTy arg eff) ty ((latent.join fnEff).join argEff)
  | letIn {env : Env} {ty boundTy foundTy bodyTy : Ty} {name : String} {bound body : Term}
      {eff boundEff bodyEff : Effect} :
      HasType strict env bound foundTy boundEff → foundTy.HasInstance boundTy →
      HasType strict (env.insert name foundTy) body bodyTy bodyEff → bodyTy.HasInstance ty →
      boundEff.join bodyEff ≤ eff → HasType strict env (.letIn name boundTy bound body ty eff) bodyTy eff
  /-- One substitution turns the types of both branches into the declared one. -/
  | cond {env : Env} {ty thenTy elseTy : Ty} {test thenBranch elseBranch : Term}
      {eff testEff thenEff elseEff : Effect} :
      HasType strict env test (.base .bool) testEff → testEff ≤ eff →
      HasType strict env thenBranch thenTy thenEff → HasType strict env elseBranch elseTy elseEff →
      (∃ θ : Subst, θ.apply thenTy = ty ∧ θ.apply elseTy = ty) → thenEff ≤ eff → elseEff ≤ eff →
      HasType strict env (.cond ty test thenBranch elseBranch eff) ty ((testEff.join thenEff).join elseEff)

/-- Part by part, the type of the term has the given one as an instance and its effect is below the ceiling. -/
inductive PartsHaveType (strict : Bool) : Env → (ceiling : Effect) → List Term → List Ty → Prop
  | nil (env : Env) (ceiling : Effect) : PartsHaveType strict env ceiling [] []
  | cons {env : Env} {ceiling eff : Effect} {t : Term} {ts : List Term} {found ty : Ty} {tys : List Ty} :
      HasType strict env t found eff → found.HasInstance ty → eff ≤ ceiling →
      PartsHaveType strict env ceiling ts tys → PartsHaveType strict env ceiling (t :: ts) (ty :: tys)

/-- Branch by branch, the pattern takes a value of type `valueTy` apart, and in the scope of its bindings the type
of the body has `ty` as an instance and its effect is below the ceiling. -/
inductive BranchesHaveType (strict : Bool) :
    Env → (valueTy ty : Ty) → (ceiling : Effect) → List (Pattern × Term) → Prop
  | nil (env : Env) (valueTy ty : Ty) (ceiling : Effect) : BranchesHaveType strict env valueTy ty ceiling []
  | cons {env bindings : Env} {valueTy ty found : Ty} {ceiling eff : Effect} {pattern : Pattern} {body : Term}
      {rest : List (Pattern × Term)} :
      pattern.Binds valueTy bindings → HasType strict (env.extend bindings) body found eff →
      found.HasInstance ty → eff ≤ ceiling → BranchesHaveType strict env valueTy ty ceiling rest →
      BranchesHaveType strict env valueTy ty ceiling ((pattern, body) :: rest)

end

end EffectTyping
