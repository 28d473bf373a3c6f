/-
What the checker finds for every subterm. To check a term is to check its parts, each in a scope of its own; `Call`
names such a check, and following steps from call to call leads to the check of every subterm. One step: where a term
is accepted so are its parts, and the effect of a part is below that of the term unless the part is the body of a
function. By induction on the steps no subterm is left out, its annotations are right, and effects flow upwards.
-/
import EffectTyping.Proofs.Effect
import EffectTyping.Proofs.Typing.Adequacy

namespace EffectTyping

namespace Check

/-! ## Calls of the checker -/

/-- A term, the scope it is checked in, and the levels that the depth limit still allows there. -/
structure Call where
  room : Nat
  env : Env
  term : Term

namespace Call

/-- The check of a whole term. -/
def start (config : Config) (env : Env) (t : Term) : Call := ⟨config.maxDepth, env, t⟩

section

variable (config : Config)

/-- What the checker returns. -/
def outcome (c : Call) : Checked (Ty × Effect) := Check.term config c.room c.env c.term

/-- The scope in which the part of a term that a step leads to is checked: that of the term, and in the body of a
function, of a let or of a branch what these bind. A let gives its name the type found for the bound term, and the
pattern of a branch takes the type found for the matched value apart. -/
def scope? (room : Nat) (env : Env) : Term → Step → Option Env
  | .lambda _ param paramTy _, .lambdaBody => some (env.insert param paramTy)
  | .letIn name _ bound _ _ _, .letBody => do
    let found ← (Check.term config room env bound).toOption
    some (env.insert name found.1)
  | .cases _ scrutinee branches _, .branchBody i => do
    let value ← (Check.term config room env scrutinee).toOption
    let branch ← branches[i]?
    let bindings ← (branch.1.check value.1).toOption
    some (env.extend bindings)
  | _, _ => some env

/-- The check of the part that a step leads to, as it is made if all that comes before it is accepted. -/
def part? (c : Call) (step : Step) : Option Call :=
  match c.room with
  | 0 => none
  | room + 1 => do
    let u ← c.term.child? step
    let env ← scope? config room c.env c.term step
    some ⟨room, env, u⟩

/-- The check of the subterm that the steps lead to. -/
def at? (c : Call) (steps : List Step) : Option Call := steps.foldlM (part? config) c

end

variable {config : Config}

theorem at?_cons (c : Call) (step : Step) (steps : List Step) :
    c.at? config (step :: steps) = (c.part? config step).bind (·.at? config steps) := rfl

theorem at?_append (c : Call) (p q : List Step) :
    c.at? config (p ++ q) = (c.at? config p).bind (·.at? config q) :=
  List.foldlM_append

theorem part?_eq_some {room : Nat} {env env' : Env} {t u : Term} {step : Step} (hu : t.child? step = some u)
    (hscope : scope? config room env t step = some env') :
    part? config ⟨room + 1, env, t⟩ step = some ⟨room, env', u⟩ := by
  simp [part?, hu, hscope]

theorem scope?_letBody_iff {room : Nat} {env scope : Env} {name : String} {boundTy ty : Ty} {bound body : Term}
    {eff : Effect} : scope? config room env (.letIn name boundTy bound body ty eff) .letBody = some scope ↔
      ∃ found, Check.term config room env bound = .ok found ∧ env.insert name found.1 = scope := by
  simp only [scope?, Option.bind_eq_bind, Option.bind_eq_some_iff, Checked.toOption_eq_some_iff, Option.some.injEq]

theorem scope?_branchBody_iff {room : Nat} {env scope : Env} {ty : Ty} {scrutinee : Term}
    {branches : List (Pattern × Term)} {eff : Effect} {i : Nat} :
    scope? config room env (.cases ty scrutinee branches eff) (.branchBody i) = some scope ↔
      ∃ value, Check.term config room env scrutinee = .ok value ∧ ∃ branch, branches[i]? = some branch ∧
        ∃ bindings, branch.1.check value.1 = .ok bindings ∧ env.extend bindings = scope := by
  simp only [scope?, Option.bind_eq_bind, Option.bind_eq_some_iff, Checked.toOption_eq_some_iff, Option.some.injEq]

theorem outcome_ok_iff {c : Call} {ty : Ty} {eff : Effect} :
    c.outcome config = .ok (ty, eff) ↔
      c.term.depth ≤ c.room ∧ HasType config.rejectEmptyMatch c.env c.term ty eff :=
  adequate config c.term c.room c.env ty eff

end Call

end Check

/-! ## The rules, read from the term to its parts -/

theorem PartsHaveType.part {strict : Bool} {env : Env} {ceiling : Effect} {ts : List Term} {tys : List Ty}
    (h : PartsHaveType strict env ceiling ts tys) {i : Nat} {u : Term} (hu : ts[i]? = some u) :
    ∃ ty eff, HasType strict env u ty eff ∧ eff ≤ ceiling := by
  induction ts generalizing tys i with
  | nil => cases hu
  | cons t ts ih =>
    cases h with
    | cons ht hinst hle hts =>
      cases i with
      | zero => cases hu; exact ⟨_, _, ht, hle⟩
      | succ i => exact ih hts hu

theorem BranchesHaveType.branch {strict : Bool} {env : Env} {valueTy ty : Ty} {ceiling : Effect}
    {branches : List (Pattern × Term)} (h : BranchesHaveType strict env valueTy ty ceiling branches) {i : Nat}
    {b : Pattern × Term} (hb : branches[i]? = some b) :
    ∃ bindings found eff, b.1.Binds valueTy bindings ∧ HasType strict (env.extend bindings) b.2 found eff ∧
      eff ≤ ceiling := by
  induction branches generalizing i with
  | nil => cases hb
  | cons branch rest ih =>
    cases h with
    | cons hbinds hbody hinst hle hrest =>
      cases i with
      | zero => cases hb; exact ⟨_, _, _, hbinds, hbody, hle⟩
      | succ i => exact ih hrest hb

/-- A type that becomes an arrow by a substitution is a variable or an arrow. -/
theorem Subst.var_or_arrow_of_apply {s : Subst} {t arg res : Ty} {e : Effect} (h : s.apply t = .arrow arg e res) :
    (∃ v, t = .var v) ∨ ∃ a l r, t = .arrow a l r := by
  cases t with
  | var v => exact .inl ⟨v, rfl⟩
  | arrow a l r => exact .inr ⟨a, l, r, rfl⟩
  | base | option | list | tuple => cases h

/-- What an application calls has a variable or an arrow for its type. Its effect and the effect of the arrow are below
that of the application. -/
theorem HasType.function {strict : Bool} {env : Env} {ty argTy found : Ty} {fn arg : Term} {eff whole : Effect}
    (h : HasType strict env (.apply ty fn argTy arg eff) found whole) :
    ∃ fnTy fnEff, HasType strict env fn fnTy fnEff ∧ fnEff ≤ whole ∧
      ((∃ v, fnTy = .var v) ∨ ∃ a l r, fnTy = .arrow a l r ∧ l ≤ whole) := by
  cases h with
  | @apply _ _ _ fnTy _ _ _ _ fnEff argEff latent hfn harg hpure hs hs' harrow hother hle =>
    obtain ⟨hlatent, hfnEff, -⟩ := Effect.le_join_join latent fnEff argEff
    refine ⟨fnTy, fnEff, hfn, hfnEff, ?_⟩
    obtain ⟨s, e, -, -, hs⟩ := hs
    rcases Subst.var_or_arrow_of_apply hs with hvar | ⟨a, l, r, rfl⟩
    · exact .inl hvar
    · obtain rfl := harrow a l r rfl
      exact .inr ⟨a, latent, r, rfl, hlatent⟩

/-- The declared type is an instance of the one found, and the declared effect is no smaller. -/
theorem HasType.declared {strict : Bool} {env : Env} {t : Term} {ty : Ty} {eff : Effect}
    (h : HasType strict env t ty eff) : ty.HasInstance t.ty ∧ eff ≤ t.eff := by
  cases h with
  | lit => exact ⟨.refl _, le_rfl⟩
  | var hfound hinst => exact ⟨hinst, le_rfl⟩
  | list => exact ⟨.refl _, le_rfl⟩
  | ctor => exact ⟨.refl _, le_rfl⟩
  | cases => exact ⟨.refl _, le_rfl⟩
  | lambda hbody hinst => exact ⟨hinst, le_rfl⟩
  | apply hfn harg hpure hs hs' harrow hother hle => exact ⟨.refl _, hle⟩
  | letIn hbound hinst hbody hinst' hle => exact ⟨hinst', le_rfl⟩
  | cond htest hle hthen helse hθ hle' hle'' =>
    exact ⟨.refl _, Effect.join_le_iff.2 ⟨Effect.join_le_iff.2 ⟨hle, hle'⟩, hle''⟩⟩

namespace Check

/-! ## One step -/

/-- How what is found for a part of an accepted term bears on what is found for the term. -/
structure Flows (step : Step) (part whole : Ty × Effect) : Prop where
  /-- The effect of a part is one of the term, unless it is put off until the function is called. -/
  effect : step ≠ .lambdaBody → part.2 ≤ whole.2
  /-- What is called is a function, and the effect of the call is one of the term. -/
  latent : step = .applyFn → (∃ v, part.1 = .var v) ∨ ∃ a l r, part.1 = .arrow a l r ∧ l ≤ whole.2

theorem Flows.of_le {step : Step} {part whole : Ty × Effect} (h : part.2 ≤ whole.2) (hstep : step ≠ .applyFn) :
    Flows step part whole :=
  ⟨fun _ => h, fun h => absurd h hstep⟩

variable {config : Config}

/-- The part of an accepted term that a step leads to has a type and an effect in the scope it is checked in. -/
theorem hasType_part {room : Nat} {env : Env} {t u : Term} {step : Step} {ty : Ty} {eff : Effect}
    (hroom : t.depth ≤ room + 1) (h : HasType config.rejectEmptyMatch env t ty eff) (hu : t.child? step = some u) :
    ∃ env' uTy uEff, Call.scope? config room env t step = some env' ∧
      HasType config.rejectEmptyMatch env' u uTy uEff ∧ Flows step (uTy, uEff) (ty, eff) := by
  unfold Term.child? at hu
  split at hu
  · -- an element of a list
    cases h with
    | list hparts =>
      obtain ⟨uTy, uEff, hu, hle⟩ := hparts.part hu
      exact ⟨env, uTy, uEff, rfl, hu, .of_le hle (by simp)⟩
  · -- an argument of a constructor
    cases h with
    | ctor hbuilds hparts =>
      obtain ⟨uTy, uEff, hu, hle⟩ := hparts.part hu
      exact ⟨env, uTy, uEff, rfl, hu, .of_le hle (by simp)⟩
  · -- the value a match takes apart
    cases h with
    | cases hstrict hvalue hle hbranches =>
      cases hu
      exact ⟨env, _, _, rfl, hvalue, .of_le hle (by simp)⟩
  · -- the body of a branch
    cases h with
    | cases hstrict hvalue hle hbranches =>
      obtain ⟨b, hb, rfl⟩ := Option.map_eq_some_iff.1 hu
      obtain ⟨bindings, uTy, uEff, hbinds, hbody, hle⟩ := hbranches.branch hb
      have hvalueOk := (adequate config _ room env _ _).2 ⟨by rw [Term.depth] at hroom; omega, hvalue⟩
      have hbindings := (Pattern.check_ok_iff _ _ _).2 hbinds
      refine ⟨_, uTy, uEff, ?_, hbody, .of_le hle (by simp)⟩
      exact Call.scope?_branchBody_iff.2 ⟨_, hvalueOk, _, hb, _, hbindings, rfl⟩
  · -- the body of a function
    cases h with
    | lambda hbody hinst =>
      cases hu
      exact ⟨_, _, _, rfl, hbody, fun h => absurd rfl h, (by simp)⟩
  · -- the function of an application
    cases hu
    obtain ⟨fnTy, fnEff, hfn, hle, hlatent⟩ := h.function
    exact ⟨env, fnTy, fnEff, rfl, hfn, fun _ => hle, fun _ => hlatent⟩
  · -- the argument of an application
    cases h with
    | apply hfn harg hpure hs hs' harrow hother hle =>
      cases hu
      exact ⟨env, _, _, rfl, harg, .of_le (Effect.le_join_join _ _ _).2.2 (by simp)⟩
  · -- the term a let binds
    cases h with
    | letIn hbound hinst hbody hinst' hle =>
      cases hu
      exact ⟨env, _, _, rfl, hbound, .of_le (Effect.join_le_iff.1 hle).1 (by simp)⟩
  · -- the body of a let
    cases h with
    | letIn hbound hinst hbody hinst' hle =>
      cases hu
      have hboundOk := (adequate config _ room env _ _).2 ⟨by rw [Term.depth] at hroom; omega, hbound⟩
      refine ⟨_, _, _, ?_, hbody, .of_le (Effect.join_le_iff.1 hle).2 (by simp)⟩
      exact Call.scope?_letBody_iff.2 ⟨_, hboundOk, rfl⟩
  · -- the test of a conditional
    cases h with
    | cond htest hle hthen helse hθ hle' hle'' =>
      cases hu
      exact ⟨env, _, _, rfl, htest, .of_le (Effect.le_join_join _ _ _).1 (by simp)⟩
  · cases h with
    | cond htest hle hthen helse hθ hle' hle'' =>
      cases hu
      exact ⟨env, _, _, rfl, hthen, .of_le (Effect.le_join_join _ _ _).2.1 (by simp)⟩
  · cases h with
    | cond htest hle hthen helse hθ hle' hle'' =>
      cases hu
      exact ⟨env, _, _, rfl, helse, .of_le (Effect.le_join_join _ _ _).2.2 (by simp)⟩
  · cases hu

namespace Call

/-- If a term is accepted, then the part that a step leads to is checked and accepted. -/
theorem part_of_ok {c : Call} {out : Ty × Effect} (h : c.outcome config = .ok out) {step : Step} {u : Term}
    (hu : c.term.child? step = some u) :
    ∃ d found, c.part? config step = some d ∧ d.term = u ∧ d.outcome config = .ok found ∧ Flows step found out := by
  obtain ⟨room, env, t⟩ := c
  obtain ⟨ty, eff⟩ := out
  obtain ⟨hd, ht⟩ := outcome_ok_iff.1 h
  replace hd : t.depth ≤ room := hd
  cases room with
  | zero =>
    have := t.depth_pos
    omega
  | succ room =>
    obtain ⟨env', uTy, uEff, hscope, huTy, hflows⟩ := hasType_part hd ht hu
    have hdu : u.depth < t.depth := Term.depth_lt_of_child? hu
    refine ⟨⟨room, env', u⟩, (uTy, uEff), part?_eq_some hu hscope, rfl, ?_, hflows⟩
    exact outcome_ok_iff.2 ⟨Nat.le_of_lt_succ (Nat.lt_of_lt_of_le hdu hd), huTy⟩

/-! ## Every subterm -/

/-- If a term is accepted, then the subterm that the steps lead to is checked and accepted; its effect is below that of
the term if the steps lead into no function. -/
theorem at_of_ok {c : Call} {out : Ty × Effect} (h : c.outcome config = .ok out) {steps : List Step} {u : Term}
    (hu : c.term.at? steps = some u) :
    ∃ d found, c.at? config steps = some d ∧ d.term = u ∧ d.outcome config = .ok found ∧
      (.lambdaBody ∉ steps → found.2 ≤ out.2) := by
  induction steps generalizing c out with
  | nil => cases hu; exact ⟨c, out, rfl, rfl, h, fun _ => le_rfl⟩
  | cons step steps ih =>
    rw [Term.at?_cons] at hu
    obtain ⟨v, hv, hu⟩ := Option.bind_eq_some_iff.1 hu
    obtain ⟨d, part, hd, rfl, hpart, hflows⟩ := part_of_ok h hv
    obtain ⟨e, found, he, hterm, hfound, hle⟩ := ih hpart hu
    refine ⟨e, found, ?_, hterm, hfound, fun hnot => ?_⟩
    · rw [at?_cons, hd]; exact he
    · rw [List.mem_cons, not_or] at hnot
      exact (hle hnot.2).trans (hflows.effect (Ne.symm hnot.1))

end Call

end Check

/-- While `t` is checked, the subterm `u` that the steps lead to is checked, and this type and effect are found for
it. -/
def Term.Finds (config : Config) (env : Env) (t : Term) (steps : List Step) (u : Term) (found : Ty × Effect) : Prop :=
  ∃ c, (Check.Call.start config env t).at? config steps = some c ∧ c.term = u ∧ c.outcome config = .ok found

section Finds

open Check

variable {config : Config} {env : Env} {t u v : Term} {p q : List Step} {found : Ty × Effect}

theorem Term.finds_root (h : t.check config env = .ok found) : t.Finds config env [] t found :=
  ⟨Call.start config env t, rfl, rfl, h⟩

theorem Term.Finds.below (h : t.Finds config env p u found) (hv : u.at? q = some v) :
    ∃ part, t.Finds config env (p ++ q) v part ∧ (.lambdaBody ∉ q → part.2 ≤ found.2) := by
  obtain ⟨c, hc, rfl, hok⟩ := h
  obtain ⟨d, part, hd, hterm, hpart, hle⟩ := Call.at_of_ok hok hv
  refine ⟨part, ⟨d, ?_, hterm, hpart⟩, hle⟩
  rw [Call.at?_append, hc]; exact hd

/-- In an application a variable or an arrow is found for the function, and the effect of the arrow is below the one
found for the application. -/
theorem Term.Finds.function {ty argTy : Ty} {fn arg : Term} {eff : Effect}
    (h : t.Finds config env p (.apply ty fn argTy arg eff) found) :
    ∃ fnTy fnEff, t.Finds config env (p ++ [.applyFn]) fn (fnTy, fnEff) ∧
      ((∃ v, fnTy = .var v) ∨ ∃ a l r, fnTy = .arrow a l r ∧ l ≤ found.2) := by
  obtain ⟨c, hc, hterm, hok⟩ := h
  have hfn : c.term.child? .applyFn = some fn := by rw [hterm]; rfl
  obtain ⟨d, ⟨fnTy, fnEff⟩, hd, hdterm, hfound, hflows⟩ := Call.part_of_ok hok hfn
  refine ⟨fnTy, fnEff, ⟨d, ?_, hdterm, hfound⟩, hflows.latent rfl⟩
  rw [Call.at?_append, hc]
  exact (Call.at?_cons c .applyFn []).trans (by rw [hd]; rfl)

/-- What is found for a subterm bears out what the subterm declares. -/
theorem Term.Finds.declared (h : t.Finds config env p u found) :
    found.1.HasInstance u.ty ∧ found.2 ≤ u.eff := by
  obtain ⟨c, -, rfl, hok⟩ := h
  exact (Call.outcome_ok_iff.1 hok).2.declared

end Finds

end EffectTyping
