/-
The checker decides the typing judgement. It finds a type and an effect for a term exactly when the term is no
deeper than the limit and this type and effect are derivable by the rules, which know nothing of how equations are
solved.
-/
import EffectTyping.Proofs.Term
import EffectTyping.Proofs.Typing.Pattern

namespace EffectTyping

theorem PartsHaveType.length_eq {strict : Bool} {env : Env} {ceiling : Effect} {ts : List Term} {tys : List Ty}
    (h : PartsHaveType strict env ceiling ts tys) : ts.length = tys.length := by
  induction ts generalizing tys with
  | nil => cases h; rfl
  | cons t ts ih => cases h with
    | cons ht hinst hle hts => rw [List.length_cons, List.length_cons, ih hts]

namespace Check

theorem latentEffect_eq_iff {fnTy : Ty} {declared latent : Effect} :
    latent = latentEffect fnTy declared ↔ (∀ a e r, fnTy = .arrow a e r → latent = e) ∧
      ((∀ a e r, fnTy ≠ .arrow a e r) → latent = declared) := by
  cases fnTy <;> simp [latentEffect]

/-- Wherever the term is checked, the outcome is the one the rules allow, as long as there is room for it. -/
def Adequate (config : Config) (t : Term) : Prop := ∀ (room : Nat) (env : Env) (ty : Ty) (eff : Effect),
  term config room env t = .ok (ty, eff) ↔ t.depth ≤ room ∧ HasType config.rejectEmptyMatch env t ty eff

variable {config : Config}

/-- Without room nothing is accepted, and every term needs some. -/
theorem adequate_of_room {t : Term} (h : ∀ (room : Nat) (env : Env) (ty : Ty) (eff : Effect),
    term config (room + 1) env t = .ok (ty, eff) ↔
      t.depth ≤ room + 1 ∧ HasType config.rejectEmptyMatch env t ty eff) : Adequate config t := by
  intro room env ty eff
  cases room with
  | zero =>
    have hpos := t.depth_pos
    rw [term_zero]
    constructor
    · intro h; cases h
    · rintro ⟨hd, -⟩; omega
  | succ room => exact h room env ty eff

/-! ## Parts and branches -/

theorem components_ok_iff {room : Nat} {env : Env} {ceiling : Effect} {step : Nat → Step} {ts : List Term}
    (h : ∀ t ∈ ts, Adequate config t) (i : Nat) {tys : List Ty} (hl : ts.length = tys.length) {u : Unit} :
    components config room env ceiling step i ts tys = .ok u ↔
      Term.depthAll ts ≤ room ∧ PartsHaveType config.rejectEmptyMatch env ceiling ts tys := by
  induction ts generalizing i tys with
  | nil =>
    obtain rfl : tys = [] := List.eq_nil_of_length_eq_zero hl.symm
    simp [components, Term.depthAll, PartsHaveType.nil]
  | cons t ts ih =>
    obtain ⟨ht, hts⟩ := List.forall_mem_cons.1 h
    cases tys with
    | nil => cases hl
    | cons ty tys =>
      rw [components, Term.depthAll]
      simp only [Checked.bind_eq_ok_iff, Checked.within_eq_ok_iff, expectComponent_ok_iff, Prod.exists, exists_const,
        ht room env, ih hts (i + 1) (Nat.succ.inj hl), Nat.max_le]
      constructor
      · rintro ⟨found, eff, ⟨hd, hfound⟩, ⟨hinst, hle⟩, hds, hrest⟩
        exact ⟨⟨hd, hds⟩, .cons hfound hinst hle hrest⟩
      · rintro ⟨⟨hd, hds⟩, hparts⟩
        cases hparts with
        | cons hfound hinst hle hrest => exact ⟨_, _, ⟨hd, hfound⟩, ⟨hinst, hle⟩, hds, hrest⟩

theorem cases_ok_iff {room : Nat} {env : Env} {valueTy ty : Ty} {ceiling : Effect}
    {branches : List (Pattern × Term)} (h : ∀ b ∈ branches, Adequate config b.2) (i : Nat) {u : Unit} :
    cases config room env valueTy ty ceiling i branches = .ok u ↔
      Term.depthBranches branches ≤ room ∧
        BranchesHaveType config.rejectEmptyMatch env valueTy ty ceiling branches := by
  induction branches generalizing i with
  | nil => simp [cases, Term.depthBranches, BranchesHaveType.nil]
  | cons branch rest ih =>
    obtain ⟨pattern, body⟩ := branch
    obtain ⟨hbody, hrest⟩ := List.forall_mem_cons.1 h
    rw [cases, Term.depthBranches]
    simp only [Checked.bind_eq_ok_iff, Checked.within_eq_ok_iff, Pattern.check_ok_iff, expectComponent_ok_iff,
      Prod.exists, exists_const, hbody room, ih hrest (i + 1), Nat.max_le]
    constructor
    · rintro ⟨bindings, hb, found, eff, ⟨hd, hfound⟩, ⟨hinst, hle⟩, hds, hothers⟩
      exact ⟨⟨hd, hds⟩, .cons hb hfound hinst hle hothers⟩
    · rintro ⟨⟨hd, hds⟩, hbranches⟩
      cases hbranches with
      | cons hb hfound hinst hle hothers =>
        exact ⟨_, hb, _, _, ⟨hd, hfound⟩, ⟨hinst, hle⟩, hds, hothers⟩

/-! ## One lemma for each form of term -/

theorem adequate_lit (l : Literal) : Adequate config (.lit l) := by
  refine adequate_of_room fun room env ty eff => ?_
  rw [term_lit, Term.depth]
  simp only [Except.ok.injEq, Prod.mk.injEq, Nat.le_add_left, true_and]
  constructor
  · rintro ⟨rfl, rfl⟩; exact .lit env l
  · intro h; cases h; exact ⟨rfl, rfl⟩

theorem adequate_var (ty : Ty) (name : String) : Adequate config (.var ty name) := by
  refine adequate_of_room fun room env T e => ?_
  rw [Term.depth]
  simp only [Nat.le_add_left, true_and]
  constructor
  · intro h
    cases hfound : env.get? name with
    | none => rw [term_var_unknown config room env hfound] at h; cases h
    | some found =>
      rw [term_var_found config room env hfound] at h
      obtain ⟨_, hinst, hout⟩ := Checked.bind_eq_ok_iff.1 h
      cases hout
      exact .var hfound (expectInstance_ok_iff.1 hinst)
  · intro h
    cases h with
    | var hfound hinst =>
      rw [term_var_found config room env hfound]
      exact Checked.bind_eq_ok_iff.2 ⟨(), expectInstance_ok_iff.2 hinst, rfl⟩

theorem adequate_list {ty : Ty} {elems : List Term} {eff : Effect} (h : ∀ t ∈ elems, Adequate config t) :
    Adequate config (.list ty elems eff) := by
  refine adequate_of_room fun room env T e => ?_
  by_cases hty : ∃ elem, ty = .list elem
  · obtain ⟨elem, rfl⟩ := hty
    rw [term_list, Term.depth]
    simp only [Checked.bind_eq_ok_iff, components_ok_iff h 0 (List.length_replicate ..).symm, exists_const,
      Except.ok.injEq, Prod.mk.injEq]
    constructor
    · rintro ⟨⟨hd, hparts⟩, rfl, rfl⟩; exact ⟨by omega, .list hparts⟩
    · rintro ⟨hd, ht⟩
      cases ht with
      | list hparts => exact ⟨⟨by omega, hparts⟩, rfl, rfl⟩
  · rw [term_not_list config room env elems eff (not_exists.1 hty)]
    constructor
    · intro h; cases h
    · rintro ⟨-, ht⟩
      cases ht with
      | list => exact absurd ⟨_, rfl⟩ hty

theorem adequate_ctor {ty : Ty} {tag : Tag} {args : List Term} {eff : Effect}
    (h : ∀ t ∈ args, Adequate config t) : Adequate config (.ctor ty tag args eff) := by
  refine adequate_of_room fun room env T e => ?_
  rw [term_ctor, Term.depth]
  simp only [Checked.bind_eq_ok_iff, Checked.ofRule_eq_ok_iff, constructorFields_ok_iff, Except.ok.injEq,
    Prod.mk.injEq]
  constructor
  · rintro ⟨fields, ⟨hty, hl⟩, _, hparts, rfl, rfl⟩
    obtain ⟨hd, hparts⟩ := (components_ok_iff h 0 hl.symm).1 hparts
    exact ⟨by omega, .ctor hty hparts⟩
  · rintro ⟨hd, ht⟩
    cases ht with
    | ctor hty hparts =>
      have hl := hparts.length_eq
      exact ⟨_, ⟨hty, hl.symm⟩, (), (components_ok_iff h 0 hl).2 ⟨by omega, hparts⟩, rfl, rfl⟩

theorem adequate_cases {ty : Ty} {scrutinee : Term} {branches : List (Pattern × Term)} {eff : Effect}
    (hvalue : Adequate config scrutinee) (h : ∀ b ∈ branches, Adequate config b.2) :
    Adequate config (.cases ty scrutinee branches eff) := by
  refine adequate_of_room fun room env T e => ?_
  rw [term_cases, Term.depth]
  have hguard : (branches.isEmpty && config.rejectEmptyMatch) = true ↔
      ¬ (branches = [] → config.rejectEmptyMatch = false) := by
    rw [Bool.and_eq_true, List.isEmpty_iff, Classical.not_imp, Bool.not_eq_false]
  split
  · -- no branches, and this is forbidden: no rule applies either
    rename_i hempty
    constructor
    · intro h; cases h
    · rintro ⟨-, ht⟩
      cases ht with
      | cases hstrict hfound hle hbranches => exact absurd hstrict (hguard.1 hempty)
  · rename_i hempty
    have hstrict := not_not.1 (mt hguard.2 hempty)
    simp only [Checked.bind_eq_ok_iff, Checked.within_eq_ok_iff, expectWithin_ok_iff, Prod.exists, exists_const,
      hvalue room env, cases_ok_iff h 0, Except.ok.injEq, Prod.mk.injEq]
    constructor
    · rintro ⟨valueTy, valueEff, ⟨hd, hfound⟩, hle, ⟨hds, hbranches⟩, rfl, rfl⟩
      exact ⟨by omega, .cases hstrict hfound hle hbranches⟩
    · rintro ⟨hd, ht⟩
      cases ht with
      | cases _ hfound hle hbranches =>
        exact ⟨_, _, ⟨by omega, hfound⟩, hle, ⟨by omega, hbranches⟩, rfl, rfl⟩

theorem adequate_lambda {ty paramTy : Ty} {param : String} {body : Term} (hbody : Adequate config body) :
    Adequate config (.lambda ty param paramTy body) := by
  refine adequate_of_room fun room env T e => ?_
  rw [term_lambda, Term.depth]
  simp only [Checked.bind_eq_ok_iff, Checked.within_eq_ok_iff, expectInstance_ok_iff, Prod.exists, exists_const,
    hbody room, Except.ok.injEq, Prod.mk.injEq]
  constructor
  · rintro ⟨bodyTy, bodyEff, ⟨hd, hfound⟩, hinst, rfl, rfl⟩
    exact ⟨by omega, .lambda hfound hinst⟩
  · rintro ⟨hd, ht⟩
    cases ht with
    | lambda hfound hinst => exact ⟨_, _, ⟨by omega, hfound⟩, hinst, rfl, rfl⟩

theorem adequate_apply {ty argTy : Ty} {fn arg : Term} {eff : Effect} (hfn : Adequate config fn)
    (harg : Adequate config arg) : Adequate config (.apply ty fn argTy arg eff) := by
  refine adequate_of_room fun room env T e => ?_
  rw [term_apply, Term.depth]
  simp only [Checked.bind_eq_ok_iff, Checked.within_eq_ok_iff, applyParts_ok_iff, Prod.exists, hfn room env,
    harg room env, ← Subst.fixes_iff, Prod.mk.injEq]
  constructor
  · rintro ⟨fnTy, fnEff, ⟨hd, hfnTy⟩, foundTy, argEff, ⟨hd', hargTy⟩, hpure, hs, hs', hle, rfl, rfl⟩
    obtain ⟨harrow, hother⟩ := latentEffect_eq_iff.1 (rfl : latentEffect fnTy eff = latentEffect fnTy eff)
    exact ⟨by omega, .apply hfnTy hargTy hpure hs hs' harrow hother hle⟩
  · rintro ⟨hd, ht⟩
    cases ht with
    | apply hfnTy hargTy hpure hs hs' harrow hother hle =>
      obtain rfl := latentEffect_eq_iff.2 ⟨harrow, hother⟩
      exact ⟨_, _, ⟨by omega, hfnTy⟩, _, _, ⟨by omega, hargTy⟩, hpure, hs, hs', hle, rfl, rfl⟩

theorem adequate_letIn {ty boundTy : Ty} {name : String} {bound body : Term} {eff : Effect}
    (hbound : Adequate config bound) (hbody : Adequate config body) :
    Adequate config (.letIn name boundTy bound body ty eff) := by
  refine adequate_of_room fun room env T e => ?_
  rw [term_letIn, Term.depth]
  simp only [Checked.bind_eq_ok_iff, Checked.within_eq_ok_iff, expectInstance_ok_iff, expectWithin_ok_iff,
    Prod.exists, exists_const, hbound room env, hbody room, Except.ok.injEq, Prod.mk.injEq]
  constructor
  · rintro ⟨foundTy, boundEff, ⟨hd, hfound⟩, hinst, bodyTy, bodyEff, ⟨hd', hbodyTy⟩, hinst', hle, rfl, rfl⟩
    exact ⟨by omega, .letIn hfound hinst hbodyTy hinst' hle⟩
  · rintro ⟨hd, ht⟩
    cases ht with
    | letIn hfound hinst hbodyTy hinst' hle =>
      exact ⟨_, _, ⟨by omega, hfound⟩, hinst, _, _, ⟨by omega, hbodyTy⟩, hinst', hle, rfl, rfl⟩

theorem adequate_cond {ty : Ty} {test thenBranch elseBranch : Term} {eff : Effect} (htest : Adequate config test)
    (hthen : Adequate config thenBranch) (helse : Adequate config elseBranch) :
    Adequate config (.cond ty test thenBranch elseBranch eff) := by
  refine adequate_of_room fun room env T e => ?_
  rw [term_cond, Term.depth]
  simp only [Checked.bind_eq_ok_iff, Checked.within_eq_ok_iff, expectBool_ok_iff, expectWithin_ok_iff,
    condParts_ok_iff, Prod.exists, exists_const, htest room env, hthen room env, helse room env, Prod.mk.injEq]
  constructor
  · rintro ⟨_, testEff, ⟨hd, htestTy⟩, rfl, hle, thenTy, thenEff, ⟨hd', hthenTy⟩, elseTy, elseEff,
      ⟨hd'', helseTy⟩, hθ, hle', hle'', rfl, rfl⟩
    exact ⟨by omega, .cond htestTy hle hthenTy helseTy hθ hle' hle''⟩
  · rintro ⟨hd, ht⟩
    cases ht with
    | cond htestTy hle hthenTy helseTy hθ hle' hle'' =>
      exact ⟨_, _, ⟨by omega, htestTy⟩, rfl, hle, _, _, ⟨by omega, hthenTy⟩, _, _, ⟨by omega, helseTy⟩,
        hθ, hle', hle'', rfl, rfl⟩

theorem adequate (config : Config) (t : Term) : Adequate config t := by
  induction t using Term.induct with
  | lit l => exact adequate_lit l
  | var ty name => exact adequate_var ty name
  | list ty elems eff ih => exact adequate_list ih
  | ctor ty tag args eff ih => exact adequate_ctor ih
  | cases ty scrutinee branches eff ih ihs => exact adequate_cases ih ihs
  | lambda ty param paramTy body ih => exact adequate_lambda ih
  | apply ty fn argTy arg eff ihfn iharg => exact adequate_apply ihfn iharg
  | letIn name boundTy bound body ty eff ihbound ihbody => exact adequate_letIn ihbound ihbody
  | cond ty test thenBranch elseBranch eff ih ihthen ihelse => exact adequate_cond ih ihthen ihelse

end Check

/-- A term is accepted with a type and an effect if and only if it is no deeper than the limit and has this type
and effect by the rules of the judgement. -/
theorem Term.check_eq_ok_iff (config : Config) (env : Env) (t : Term) (ty : Ty) (eff : Effect) :
    t.check config env = .ok (ty, eff) ↔
      t.depth ≤ config.maxDepth ∧ HasType config.rejectEmptyMatch env t ty eff :=
  Check.adequate config t config.maxDepth env ty eff

end EffectTyping
