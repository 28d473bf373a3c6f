/-
How rules fail. A rule fails at the place where it is applied. Only the rule for variables fails for want of one, only
patterns fail for a name bound twice, and no rule fails for the depth. The rules for applications, conditionals and
patterns apply others to the parts, and see their failures one step further down. So a property of all failures of such
a rule is one that covers failures at the place itself (`CoversRules`) and at its parts.
-/
import EffectTyping.Proofs.Typing.Outcome

namespace EffectTyping

open Checked

/-- A reason of rules on types and effects: neither the want of a variable, nor the depth, nor a name bound twice. -/
@[simp] def Rejection.OfRule (reason : Rejection) : Prop :=
  (∀ name, reason ≠ .unknownVariable name) ∧ (∀ limit, reason ≠ .depthLimitExceeded limit) ∧
    ∀ name, reason ≠ .duplicateBinding name

/-- Rules on types and effects that fail where they are applied have only failures with the property. -/
def CoversRules (P : Failure → Prop) : Prop := ∀ reason : Rejection, reason.OfRule → P ⟨.root, .rejected reason⟩

/-! ## Single rules -/

theorem constructorFields_eq_error {ty : Ty} {tag : Tag} {found : Nat} {reason : Rejection}
    (h : constructorFields ty tag found = .error reason) :
    reason = .constructorShape tag ty ∨ (∃ expected, reason = .constructorArity tag expected found) ∨
      ∃ name, reason = .unknownConstructor name := by
  unfold constructorFields at h
  dsimp only at h
  repeat' split at h
  all_goals cases h
  all_goals simp

/-- Bindings that cannot be put together have the name in common that is reported. -/
theorem Env.merge_eq_error {env other : Env} {reason : Rejection} (h : env.merge other = .error reason) :
    ∃ name, reason = .duplicateBinding name ∧ env.contains name = true ∧ other.contains name = true := by
  unfold Env.merge at h
  split at h
  · rename_i name t hfind
    cases h
    have henv := List.find?_some hfind
    refine ⟨name, rfl, henv, ?_⟩
    rw [OrderedMap.contains, OrderedMap.mem_toList.1 (List.mem_of_find?_eq_some hfind)]; rfl
  · cases h

theorem merge_failsOnly {P : Failure → Prop} (hP : ∀ name, P ⟨.root, .rejected (.duplicateBinding name)⟩)
    (env other : Env) : FailsOnly P (ofRule (env.merge other)) := by
  cases hmerge : env.merge other with
  | ok out => exact failsOnly_ok out
  | error reason =>
    obtain ⟨name, rfl, -⟩ := Env.merge_eq_error hmerge
    exact failsOnly_reject (hP name)

section Single

variable {P : Failure → Prop} (hP : CoversRules P)
include hP

theorem failsOnly_ofRule {α : Type} {x : Except Rejection α} (h : ∀ reason, x = .error reason → reason.OfRule) :
    FailsOnly P (ofRule x) := by
  cases x with
  | ok a => exact failsOnly_ok a
  | error reason => exact failsOnly_reject (hP reason (h reason rfl))

theorem constructorFields_failsOnly (ty : Ty) (tag : Tag) (found : Nat) :
    FailsOnly P (ofRule (constructorFields ty tag found)) := by
  refine failsOnly_ofRule hP fun reason h => ?_
  rcases constructorFields_eq_error h with rfl | ⟨expected, rfl⟩ | ⟨name, rfl⟩ <;> simp

namespace Check

theorem expectInstance_failsOnly (checked declared : Ty) : FailsOnly P (expectInstance checked declared) :=
  failsOnly_ite (hP _ (by simp))

theorem expectWithin_failsOnly (effect ceiling : Effect) : FailsOnly P (expectWithin effect ceiling) :=
  failsOnly_ite (hP _ (by simp))

theorem expectComponent_failsOnly (part : Ty × Effect) (ty : Ty) (ceiling : Effect) :
    FailsOnly P (expectComponent part ty ceiling) :=
  FailsOnly.bind (expectInstance_failsOnly hP _ _) fun _ => expectWithin_failsOnly hP _ _

theorem expectOrder_failsOnly (fnEff argEff : Effect) : FailsOnly P (expectOrder fnEff argEff) :=
  failsOnly_ite (hP _ (by simp))

theorem expectBool_failsOnly (ty : Ty) : FailsOnly P (expectBool ty) :=
  failsOnly_ite (hP _ (by simp))

/-- The test of a solution does not fail, as the solver is sound. -/
theorem solve_failsOnly (left right : Ty) : FailsOnly P (solve left right) := by
  unfold solve
  cases h : unify left right with
  | error e => exact failsOnly_reject (hP _ (by simp))
  | ok s =>
    simp only [unify_alike h, if_true]
    exact failsOnly_ok s

theorem matchDeclared_failsOnly (checked declared : Ty) (slot : LatentSlot) :
    FailsOnly P (matchDeclared checked declared slot) := by
  unfold matchDeclared
  exact FailsOnly.bind (solve_failsOnly hP _ _) fun s => failsOnly_ite (hP _ (by simp))

/-! ## Rules that apply others to the parts -/

theorem applyParts_failsOnly (hfn : CoversRules fun f => P (f.within .applyFn))
    (harg : CoversRules fun f => P (f.within .applyArg)) (fn arg : Ty × Effect) (ty argTy : Ty) (eff : Effect) :
    FailsOnly P (applyParts fn arg ty argTy eff) := by
  unfold applyParts
  refine FailsOnly.bind (expectOrder_failsOnly hP _ _) fun _ => ?_
  refine FailsOnly.bind (FailsOnly.within (matchDeclared_failsOnly hfn _ _ _)) fun _ => ?_
  refine FailsOnly.bind (FailsOnly.within (matchDeclared_failsOnly harg _ _ _)) fun _ => ?_
  exact FailsOnly.bind (expectWithin_failsOnly hP _ _) fun _ => failsOnly_ok _

theorem condParts_failsOnly (hthen : CoversRules fun f => P (f.within .condThen))
    (helse : CoversRules fun f => P (f.within .condElse)) (test thenPart elsePart : Ty × Effect) (ty : Ty)
    (eff : Effect) : FailsOnly P (condParts test thenPart elsePart ty eff) := by
  unfold condParts
  refine FailsOnly.bind (solve_failsOnly hP _ _) fun s => ?_
  refine FailsOnly.bind (FailsOnly.within (expectComponent_failsOnly hthen _ _ _)) fun _ => ?_
  refine FailsOnly.bind (FailsOnly.within (expectComponent_failsOnly helse _ _ _)) fun _ => ?_
  exact failsOnly_ok _

end Check

end Single

/-! ## Patterns -/

namespace Pattern

variable {P : Pattern → Failure → Prop}

mutual

/-- All failures of a pattern are ones of rules on the pattern itself, names bound twice included, and, one step further
down, on its parts. -/
theorem check_failsOnly (hP : ∀ p, CoversRules (P p))
    (hnames : ∀ p name, P p ⟨.root, .rejected (.duplicateBinding name)⟩)
    (hpart : ∀ {p q : Pattern} {step : Step} {f : Failure}, p.child? step = some q → P q f → P p (f.within step)) :
    ∀ (p : Pattern) (expected : Ty), FailsOnly (P p) (p.check expected)
  | .var name, expected => by
    rw [check]; exact failsOnly_ok _
  | .ctor ty tag args, expected => by
    rw [check]
    refine FailsOnly.bind (constructorFields_failsOnly (hP _) _ _ _) fun fields => ?_
    split
    · exact failsOnly_reject (hP _ _ (by simp))
    · refine checkAll_failsOnly hP hnames hpart args 0 .empty _ fun j q hq => ?_
      rw [child?, Nat.zero_add]; exact hq

/-- The remaining parts `ps` of a pattern `p`, of which the first has the number `i`. -/
theorem checkAll_failsOnly (hP : ∀ p, CoversRules (P p))
    (hnames : ∀ p name, P p ⟨.root, .rejected (.duplicateBinding name)⟩)
    (hpart : ∀ {p q : Pattern} {step : Step} {f : Failure}, p.child? step = some q → P q f → P p (f.within step))
    {p : Pattern} : ∀ (ps : List Pattern) (i : Nat) (env : Env) (ts : List Ty),
    (∀ j q, ps[j]? = some q → p.child? (.subpattern (i + j)) = some q) → FailsOnly (P p) (checkAll i env ps ts)
  | [], i, env, ts, _ => by
    rw [checkAll]
    · exact failsOnly_ok env
    · simp
  | q :: ps, i, env, [], _ => by
    rw [checkAll]
    · exact failsOnly_ok env
    · simp
  | q :: ps, i, env, t :: ts, h => by
    have hq : FailsOnly (P p) (Checked.within (.subpattern i) (q.check t)) :=
      FailsOnly.within fun f hf => hpart (h 0 q rfl) (check_failsOnly hP hnames hpart q t f hf)
    rw [checkAll]
    refine FailsOnly.bind hq fun bindings => ?_
    refine FailsOnly.bind (merge_failsOnly (hnames p) env bindings) fun env' => ?_
    refine checkAll_failsOnly hP hnames hpart ps (i + 1) env' ts fun j r hr => ?_
    rw [Nat.add_right_comm, Nat.add_assoc]
    exact h (j + 1) r hr

end

end Pattern

end EffectTyping
