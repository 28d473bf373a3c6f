/-
Outcomes of checks: when a sequence of checks succeeds or fails, and what each rule of the checker asks for. The
rules for applications and conditionals solve equations; here they are put in terms of substitutions alone. The
test that a solution equates its sides never fails.
-/
import EffectTyping.Proofs.Unify.Declared
import EffectTyping.Typing.Check

namespace EffectTyping

namespace Checked

variable {α β : Type}

/-! ## Sequences -/

theorem bind_eq_ok_iff {x : Checked α} {f : α → Checked β} {b : β} :
    (x >>= f) = .ok b ↔ ∃ a, x = .ok a ∧ f a = .ok b := by
  cases x with
  | ok a => simp [bind, Except.bind]
  | error e => simp [bind, Except.bind]

theorem bind_eq_error_iff {x : Checked α} {f : α → Checked β} {e : Failure} :
    (x >>= f) = .error e ↔ x = .error e ∨ ∃ a, x = .ok a ∧ f a = .error e := by
  cases x with
  | ok a => simp [bind, Except.bind]
  | error e' => simp [bind, Except.bind]

theorem within_eq_ok_iff {step : Step} {x : Checked α} {a : α} : within step x = .ok a ↔ x = .ok a := by
  cases x <;> simp [within]

theorem within_eq_error_iff {step : Step} {x : Checked α} {f : Failure} :
    within step x = .error f ↔ ∃ g, x = .error g ∧ f = g.within step := by
  cases x with
  | ok a => simp [within]
  | error g => simp [within, eq_comm]

theorem ofRule_eq_ok_iff {x : Except Rejection α} {a : α} : ofRule x = .ok a ↔ x = .ok a := by
  cases x <;> simp [ofRule, reject]

theorem toOption_eq_some_iff {x : Checked α} {a : α} : x.toOption = some a ↔ x = .ok a := by
  cases x <;> simp [Except.toOption]

/-! ## Failures -/

/-- Whatever failure there is has the property. -/
def FailsOnly (P : Failure → Prop) (x : Checked α) : Prop := ∀ f, x = .error f → P f

section FailsOnly

variable {P : Failure → Prop}

theorem failsOnly_ok (a : α) : FailsOnly P (.ok a : Checked α) := by
  intro f h; cases h

theorem failsOnly_reject {reason : Rejection} (h : P ⟨.root, .rejected reason⟩) :
    FailsOnly P (reject reason : Checked α) := by
  intro f hf; cases hf; exact h

theorem failsOnly_ite {c : Prop} [Decidable c] {a : α} {reason : Rejection} (h : P ⟨.root, .rejected reason⟩) :
    FailsOnly P (if c then .ok a else reject reason) := by
  split
  · exact failsOnly_ok a
  · exact failsOnly_reject h

theorem FailsOnly.bind {x : Checked α} {f : α → Checked β} (hx : FailsOnly P x) (hf : ∀ a, FailsOnly P (f a)) :
    FailsOnly P (x >>= f) := by
  intro e he
  rcases bind_eq_error_iff.1 he with he | ⟨a, -, he⟩
  · exact hx e he
  · exact hf a e he

theorem FailsOnly.within {step : Step} {x : Checked α} (hx : FailsOnly (fun f => P (f.within step)) x) :
    FailsOnly P (Checked.within step x) := by
  intro e he
  obtain ⟨f, hf, rfl⟩ := within_eq_error_iff.1 he
  exact hx f hf

end FailsOnly

end Checked

namespace Check

/-! ## Single rules -/

theorem expectInstance_ok_iff {checked declared : Ty} {u : Unit} :
    expectInstance checked declared = .ok u ↔ checked.HasInstance declared := by
  unfold expectInstance
  rw [← Ty.generalizes_iff]
  split <;> simp_all [Checked.reject]

theorem expectWithin_ok_iff {effect ceiling : Effect} {u : Unit} :
    expectWithin effect ceiling = .ok u ↔ effect ≤ ceiling := by
  unfold expectWithin
  split <;> simp_all [Checked.reject]

theorem expectComponent_ok_iff {part : Ty × Effect} {ty : Ty} {ceiling : Effect} {u : Unit} :
    expectComponent part ty ceiling = .ok u ↔ part.1.HasInstance ty ∧ part.2 ≤ ceiling := by
  unfold expectComponent
  simp only [Checked.bind_eq_ok_iff, expectInstance_ok_iff, expectWithin_ok_iff, exists_const]

theorem expectOrder_ok_iff {fnEff argEff : Effect} {u : Unit} :
    expectOrder fnEff argEff = .ok u ↔ fnEff = .pure ∨ argEff = .pure := by
  unfold expectOrder
  split <;> simp_all [Effect.isPure, Checked.reject]

theorem expectBool_ok_iff {ty : Ty} {u : Unit} : expectBool ty = .ok u ↔ ty = .base .bool := by
  unfold expectBool
  split <;> simp_all [Checked.reject]

/-! ## Rules that solve equations -/

/-- The solver is sound, so that a check of its solution changes nothing. -/
theorem solve_ok_iff {left right : Ty} {σ : Subst} : solve left right = .ok σ ↔ unify left right = .ok σ := by
  unfold solve
  cases h : unify left right with
  | error e => simp [Checked.reject]
  | ok s => simp [unify_alike h]

theorem matchDeclared_ok_iff {checked declared : Ty} {slot : LatentSlot} {u : Unit} :
    matchDeclared checked declared slot = .ok u ↔
      ∃ σ, unify checked declared = .ok σ ∧ agree slot (σ.apply checked) declared = true := by
  unfold matchDeclared
  simp only [Checked.bind_eq_ok_iff, solve_ok_iff]
  refine exists_congr fun σ => and_congr_right fun _ => ?_
  split <;> simp_all [Checked.reject]

theorem agree_exempt_iff {solved arg res : Ty} {e : Effect} :
    agree .exempt solved (.arrow arg e res) = true ↔ ∃ e', solved = .arrow arg e' res := by
  cases solved <;> simp [agree]

/-- The checked type becomes the declared one by instantiating variables that are not those of the declared
type. -/
theorem matchDeclared_compared_ok_iff {checked declared : Ty} {u : Unit} :
    matchDeclared checked declared .compared = .ok u ↔
      ∃ s : Subst, s.apply declared = declared ∧ s.apply checked = declared := by
  rw [matchDeclared_ok_iff, ← unify_declared_iff]
  simp [agree]

/-- With the outermost effect left out, the checked type has to become a function type with the declared argument
and result. -/
theorem matchDeclared_exempt_ok_iff {checked arg res : Ty} {e : Effect} {u : Unit} :
    matchDeclared checked (.arrow arg e res) .exempt = .ok u ↔
      ∃ (s : Subst) (e' : Effect), s.apply arg = arg ∧ s.apply res = res ∧ s.apply checked = .arrow arg e' res := by
  rw [matchDeclared_ok_iff, ← unify_declared_arrow_iff (e := e)]
  simp only [agree_exempt_iff]
  constructor
  · rintro ⟨σ, hσ, e', h⟩; exact ⟨σ, e', hσ, h⟩
  · rintro ⟨σ, e', hσ, h⟩; exact ⟨σ, hσ, e', h⟩

theorem applyParts_ok_iff {fn arg : Ty × Effect} {ty argTy : Ty} {eff : Effect} {out : Ty × Effect} :
    applyParts fn arg ty argTy eff = .ok out ↔
      (fn.2 = .pure ∨ arg.2 = .pure) ∧
      (∃ (s : Subst) (e' : Effect), s.apply argTy = argTy ∧ s.apply ty = ty ∧ s.apply fn.1 = .arrow argTy e' ty) ∧
      (∃ s : Subst, s.apply argTy = argTy ∧ s.apply arg.1 = argTy) ∧
      ((latentEffect fn.1 eff).join fn.2).join arg.2 ≤ eff ∧
      out = (ty, ((latentEffect fn.1 eff).join fn.2).join arg.2) := by
  unfold applyParts
  have hjoin : Effect.joinAll [latentEffect fn.1 eff, fn.2, arg.2] =
      ((latentEffect fn.1 eff).join fn.2).join arg.2 := rfl
  simp only [Checked.bind_eq_ok_iff, Checked.within_eq_ok_iff, expectOrder_ok_iff, matchDeclared_exempt_ok_iff,
    matchDeclared_compared_ok_iff, expectWithin_ok_iff, exists_const, hjoin, Except.ok.injEq]
  rw [eq_comm (a := out)]

theorem condParts_ok_iff {test thenPart elsePart : Ty × Effect} {ty : Ty} {eff : Effect} {out : Ty × Effect} :
    condParts test thenPart elsePart ty eff = .ok out ↔
      (∃ θ : Subst, θ.apply thenPart.1 = ty ∧ θ.apply elsePart.1 = ty) ∧ thenPart.2 ≤ eff ∧ elsePart.2 ≤ eff ∧
      out = (ty, (test.2.join thenPart.2).join elsePart.2) := by
  unfold condParts
  have hjoin : Effect.joinAll [test.2, thenPart.2, elsePart.2] = (test.2.join thenPart.2).join elsePart.2 := rfl
  rw [← unify_common_instance_iff]
  simp only [Checked.bind_eq_ok_iff, Checked.within_eq_ok_iff, solve_ok_iff, expectComponent_ok_iff, exists_const,
    hjoin, Except.ok.injEq]
  constructor
  · rintro ⟨σ, hσ, ⟨hthen, h1⟩, ⟨helse, h2⟩, rfl⟩; exact ⟨⟨σ, hσ, hthen, helse⟩, h1, h2, rfl⟩
  · rintro ⟨⟨σ, hσ, hthen, helse⟩, h1, h2, rfl⟩; exact ⟨σ, hσ, ⟨hthen, h1⟩, ⟨helse, h2⟩, rfl⟩

/-! ## Checking a term, form by form -/

section Equations

variable (config : Config) (room : Nat) (env : Env)

theorem term_zero (t : Term) : term config 0 env t = Checked.reject (.depthLimitExceeded config.maxDepth) := by
  cases t <;> rfl

theorem term_lit (l : Literal) : term config (room + 1) env (.lit l) = .ok (l.ty, .pure) := rfl

theorem term_var_unknown {ty : Ty} {name : String} (h : env.get? name = none) :
    term config (room + 1) env (.var ty name) = Checked.reject (.unknownVariable name) := by
  simp only [term, h]

theorem term_var_found {ty found : Ty} {name : String} (h : env.get? name = some found) :
    term config (room + 1) env (.var ty name) = (do
      expectInstance found ty
      .ok (found, .pure)) := by
  simp only [term, h]

theorem term_list (elem : Ty) (elems : List Term) (eff : Effect) :
    term config (room + 1) env (.list (.list elem) elems eff) = (do
      components config room env eff .listElem 0 elems (List.replicate elems.length elem)
      .ok (.list elem, eff)) := rfl

theorem term_not_list {ty : Ty} (elems : List Term) (eff : Effect) (h : ∀ elem, ty ≠ .list elem) :
    term config (room + 1) env (.list ty elems eff) = Checked.reject (.notAList ty) := by
  cases ty with
  | list elem => exact absurd rfl (h elem)
  | var | base | option | tuple | arrow => rfl

theorem term_ctor (ty : Ty) (tag : Tag) (args : List Term) (eff : Effect) :
    term config (room + 1) env (.ctor ty tag args eff) = (do
      let fields ← Checked.ofRule (constructorFields ty tag args.length)
      components config room env eff .ctorArg 0 args fields
      .ok (ty, eff)) := rfl

theorem term_cases (ty : Ty) (scrutinee : Term) (branches : List (Pattern × Term)) (eff : Effect) :
    term config (room + 1) env (.cases ty scrutinee branches eff) =
      if branches.isEmpty && config.rejectEmptyMatch then Checked.reject .emptyMatch
      else (do
        let value ← Checked.within .scrutinee (term config room env scrutinee)
        Checked.within .scrutinee (expectWithin value.2 eff)
        cases config room env value.1 ty eff 0 branches
        .ok (ty, eff)) := rfl

theorem term_lambda (ty paramTy : Ty) (param : String) (body : Term) :
    term config (room + 1) env (.lambda ty param paramTy body) = (do
      let result ← Checked.within .lambdaBody (term config room (env.insert param paramTy) body)
      expectInstance (.arrow paramTy result.2 result.1) ty
      .ok (.arrow paramTy result.2 result.1, .pure)) := rfl

theorem term_apply (ty argTy : Ty) (fn arg : Term) (eff : Effect) :
    term config (room + 1) env (.apply ty fn argTy arg eff) = (do
      let fnPart ← Checked.within .applyFn (term config room env fn)
      let argPart ← Checked.within .applyArg (term config room env arg)
      applyParts fnPart argPart ty argTy eff) := rfl

theorem term_letIn (name : String) (boundTy ty : Ty) (bound body : Term) (eff : Effect) :
    term config (room + 1) env (.letIn name boundTy bound body ty eff) = (do
      let boundPart ← Checked.within .letBound (term config room env bound)
      Checked.within .letBound (expectInstance boundPart.1 boundTy)
      let bodyPart ← Checked.within .letBody (term config room (env.insert name boundPart.1) body)
      expectInstance bodyPart.1 ty
      expectWithin (boundPart.2.join bodyPart.2) eff
      .ok (bodyPart.1, eff)) := rfl

theorem term_cond (ty : Ty) (test thenBranch elseBranch : Term) (eff : Effect) :
    term config (room + 1) env (.cond ty test thenBranch elseBranch eff) = (do
      let testPart ← Checked.within .condTest (term config room env test)
      Checked.within .condTest (expectBool testPart.1)
      Checked.within .condTest (expectWithin testPart.2 eff)
      let thenPart ← Checked.within .condThen (term config room env thenBranch)
      let elsePart ← Checked.within .condElse (term config room env elseBranch)
      condParts testPart thenPart elsePart ty eff) := rfl

end Equations

end Check

end EffectTyping
