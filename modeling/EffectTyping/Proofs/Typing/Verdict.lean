/-
Verdicts on checked terms. The checker tests every solution it is given, and as the solver is sound the test never
fails; so no check ends in a fault of the checker itself. The verdict on a term that has been checked is accepted or
rejected, and its exit code tells which.
-/
import EffectTyping.Proofs.Typing.Location

namespace EffectTyping

/-! ## Faults -/

/-- Solving with a test of the solution is solving: the only failure is that there is no solution. -/
theorem Check.solve_eq_mapError (left right : Ty) :
    Check.solve left right =
      (unify left right).mapError fun source => ⟨.root, .rejected (.unsatisfiable left right source)⟩ := by
  unfold Check.solve
  cases h : unify left right with
  | error source => rfl
  | ok σ =>
    have halike := unify_alike h
    simp only [halike, if_true]
    rfl

/-- A failed check is a fault of the term. -/
theorem Term.rejected_of_check_error {config : Config} {env : Env} {t : Term} {f : Failure}
    (h : t.check config env = .error f) : ∃ reason, f = ⟨f.path, .rejected reason⟩ := by
  have hf : Failure.OfTerm t f := Check.traced config t config.maxDepth env f h
  obtain ⟨reason, hreason⟩ := hf.rejected
  exact ⟨reason, by rw [← hreason]⟩

/-! ## Exit codes -/

/-- The solutions the checker works with equate their sides up to latent effects, so that its test of them changes
nothing and no check ends in a fault. The report on a check has exit code 0 if the term is accepted and 1 if it is
not, never 2. -/
theorem Term.check_faultless (config : Config) (env : Env) (t : Term) :
    (∀ left right σ, unify left right = .ok σ → (σ.apply left).eraseEffects = (σ.apply right).eraseEffects) ∧
    (∀ left right, Check.solve left right =
      (unify left right).mapError fun source => ⟨.root, .rejected (.unsatisfiable left right source)⟩) ∧
    (∀ path message, t.check config env ≠ .error ⟨path, .invariant message⟩) ∧
    ((Report.ofCheck t (t.check config env)).exitCode = 0 ↔ ∃ out, t.check config env = .ok out) ∧
    ((Report.ofCheck t (t.check config env)).exitCode = 1 ↔ ∃ f, t.check config env = .error f) ∧
    (Report.ofCheck t (t.check config env)).exitCode ≠ 2 := by
  refine ⟨fun left right σ => unify_alike, Check.solve_eq_mapError, fun path message h => ?_, ?_⟩
  · obtain ⟨reason, hf⟩ := rejected_of_check_error h
    cases hf
  · cases h : t.check config env with
    | ok out =>
      obtain ⟨ty, eff⟩ := out
      simp [Report.ofCheck, Report.exitCode]
    | error f =>
      obtain ⟨reason, hf⟩ := rejected_of_check_error h
      rw [hf]
      simp [Report.ofCheck, Report.exitCode]

end EffectTyping
