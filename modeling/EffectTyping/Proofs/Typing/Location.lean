/-
Failures are where they are said to be. A failure of the checker is one of a rule on the term itself, on a subterm
or on a part of the pattern of a branch, seen from the root through the steps that lead there; so its path can be
followed, and a report shows the subterm at its end: its whole text, or the first characters of a long one.
-/
import EffectTyping.Proofs.Typing.Failures
import EffectTyping.Report

namespace EffectTyping

open Checked

/-! ## Where failures arise -/

/-- The pattern of a branch, if the term is a match with so many branches. -/
def Term.branchPattern? : Term → Nat → Option Pattern
  | .cases _ _ branches _, i => branches[i]?.map (·.1)
  | _, _ => none

namespace Failure

/-- The failures of rules on a pattern and on its parts. -/
inductive OfPattern : Pattern → Failure → Prop
  | here (p : Pattern) (reason : Rejection) : OfPattern p ⟨.root, .rejected reason⟩
  | part {p q : Pattern} {step : Step} {f : Failure} :
      p.child? step = some q → OfPattern q f → OfPattern p (f.within step)

/-- The failures of rules on a term, on its subterms and on the patterns in it. -/
inductive OfTerm : Term → Failure → Prop
  | here (t : Term) (reason : Rejection) : OfTerm t ⟨.root, .rejected reason⟩
  | part {t u : Term} {step : Step} {f : Failure} :
      t.child? step = some u → OfTerm u f → OfTerm t (f.within step)
  | pattern {t : Term} {i : Nat} {p : Pattern} {f : Failure} :
      t.branchPattern? i = some p → OfPattern p f → OfTerm t (f.within (.branchPattern i))

theorem OfPattern.coversRules (p : Pattern) : CoversRules (OfPattern p) := fun reason _ => .here p reason

theorem OfTerm.coversRules (t : Term) : CoversRules (OfTerm t) := fun reason _ => .here t reason

/-- The failures of the checker are such failures, whatever room it has. -/
theorem OfTerm.coversTerms (config : Config) : CoversTerms config fun _ t => OfTerm t where
  room t := .here t _
  unknown _ ty name := .here (.var ty name) _
  rules _ t := OfTerm.coversRules t
  part := .part
  pattern {room ty valueTy scrutinee branches eff i p body f} hbranch hf := by
    have hpattern : (Term.cases ty scrutinee branches eff).branchPattern? i = some p := by
      rw [Term.branchPattern?, hbranch]; rfl
    exact .pattern hpattern (p.check_failsOnly OfPattern.coversRules (fun p _ => .here p _) .part valueTy f hf)

end Failure

open Failure

namespace Check

/-- All failures of the checker on the term are failures of rules on its parts. -/
def Traced (config : Config) (t : Term) : Prop := ∀ (room : Nat) (env : Env),
  FailsOnly (OfTerm t) (term config room env t)

theorem traced (config : Config) (t : Term) : Traced config t := (OfTerm.coversTerms config).failsOnly t

end Check

/-! ## Following the path of a failure -/

theorem Pattern.at?_cons (p : Pattern) (step : Step) (steps : List Step) :
    p.at? (step :: steps) = (p.child? step).bind (·.at? steps) := rfl

theorem Pattern.eq_subpattern_of_child? {p q : Pattern} {step : Step} (h : p.child? step = some q) :
    ∃ j, step = .subpattern j := by
  unfold Pattern.child? at h
  split at h
  · exact ⟨_, rfl⟩
  · cases h

theorem Path.termSteps_within (p : Path) (step : Step) :
    (p.within step).termSteps = if step.isPattern then [] else step :: p.termSteps := by
  unfold Path.termSteps Path.within
  rw [List.takeWhile_cons]
  cases step.isPattern <;> rfl

namespace Failure

theorem OfPattern.at?_isSome {p : Pattern} {f : Failure} (h : OfPattern p f) : (p.at? f.path.steps).isSome := by
  induction h with
  | here p reason => rfl
  | part hchild _ ih =>
    change (Pattern.at? _ (_ :: _)).isSome
    rw [Pattern.at?_cons, hchild]; exact ih

theorem OfPattern.subpatterns {p : Pattern} {f : Failure} (h : OfPattern p f) :
    ∀ step ∈ f.path.steps, ∃ j, step = .subpattern j := by
  induction h with
  | here p reason => exact List.forall_mem_nil _
  | part hchild _ ih => exact List.forall_mem_cons.2 ⟨Pattern.eq_subpattern_of_child? hchild, ih⟩

theorem OfPattern.rejected {p : Pattern} {f : Failure} (h : OfPattern p f) :
    ∃ reason, f.cause = .rejected reason := by
  induction h with
  | here p reason => exact ⟨reason, rfl⟩
  | part _ _ ih => exact ih

theorem OfTerm.rejected {t : Term} {f : Failure} (h : OfTerm t f) : ∃ reason, f.cause = .rejected reason := by
  induction h with
  | here t reason => exact ⟨reason, rfl⟩
  | part _ _ ih => exact ih
  | pattern _ hf => exact hf.rejected

/-- The steps before the first one into a pattern lead to a subterm. If there are more, they lead into the pattern
of one of its branches. -/
theorem OfTerm.resolves {t : Term} {f : Failure} (h : OfTerm t f) : ∃ u, t.at? f.path.termSteps = some u ∧
    (f.path.steps = f.path.termSteps ∨ ∃ i p g, u.branchPattern? i = some p ∧ OfPattern p g ∧
      f.path.steps = f.path.termSteps ++ .branchPattern i :: g.path.steps) := by
  induction h with
  | here t reason => exact ⟨t, rfl, .inl rfl⟩
  | @part t v step f hchild _ ih =>
    obtain ⟨u, hu, hsteps⟩ := ih
    have hterm : (f.within step).path.termSteps = step :: f.path.termSteps := by
      rw [Failure.within, Path.termSteps_within, Term.isPattern_of_child? hchild]; rfl
    have hall : (f.within step).path.steps = step :: f.path.steps := rfl
    rw [hterm, hall, Term.at?_cons, hchild]
    refine ⟨u, hu, ?_⟩
    rcases hsteps with hsteps | ⟨i, p, g, hp, hg, hsteps⟩
    · exact .inl (by rw [hsteps])
    · exact .inr ⟨i, p, g, hp, hg, by rw [hsteps, List.cons_append]⟩
  | @pattern t i p g hp hg => exact ⟨t, rfl, .inr ⟨i, p, g, hp, hg, rfl⟩⟩

end Failure

/-- A text up to the limit is shown whole, and of a longer one the first characters, as many as the limit, with dots
after them. -/
theorem Report.truncate_keeps (limit : Nat) (text : String) :
    (text.length ≤ limit → truncate limit text = text) ∧
      (limit < text.length → ∃ kept rest, text = kept ++ rest ∧ kept.length = limit ∧
        truncate limit text = kept ++ "...") := by
  unfold truncate
  dsimp only
  rw [String.length_toList]
  constructor
  · exact fun hshort => if_neg (Nat.not_lt.2 hshort)
  · intro hlong
    refine ⟨.ofList (text.toList.take limit), .ofList (text.toList.drop limit), ?_, ?_, if_pos hlong⟩
    · rw [← String.ofList_append, List.take_append_drop, String.ofList_toList]
    · rw [String.length_ofList, List.length_take, String.length_toList, Nat.min_eq_left (Nat.le_of_lt hlong)]

/-- The path of a failed check can be followed: the steps up to the first one into a pattern lead to a subterm, that
one leads into the pattern of a branch of this subterm, and the others to a part of the pattern. The report on the
check shows the subterm. -/
theorem Term.check_error_located (config : Config) (env : Env) (t : Term) (f : Failure)
    (h : t.check config env = .error f) :
    ∃ u reason, t.at? f.path.termSteps = some u ∧
      ((∃ step ∈ f.path.steps, step.isPattern = true) → ∃ i p rest,
        f.path.steps = f.path.termSteps ++ .branchPattern i :: rest ∧ u.branchPattern? i = some p ∧
        (∀ step ∈ rest, ∃ j, step = .subpattern j) ∧ (p.at? rest).isSome) ∧
      Report.ofCheck t (t.check config env) =
        .rejected f.path reason (some (Report.truncate Report.maxSubtermLength u.render)) t.fingerprint := by
  have hf : OfTerm t f := Check.traced config t config.maxDepth env f h
  obtain ⟨reason, hreason⟩ := hf.rejected
  obtain ⟨u, hu, hsteps⟩ := hf.resolves
  refine ⟨u, reason, hu, ?_, ?_⟩
  · rintro ⟨step, hmem, hpattern⟩
    rcases hsteps with hsteps | ⟨i, p, g, hp, hg, hsteps⟩
    · rw [hsteps] at hmem
      have hterm := List.all_eq_true.1 List.all_takeWhile step hmem
      rw [hpattern] at hterm; cases hterm
    · exact ⟨i, p, g.path.steps, hsteps, hp, hg.subpatterns, hg.at?_isSome⟩
  · obtain ⟨path, cause⟩ := f
    cases hreason
    rw [h, Report.ofCheck, hu]; rfl

/-- A match in the body of a let, whose pattern takes a number for an option. -/
def mismatchedPart : Term :=
  .letIn "x" (.base .unit) (.lit .unit)
    (.cases (.base .int) (.tuple (.tuple [.base .int, .base .int]) [.lit (.int 1), .lit (.int 2)] .pure)
      [(.tuple (.tuple [.base .int, .base .int]) [.var "a", .noneOf (.option (.base .int))], .lit (.int 0))] .pure)
    (.base .int) .pure

theorem check_mismatchedPart_located :
    mismatchedPart.check {} .empty = .error ⟨⟨[.letBody, .branchPattern 0, .subpattern 1]⟩,
      .rejected (.patternIncompatible (.option (.base .int)) (.base .int))⟩ ∧
    ∃ u p reason, mismatchedPart.at? [.letBody] = some u ∧ u.branchPattern? 0 = some p ∧
      (p.at? [.subpattern 1]).isSome ∧ Report.ofCheck mismatchedPart (mismatchedPart.check {} .empty) =
        .rejected ⟨[.letBody, .branchPattern 0, .subpattern 1]⟩ reason
          (some "(match (1, 2) with (a, None) -> 0)") mismatchedPart.fingerprint := by
  have h : mismatchedPart.check {} .empty = .error ⟨⟨[.letBody, .branchPattern 0, .subpattern 1]⟩,
      .rejected (.patternIncompatible (.option (.base .int)) (.base .int))⟩ := by rfl
  obtain ⟨u, reason, hu, hpattern, hreport⟩ := Term.check_error_located {} .empty mismatchedPart _ h
  obtain ⟨i, p, rest, hsteps, hp, -, hpart⟩ := hpattern ⟨.branchPattern 0, by simp, rfl⟩
  cases hsteps
  refine ⟨h, u, p, reason, hu, hp, hpart, ?_⟩
  have htext : u.render = "(match (1, 2) with (a, None) -> 0)" := by
    cases hu
    rfl
  rw [hreport, htext, (Report.truncate_keeps _ _).1 (by decide)]

end EffectTyping
