/-
What the tests on types mean. The checker compares a computed type with a declared one by solving an equation and
looking at the result, and the types of two branches by solving and then matching each of them. Neither test depends
on how equations are solved: the first asks for an instance by a substitution that leaves the variables of the
declared type alone, the second for one substitution that turns both types into the declared one.
-/
import EffectTyping.Proofs.Typing.Judgement
import EffectTyping.Proofs.Typing.Outcome

namespace EffectTyping

/-! ## Variables left alone -/

theorem Subst.apply_eq_self_iff_freeVars {s : Subst} {t : Ty} :
    s.apply t = t ↔ ∀ v ∈ t.freeVars, s.apply (.var v) = .var v := by
  rw [← fixes_iff]
  simp only [Fixes, Ty.mem_freeVars]

/-- The bindings found for an instance leave all other variables alone. -/
theorem Ty.image_instantiation_of_not_mem {general specific : Ty} {w : Subst}
    (h : general.instantiation? specific = some w) {v : TypeVar} (hv : v ∉ general.vars) : w.image v = .var v := by
  have hfree : w.get? v = none := OrderedMap.get?_eq_none_of_not_contains (mt (contains_instantiation h v).1 hv)
  exact Subst.image_of_get?_none hfree

namespace Check

/-! ## Computed and declared types -/

/-- The computed type matches the declared one exactly when it has it as an instance, by bindings that leave the
variables the two types share alone. -/
theorem matchDeclared_iff_instantiation {checked declared : Ty} {u : Unit} :
    matchDeclared checked declared .compared = .ok u ↔ ∃ w, checked.instantiation? declared = some w ∧
      ∀ v ∈ checked.vars, v ∈ declared.vars → w.image v = .var v := by
  rw [matchDeclared_compared_ok_iff]
  constructor
  · rintro ⟨s, hfix, hs⟩
    obtain ⟨w, hw⟩ := Ty.exists_instantiation_iff.2 ⟨s, hs⟩
    refine ⟨w, hw, fun v hv hv' => ?_⟩
    rw [Subst.image_of_get? (Ty.get?_instantiation hw hs hv)]
    exact Subst.apply_eq_self_iff.1 hfix v hv'
  · rintro ⟨w, hw, hshared⟩
    refine ⟨w, ?_, Ty.apply_of_instantiation hw⟩
    rw [Subst.apply_eq_self_iff]
    intro v hv
    by_cases hmem : v ∈ checked.vars
    · exact hshared v hmem hv
    · exact Ty.image_instantiation_of_not_mem hw hmem

theorem generalizes_of_matchDeclared {checked declared : Ty} {u : Unit}
    (h : matchDeclared checked declared .compared = .ok u) : checked.generalizes declared = true := by
  obtain ⟨w, hw, -⟩ := matchDeclared_iff_instantiation.1 h
  exact Ty.generalizes_iff.2 (Ty.exists_instantiation_iff.1 ⟨w, hw⟩)

/-- Between types without a common variable there is nothing to leave alone. -/
theorem matchDeclared_iff_generalizes {checked declared : Ty} {u : Unit}
    (h : ∀ v ∈ checked.vars, v ∉ declared.vars) :
    matchDeclared checked declared .compared = .ok u ↔ checked.generalizes declared = true := by
  refine ⟨generalizes_of_matchDeclared, fun hinst => ?_⟩
  obtain ⟨w, hw⟩ := Ty.exists_instantiation_iff.2 (Ty.generalizes_iff.1 hinst)
  exact matchDeclared_iff_instantiation.2 ⟨w, hw, fun v hv hv' => absurd hv' (h v hv)⟩

/-- A computed type matches a declared one if and only if a substitution that leaves each variable of the declared
type alone turns it into this type; with the outermost effect left out, into a function type with the declared
argument and result. So a match is an instance, and between types without a common variable every instance is a
match. -/
theorem matchDeclared_exact (checked : Ty) :
    (∀ declared, matchDeclared checked declared .compared = .ok () ↔
      ∃ s : Subst, (∀ v ∈ declared.freeVars, s.apply (.var v) = .var v) ∧ s.apply checked = declared) ∧
    (∀ arg e res, matchDeclared checked (.arrow arg e res) .exempt = .ok () ↔
      ∃ (s : Subst) (e' : Effect), (∀ v ∈ arg.freeVars, s.apply (.var v) = .var v) ∧
        (∀ v ∈ res.freeVars, s.apply (.var v) = .var v) ∧ s.apply checked = .arrow arg e' res) ∧
    (∀ declared, matchDeclared checked declared .compared = .ok () → checked.generalizes declared = true) ∧
    ∀ declared, (∀ v ∈ checked.freeVars, v ∉ declared.freeVars) →
      (matchDeclared checked declared .compared = .ok () ↔ checked.generalizes declared = true) := by
  refine ⟨fun declared => ?_, fun arg e res => ?_, fun declared => generalizes_of_matchDeclared,
    fun declared hdisjoint => matchDeclared_iff_generalizes ?_⟩
  · simp only [← Subst.apply_eq_self_iff_freeVars]
    exact matchDeclared_compared_ok_iff
  · simp only [← Subst.apply_eq_self_iff_freeVars]
    exact matchDeclared_exempt_ok_iff
  · simpa only [Ty.mem_freeVars] using hdisjoint

/-- A function on any type matches one on handlers with an effect. A function between different variables has the one
the other way round as an instance and does not match it, since the two types share their variables. -/
theorem matchDeclared_exact_handlers :
    (∀ v ∈ (Ty.pureArrow (.var ⟨0⟩) (.var ⟨0⟩)).freeVars,
      v ∉ (Ty.pureArrow (.arrow (.base .int) .strong (.var ⟨1⟩)) (.arrow (.base .int) .strong (.var ⟨1⟩))).freeVars) ∧
    matchDeclared (.pureArrow (.var ⟨0⟩) (.var ⟨0⟩))
      (.pureArrow (.arrow (.base .int) .strong (.var ⟨1⟩)) (.arrow (.base .int) .strong (.var ⟨1⟩))) .compared = .ok () ∧
    (Ty.pureArrow (.var ⟨0⟩) (.var ⟨1⟩)).generalizes (.pureArrow (.var ⟨1⟩) (.var ⟨0⟩)) = true ∧
    matchDeclared (.pureArrow (.var ⟨0⟩) (.var ⟨1⟩)) (.pureArrow (.var ⟨1⟩) (.var ⟨0⟩)) .compared ≠ .ok () := by
  refine ⟨by decide, ((matchDeclared_exact _).2.2.2 _ (by decide)).2 (by decide), by decide, fun h => ?_⟩
  obtain ⟨s, hfix, hs⟩ := ((matchDeclared_exact _).1 _).1 h
  have hmoved : s.apply (.var ⟨0⟩) = .var ⟨1⟩ := by
    simp only [Ty.pureArrow, Subst.apply, Ty.arrow.injEq] at hs
    exact hs.1
  rw [hfix ⟨0⟩ (by decide)] at hmoved
  cases hmoved

/-! ## Branches -/

/-- The test on the types of two branches: `s` solves the equation between them, and the declared type is an instance
of each of them, solved. -/
def BranchesAgree (s : Subst) (thenTy elseTy ty : Ty) : Prop :=
  solve thenTy elseTy = .ok s ∧ (s.apply thenTy).generalizes ty = true ∧ (s.apply elseTy).generalizes ty = true

theorem exists_branchesAgree_iff {thenTy elseTy ty : Ty} :
    (∃ s, BranchesAgree s thenTy elseTy ty) ↔ ∃ θ : Subst, θ.apply thenTy = ty ∧ θ.apply elseTy = ty := by
  rw [← unify_common_instance_iff]
  simp only [BranchesAgree, solve_ok_iff, Ty.generalizes_iff]

/-- The solver leaves the branches with the effects they have; that both have the same instance makes these equal. -/
theorem BranchesAgree.apply_eq {s : Subst} {thenTy elseTy ty : Ty} (h : BranchesAgree s thenTy elseTy ty) :
    s.apply thenTy = s.apply elseTy := by
  obtain ⟨hsolve, hthen, helse⟩ := h
  obtain ⟨w, hw⟩ := Ty.generalizes_iff.1 hthen
  obtain ⟨w', hw'⟩ := Ty.generalizes_iff.1 helse
  exact eq_of_common_instance (unify_alike (solve_ok_iff.1 hsolve)) hw hw'

theorem generalizes_pair_iff {left right ty : Ty} :
    (Ty.tuple [left, right]).generalizes (.tuple [ty, ty]) = true ↔
      ∃ θ : Subst, θ.apply left = ty ∧ θ.apply right = ty := by
  rw [Ty.generalizes_iff]
  unfold Ty.HasInstance
  simp only [Subst.apply, Subst.applyAll, Ty.tuple.injEq, List.cons.injEq, and_true]

/-- The types of two branches pass the test if and only if one substitution turns both into the declared type, that is,
if the pair of them has the pair of the declared type with itself as an instance. Then the solved types are equal,
effects included, although solving ignores effects. A conditional asks nothing else of these types. -/
theorem branchesAgree_exact (thenTy elseTy ty : Ty) :
    ((∃ s, BranchesAgree s thenTy elseTy ty) ↔ ∃ θ : Subst, θ.apply thenTy = ty ∧ θ.apply elseTy = ty) ∧
    ((∃ s, BranchesAgree s thenTy elseTy ty) ↔
      (Ty.tuple [thenTy, elseTy]).generalizes (.tuple [ty, ty]) = true) ∧
    (∀ s, BranchesAgree s thenTy elseTy ty → s.apply thenTy = s.apply elseTy) ∧
    ∀ (test : Ty × Effect) (thenEff elseEff eff : Effect),
      (∃ out, condParts test (thenTy, thenEff) (elseTy, elseEff) ty eff = .ok out) ↔
        (∃ s, BranchesAgree s thenTy elseTy ty) ∧ thenEff ≤ eff ∧ elseEff ≤ eff := by
  refine ⟨exists_branchesAgree_iff, ?_, fun s => BranchesAgree.apply_eq, fun test thenEff elseEff eff => ?_⟩
  · rw [exists_branchesAgree_iff, generalizes_pair_iff]
  · simp only [condParts_ok_iff, exists_branchesAgree_iff, exists_and_left, exists_eq, and_true]

/-- Two functions that share a variable agree on a common instance. With different effects they agree on no type, although
the equation between them has a solution. -/
theorem branchesAgree_exact_effects :
    (∃ s, BranchesAgree s (.arrow (.var ⟨0⟩) .weak (.base .int)) (.arrow (.base .int) .weak (.var ⟨0⟩))
      (.arrow (.base .int) .weak (.base .int))) ∧
    (∃ s, solve (.arrow (.base .int) .weak (.var ⟨0⟩)) (.pureArrow (.var ⟨0⟩) (.base .int)) = .ok s) ∧
    ∀ s ty, ¬ BranchesAgree s (.arrow (.base .int) .weak (.var ⟨0⟩)) (.pureArrow (.var ⟨0⟩) (.base .int)) ty := by
  refine ⟨((branchesAgree_exact _ _ _).2.1).2 (by decide), ?_, fun s ty h => ?_⟩
  · obtain ⟨s, hs⟩ := exists_unify (θ := .singleton ⟨0⟩ (.base .int)) (a := .arrow (.base .int) .weak (.var ⟨0⟩))
      (b := .pureArrow (.var ⟨0⟩) (.base .int)) (by decide)
    exact ⟨s, solve_ok_iff.2 hs⟩
  · have heq := (branchesAgree_exact _ _ _).2.2.1 s h
    simp [Ty.pureArrow, Subst.apply] at heq

end Check

end EffectTyping
