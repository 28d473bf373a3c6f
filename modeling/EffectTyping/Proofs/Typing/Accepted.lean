/-
What acceptance of a term says about all of its subterms: each has been checked, what it declares is borne out by what
was found for it, and effects flow upwards to the root except out of the bodies of functions. A term that is accepted
as pure has no effect outside of these, and calls nothing that has one.
-/
import EffectTyping.Proofs.Typing.Calls

namespace EffectTyping

/-! ## A pure term that puts an effect off -/

/-- The rule for applications where the type of the function shows the effect of the call. -/
theorem HasType.apply_arrow {strict : Bool} {env : Env} {ty argTy a r foundTy : Ty} {fn arg : Term}
    {eff fnEff argEff l : Effect} (hfn : HasType strict env fn (.arrow a l r) fnEff)
    (harg : HasType strict env arg foundTy argEff) (hpure : fnEff = .pure ∨ argEff = .pure)
    (hs : ∃ s : Subst, s.Fixes argTy ∧ s.Fixes ty ∧ s.apply a = argTy ∧ s.apply r = ty)
    (hs' : ∃ s : Subst, s.Fixes argTy ∧ s.apply foundTy = argTy) (hle : (l.join fnEff).join argEff ≤ eff) :
    HasType strict env (.apply ty fn argTy arg eff) ty ((l.join fnEff).join argEff) := by
  obtain ⟨s, hfixArg, hfix, ha, hr⟩ := hs
  refine .apply hfn harg hpure ⟨s, l, hfixArg, hfix, by rw [Subst.apply, ha, hr]⟩ hs' ?_ ?_ hle
  · intro a' l' r' h; cases h; rfl
  · intro h; exact absurd rfl (h a l r)

/-- A function with a strong effect, and one that gives its argument back. -/
def sampleScope : Env :=
  .ofList [("act", .arrow (.base .int) .strong (.base .int)), ("keep", .pureArrow (.var ⟨0⟩) (.var ⟨0⟩))]

/-- The call with the strong effect. -/
def actCall : Term :=
  .apply (.base .int) (.var (.arrow (.base .int) .strong (.base .int)) "act") (.base .int) (.var (.base .int) "x")
    .strong

/-- A call without effect of a function that is used at an instance of its type. -/
def keepCall : Term :=
  .apply (.base .int) (.var (.pureArrow (.base .int) (.base .int)) "keep") (.base .int) (.lit (.int 1)) .pure

/-- Names a function with an effect and does not call it. -/
def putOff : Term :=
  .letIn "later" (.arrow (.base .int) .strong (.base .int))
    (.lambda (.arrow (.base .int) .strong (.base .int)) "x" (.base .int) actCall) keepCall (.base .int) .pure

theorem actCall_hasType :
    HasType true (sampleScope.insert "x" (.base .int)) actCall (.base .int) ((Effect.strong.join .pure).join .pure) := by
  have hfn : HasType true (sampleScope.insert "x" (.base .int)) (.var (.arrow (.base .int) .strong (.base .int)) "act")
      (.arrow (.base .int) .strong (.base .int)) .pure := .var rfl (.refl _)
  have harg : HasType true (sampleScope.insert "x" (.base .int)) (.var (.base .int) "x") (.base .int) .pure :=
    .var rfl (.refl _)
  exact hfn.apply_arrow harg (.inl rfl) ⟨.empty, nofun, nofun, rfl, rfl⟩ ⟨.empty, nofun, rfl⟩ rfl

theorem keepCall_hasType (ty : Ty) :
    HasType true (sampleScope.insert "later" ty) keepCall (.base .int) ((Effect.pure.join .pure).join .pure) := by
  have hfn : HasType true (sampleScope.insert "later" ty) (.var (.pureArrow (.base .int) (.base .int)) "keep")
      (.pureArrow (.var ⟨0⟩) (.var ⟨0⟩)) .pure := .var rfl ⟨.singleton ⟨0⟩ (.base .int), rfl⟩
  have harg : HasType true (sampleScope.insert "later" ty) (.lit (.int 1)) (.base .int) .pure := .lit _ _
  exact hfn.apply_arrow harg (.inl rfl) ⟨.singleton ⟨0⟩ (.base .int), nofun, nofun, rfl, rfl⟩ ⟨.empty, nofun, rfl⟩ rfl

theorem putOff_accepted : putOff.check {} sampleScope = .ok (.base .int, .pure) := by
  have hbound : HasType true sampleScope
      (.lambda (.arrow (.base .int) .strong (.base .int)) "x" (.base .int) actCall)
      (.arrow (.base .int) .strong (.base .int)) .pure := .lambda actCall_hasType (.refl _)
  have hput : HasType true sampleScope putOff (.base .int) .pure :=
    .letIn hbound (.refl _) (keepCall_hasType _) (.refl _) rfl
  exact (Check.adequate {} putOff 512 sampleScope (.base .int) .pure).2 ⟨by decide, hput⟩

/-! ## Accepted terms -/

/-- If a term is accepted, then every subterm has been checked, its declared type is an instance of the type found for
it, and the effect found for it is below the declared one. -/
theorem Term.check_annotations_right (config : Config) (env : Env) (t : Term) (out : Ty × Effect)
    (h : t.check config env = .ok out) (p : List Step) (u : Term) (hu : t.at? p = some u) :
    ∃ found, t.Finds config env p u found ∧ found.1.generalizes u.ty = true ∧ found.2 ≤ u.eff := by
  obtain ⟨found, hfound, -⟩ := (finds_root h).below hu
  obtain ⟨hinst, hle⟩ := hfound.declared
  exact ⟨found, hfound, Ty.generalizes_iff.2 hinst, hle⟩

theorem putOff_annotations_right :
    putOff.check {} sampleScope = .ok (.base .int, .pure) ∧
    putOff.at? [.letBound, .lambdaBody] = some actCall ∧
    ∃ found, putOff.Finds {} sampleScope [.letBound, .lambdaBody] actCall found ∧
      found.1.generalizes (.base .int) = true ∧ found.2 ≤ .strong :=
  ⟨putOff_accepted, rfl,
    Term.check_annotations_right {} sampleScope putOff _ putOff_accepted [.letBound, .lambdaBody] actCall rfl⟩

/-- If a term is accepted, then the effect found for a subterm is below that found for every subterm around it with no
function between them, and the effect of the function called in an application is below that of the application. So
if the term is pure, all of its subterms outside of functions are, and what they call is pure or of unknown type. -/
theorem Term.check_effects_flow_up (config : Config) (env : Env) (t : Term) (ty : Ty) (eff : Effect)
    (h : t.check config env = .ok (ty, eff)) :
    (∀ p q v, t.at? (p ++ q) = some v → .lambdaBody ∉ q → ∃ u outer inner, t.at? p = some u ∧
      t.Finds config env p u outer ∧ t.Finds config env (p ++ q) v inner ∧ inner.2 ≤ outer.2) ∧
    (∀ p rt fn argTy arg ceff, t.at? p = some (.apply rt fn argTy arg ceff) → ∃ call fnTy fnEff,
      t.Finds config env p (.apply rt fn argTy arg ceff) call ∧
      t.Finds config env (p ++ [.applyFn]) fn (fnTy, fnEff) ∧ ∀ a l r, fnTy = .arrow a l r → l ≤ call.2) ∧
    (eff = .pure → ∀ p u, t.at? p = some u → .lambdaBody ∉ p →
      (∃ uTy, t.Finds config env p u (uTy, .pure)) ∧
      ∀ rt fn argTy arg ceff, u = .apply rt fn argTy arg ceff → ∃ fnTy fnEff,
        t.Finds config env (p ++ [.applyFn]) fn (fnTy, fnEff) ∧
        ((∃ v, fnTy = .var v) ∨ ∃ a r, fnTy = .arrow a .pure r)) := by
  refine ⟨fun p q v hv hq => ?_, fun p rt fn argTy arg ceff hu => ?_, fun heff p u hu hp => ?_⟩
  · rw [at?_append] at hv
    obtain ⟨u, hu, hv⟩ := Option.bind_eq_some_iff.1 hv
    obtain ⟨outer, houter, -⟩ := (finds_root h).below hu
    obtain ⟨inner, hinner, hle⟩ := houter.below hv
    exact ⟨u, outer, inner, hu, houter, hinner, hle hq⟩
  · obtain ⟨call, hcall, -⟩ := (finds_root h).below hu
    obtain ⟨fnTy, fnEff, hfn, hlatent⟩ := hcall.function
    refine ⟨call, fnTy, fnEff, hcall, hfn, ?_⟩
    rintro a l r rfl
    obtain ⟨v, hvar⟩ | ⟨a', l', r', harrow, hle⟩ := hlatent
    · cases hvar
    · cases harrow; exact hle
  · obtain ⟨⟨uTy, uEff⟩, hfound, hle⟩ := (finds_root h).below hu
    obtain rfl : uEff = .pure := Effect.le_pure_iff.1 (heff ▸ hle hp)
    refine ⟨⟨uTy, hfound⟩, ?_⟩
    rintro rt fn argTy arg ceff rfl
    obtain ⟨fnTy, fnEff, hfn, hvar | ⟨a, l, r, rfl, hl⟩⟩ := hfound.function
    · exact ⟨fnTy, fnEff, hfn, .inl hvar⟩
    · obtain rfl := Effect.le_pure_iff.1 hl
      exact ⟨_, fnEff, hfn, .inr ⟨a, r, rfl⟩⟩

theorem putOff_effects_flow_up :
    putOff.check {} sampleScope = .ok (.base .int, .pure) ∧
    (∃ outer inner, putOff.Finds {} sampleScope [.letBody] keepCall outer ∧
      putOff.Finds {} sampleScope [.letBody, .applyArg] (.lit (.int 1)) inner ∧ inner.2 ≤ outer.2) ∧
    (∃ call fnTy fnEff, putOff.Finds {} sampleScope [.letBound, .lambdaBody] actCall call ∧
      putOff.Finds {} sampleScope [.letBound, .lambdaBody, .applyFn]
        (.var (.arrow (.base .int) .strong (.base .int)) "act") (fnTy, fnEff) ∧
      ∀ a l r, fnTy = .arrow a l r → l ≤ call.2) ∧
    (∃ ty, putOff.Finds {} sampleScope [.letBody] keepCall (ty, .pure)) := by
  obtain ⟨hup, hcalls, hpure⟩ :=
    Term.check_effects_flow_up {} sampleScope putOff (.base .int) .pure putOff_accepted
  obtain ⟨u, outer, inner, hu, houter, hinner, hle⟩ := hup [.letBody] [.applyArg] (.lit (.int 1)) rfl (by decide)
  cases hu
  exact ⟨putOff_accepted, ⟨outer, inner, houter, hinner, hle⟩,
    hcalls [.letBound, .lambdaBody] _ _ _ _ _ rfl, (hpure rfl [.letBody] keepCall rfl (by decide)).1⟩

end EffectTyping
