/-
Relaxing the configuration. A limit on the depth that is not lower, and no new ban of matches without branches, can
turn a verdict into another only if that verdict is about the depth or about such a match. Two runs of the checker go
in step, node by node, until the stricter one meets what its configuration forbids.
-/
import EffectTyping.Proofs.Term
import EffectTyping.Proofs.Typing.Accepted

namespace EffectTyping

/-- The rejections that depend on the configuration. -/
inductive Rejection.OfConfig : Rejection → Prop
  | depth (limit : Nat) : OfConfig (.depthLimitExceeded limit)
  | emptyMatch : OfConfig .emptyMatch

/-- All that the first configuration allows is allowed by the second one. -/
structure Config.Relaxes (strict lax : Config) : Prop where
  depth : strict.maxDepth ≤ lax.maxDepth
  emptyMatch : lax.rejectEmptyMatch = true → strict.rejectEmptyMatch = true

/-! ## Two runs in step -/

namespace Checked

variable {α β : Type}

/-- The outcomes of two runs, of which the second may differ only where the configuration stopped the first. -/
def Kept (x y : Checked α) : Prop :=
  y = x ∨ ∃ path reason, x = .error ⟨path, .rejected reason⟩ ∧ reason.OfConfig

theorem Kept.refl (x : Checked α) : Kept x x := .inl rfl

theorem kept_reject {reason : Rejection} (h : reason.OfConfig) (y : Checked α) : Kept (reject reason) y :=
  .inr ⟨.root, reason, rfl, h⟩

theorem Kept.within {x y : Checked α} (h : Kept x y) (step : Step) :
    Kept (Checked.within step x) (Checked.within step y) := by
  obtain rfl | ⟨path, reason, rfl, hreason⟩ := h
  · exact .refl _
  · exact .inr ⟨path.within step, reason, rfl, hreason⟩

theorem Kept.bind {x y : Checked α} {f g : α → Checked β} (h : Kept x y) (hf : ∀ a, Kept (f a) (g a)) :
    Kept (x >>= f) (y >>= g) := by
  obtain rfl | ⟨path, reason, rfl, hreason⟩ := h
  · cases y with
    | ok a => exact hf a
    | error e => exact .refl _
  · exact .inr ⟨path, reason, rfl, hreason⟩

/-- A check that both runs make alike. -/
theorem Kept.after (x : Checked α) {f g : α → Checked β} (hf : ∀ a, Kept (f a) (g a)) : Kept (x >>= f) (x >>= g) :=
  (Kept.refl x).bind hf

end Checked

open Checked

namespace Check

/-- The verdict on the term is kept, wherever it is checked and with whatever room is left. -/
def KeepsVerdict (strict lax : Config) (t : Term) : Prop := ∀ (room room' : Nat) (env : Env), room ≤ room' →
  Kept (term strict room env t) (term lax room' env t)

variable {strict lax : Config}

/-- Without room the stricter run stops, and with room the other run has some too. -/
theorem keepsVerdict_of_room {t : Term} (h : ∀ (room room' : Nat) (env : Env), room ≤ room' →
    Kept (term strict (room + 1) env t) (term lax (room' + 1) env t)) : KeepsVerdict strict lax t := by
  intro room room' env hle
  cases room with
  | zero =>
    rw [term_zero]
    exact kept_reject (.depth _) _
  | succ room =>
    obtain ⟨k, rfl⟩ : ∃ k, room' = k + 1 := ⟨room' - 1, by omega⟩
    exact h room k env (by omega)

theorem components_kept {room room' : Nat} (hle : room ≤ room') {env : Env} {ceiling : Effect} {step : Nat → Step}
    {ts : List Term} (hts : ∀ t ∈ ts, KeepsVerdict strict lax t) (i : Nat) (tys : List Ty) :
    Kept (components strict room env ceiling step i ts tys) (components lax room' env ceiling step i ts tys) := by
  induction ts generalizing i tys with
  | nil => simp only [components]; exact .refl _
  | cons t ts ih =>
    obtain ⟨ht, hts⟩ := List.forall_mem_cons.1 hts
    cases tys with
    | nil => simp only [components]; exact .refl _
    | cons ty tys =>
      simp only [components]
      refine ((ht room room' env hle).within _).bind fun part => ?_
      exact .after _ fun _ => ih hts (i + 1) tys

theorem cases_kept {room room' : Nat} (hle : room ≤ room') {env : Env} {valueTy ty : Ty} {ceiling : Effect}
    {branches : List (Pattern × Term)} (hbranches : ∀ b ∈ branches, KeepsVerdict strict lax b.2) (i : Nat) :
    Kept (cases strict room env valueTy ty ceiling i branches)
      (cases lax room' env valueTy ty ceiling i branches) := by
  induction branches generalizing i with
  | nil => simp only [cases]; exact .refl _
  | cons branch rest ih =>
    obtain ⟨pattern, body⟩ := branch
    obtain ⟨hbody, hrest⟩ := List.forall_mem_cons.1 hbranches
    simp only [cases]
    refine .after _ fun bindings => ?_
    refine ((hbody room room' _ hle).within _).bind fun part => ?_
    exact .after _ fun _ => ih hrest (i + 1)

/-- A match without branches is left to the configuration; the other matches go on in both runs. -/
theorem cases_kept_of_guard (h : strict.Relaxes lax) {branches : List (Pattern × Term)} {α : Type}
    {x y : Checked α} (hxy : Kept x y) :
    Kept (if branches.isEmpty && strict.rejectEmptyMatch then reject .emptyMatch else x)
      (if branches.isEmpty && lax.rejectEmptyMatch then reject .emptyMatch else y) := by
  by_cases hstrict : (branches.isEmpty && strict.rejectEmptyMatch) = true
  · rw [if_pos hstrict]
    exact kept_reject .emptyMatch _
  · have hlax : ¬ (branches.isEmpty && lax.rejectEmptyMatch) = true := by
      intro hlax
      rw [Bool.and_eq_true] at hlax
      exact hstrict (by rw [hlax.1, h.emptyMatch hlax.2]; rfl)
    rw [if_neg hstrict, if_neg hlax]
    exact hxy

theorem keepsVerdict (h : strict.Relaxes lax) (t : Term) : KeepsVerdict strict lax t := by
  induction t using Term.induct <;> refine keepsVerdict_of_room fun room room' env hle => ?_
  case lit l => exact .refl _
  case var ty name =>
    cases hfound : env.get? name with
    | none => rw [term_var_unknown _ _ _ hfound, term_var_unknown _ _ _ hfound]; exact .refl _
    | some found => rw [term_var_found _ _ _ hfound, term_var_found _ _ _ hfound]; exact .refl _
  case list ty elems eff ih =>
    by_cases hty : ∃ elem, ty = .list elem
    · obtain ⟨elem, rfl⟩ := hty
      rw [term_list, term_list]
      exact (components_kept hle ih 0 _).bind fun _ => .refl _
    · rw [term_not_list _ _ _ _ _ (not_exists.1 hty), term_not_list _ _ _ _ _ (not_exists.1 hty)]
      exact .refl _
  case ctor ty tag args eff ih =>
    rw [term_ctor, term_ctor]
    refine .after _ fun fields => ?_
    exact (components_kept hle ih 0 fields).bind fun _ => .refl _
  case cases ty scrutinee branches eff ih ihs =>
    rw [term_cases, term_cases]
    refine cases_kept_of_guard h ?_
    refine ((ih room room' env hle).within _).bind fun value => ?_
    refine .after _ fun _ => ?_
    exact (cases_kept hle ihs 0).bind fun _ => .refl _
  case lambda ty param paramTy body ih =>
    rw [term_lambda, term_lambda]
    exact ((ih room room' _ hle).within _).bind fun result => .refl _
  case apply ty fn argTy arg eff ihfn iharg =>
    rw [term_apply, term_apply]
    refine ((ihfn room room' env hle).within _).bind fun fnPart => ?_
    exact ((iharg room room' env hle).within _).bind fun argPart => .refl _
  case letIn name boundTy bound body ty eff ihbound ihbody =>
    rw [term_letIn, term_letIn]
    refine ((ihbound room room' env hle).within _).bind fun boundPart => ?_
    refine .after _ fun _ => ?_
    exact ((ihbody room room' _ hle).within _).bind fun bodyPart => .refl _
  case cond ty test thenBranch elseBranch eff ih ihthen ihelse =>
    rw [term_cond, term_cond]
    refine ((ih room room' env hle).within _).bind fun testPart => ?_
    refine .after _ fun _ => .after _ fun _ => ?_
    refine ((ihthen room room' env hle).within _).bind fun thenPart => ?_
    exact ((ihelse room room' env hle).within _).bind fun elsePart => .refl _

end Check

/-- Under a configuration that allows more, the verdict on a term is the same, down to the path and the reason of a
failure, unless the stricter configuration rejects the term for its depth or for a match without branches. -/
theorem Term.check_relaxed (strict lax : Config) (hdepth : strict.maxDepth ≤ lax.maxDepth)
    (hempty : lax.rejectEmptyMatch = true → strict.rejectEmptyMatch = true) (env : Env) (t : Term)
    (h : ∀ path reason, t.check strict env = .error ⟨path, .rejected reason⟩ →
      reason ≠ .emptyMatch ∧ ∀ limit, reason ≠ .depthLimitExceeded limit) :
    t.check lax env = t.check strict env := by
  have hkept := Check.keepsVerdict ⟨hdepth, hempty⟩ t strict.maxDepth lax.maxDepth env hdepth
  obtain hsame | ⟨path, reason, hfail, hreason⟩ := hkept
  · exact hsame
  · obtain ⟨hne, hlimit⟩ := h path reason hfail
    cases hreason with
    | depth limit => exact absurd rfl (hlimit limit)
    | emptyMatch => exact absurd rfl hne

/-- With just enough room one term is accepted and another one rejected for an unknown name; more room, and leave for
matches without branches, change neither verdict. -/
theorem putOff_check_relaxed :
    putOff.check ⟨4, true⟩ sampleScope = .ok (.base .int, .pure) ∧
    putOff.check ⟨512, false⟩ sampleScope = .ok (.base .int, .pure) ∧
    keepCall.check ⟨2, true⟩ .empty = .error ⟨⟨[.applyFn]⟩, .rejected (.unknownVariable "keep")⟩ ∧
    keepCall.check ⟨512, false⟩ .empty = .error ⟨⟨[.applyFn]⟩, .rejected (.unknownVariable "keep")⟩ := by
  have htyped : HasType true sampleScope putOff (.base .int) .pure :=
    ((Check.adequate {} putOff 512 sampleScope (.base .int) .pure).1 putOff_accepted).2
  have hok : putOff.check ⟨4, true⟩ sampleScope = .ok (.base .int, .pure) :=
    (Check.adequate ⟨4, true⟩ putOff 4 sampleScope (.base .int) .pure).2 ⟨by decide, htyped⟩
  have hfail : keepCall.check ⟨2, true⟩ .empty = .error ⟨⟨[.applyFn]⟩, .rejected (.unknownVariable "keep")⟩ := by rfl
  refine ⟨hok, ?_, hfail, ?_⟩
  · rw [← hok]
    refine Term.check_relaxed ⟨4, true⟩ ⟨512, false⟩ (by decide) (by decide) sampleScope putOff ?_
    intro path reason h
    rw [hok] at h
    cases h
  · rw [← hfail]
    refine Term.check_relaxed ⟨2, true⟩ ⟨512, false⟩ (by decide) (by decide) .empty keepCall ?_
    intro path reason h
    rw [hfail] at h
    cases h
    exact ⟨by simp, by simp⟩

end EffectTyping
