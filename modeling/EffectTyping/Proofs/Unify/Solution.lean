/-
Solutions of pending equations, and what one step of the solver does to them. A solution in a view of types
absorbs the bindings made so far and equates both sides of every pending equation. Taking an equation apart or
binding a variable loses no solution in any view; up to latent effects it gains none, and an equation the solver
gives up on has none.
-/
import EffectTyping.Proofs.Subst
import EffectTyping.Unify.Basic

namespace EffectTyping

/-! ## What an equation asks for -/

/-- The outermost constructor of a type that is no variable. -/
inductive Head where
  | base (b : BaseTy)
  | option
  | list
  | tuple
  | arrow
  deriving DecidableEq

def Ty.head? : Ty → Option Head
  | .var _ => none
  | .base b => some (.base b)
  | .option _ => some .option
  | .list _ => some .list
  | .tuple _ => some .tuple
  | .arrow _ _ _ => some .arrow

theorem Ty.head?_eraseEffects (t : Ty) : t.eraseEffects.head? = t.head? := by cases t <;> rfl

/-- A head stays, whatever is put in for the variables. -/
theorem Subst.head?_apply {s : Subst} {t : Ty} {h : Head} (ht : t.head? = some h) : (s.apply t).head? = some h := by
  cases t with
  | var v => cases ht
  | _ => exact ht

namespace Unify

/-- The ways an equation is taken apart. -/
inductive Decomposed : Ty → Ty → List Equation → Prop
  | same (t : Ty) : Decomposed t t []
  | option (t u : Ty) : Decomposed (.option t) (.option u) [(t, u)]
  | list (t u : Ty) : Decomposed (.list t) (.list u) [(t, u)]
  | tuple {ts us : List Ty} : ts.length = us.length → Decomposed (.tuple ts) (.tuple us) (ts.zip us)
  | arrow (a b r q : Ty) (e e' : Effect) : Decomposed (.arrow a e r) (.arrow b e' q) [(a, b), (r, q)]

/-- The ways an equation has no solution. -/
inductive Obstructed : Ty → Ty → UnifyError → Prop
  | occursLeft {v : TypeVar} {t : Ty} : v ∈ t.vars → t ≠ .var v → Obstructed (.var v) t (.occurs v t)
  | occursRight {v : TypeVar} {t : Ty} : v ∈ t.vars → t ≠ .var v → Obstructed t (.var v) (.occurs v t)
  | arity {ts us : List Ty} : ts.length ≠ us.length →
      Obstructed (.tuple ts) (.tuple us) (.arity ts.length us.length)
  | mismatch {t u : Ty} {h k : Head} : t.head? = some h → u.head? = some k → h ≠ k →
      Obstructed t u (.mismatch t u)

theorem demandVar_same {v : TypeVar} {t : Ty} {eqs : List Equation} (h : demandVar v t = .parts eqs) :
    t = .var v ∧ eqs = [] := by
  refine ⟨?_, demandVar_parts h⟩
  unfold demandVar at h
  split at h
  · assumption
  · split at h <;> cases h

theorem demandVar_impossible {v : TypeVar} {t : Ty} {e : UnifyError} (h : demandVar v t = .impossible e) :
    v ∈ t.vars ∧ t ≠ .var v ∧ e = .occurs v t := by
  unfold demandVar at h
  split at h
  · cases h
  · rename_i hne
    split at h
    · rename_i ho
      cases h
      exact ⟨(Ty.occurs_iff_mem_vars v t).1 ho, hne, rfl⟩
    · cases h

theorem demand_decomposed {t u : Ty} {eqs : List Equation} (h : demand t u = .parts eqs) : Decomposed t u eqs := by
  unfold demand at h
  split at h
  · obtain ⟨rfl, rfl⟩ := demandVar_same h; exact .same _
  · obtain ⟨rfl, rfl⟩ := demandVar_same h; exact .same _
  · split at h
    · rename_i hb; cases h; subst hb; exact .same _
    · cases h
  · cases h; exact .option _ _
  · cases h; exact .list _ _
  · split at h
    · rename_i hl; cases h; exact .tuple hl
    · cases h
  · cases h; exact .arrow _ _ _ _ _ _
  · cases h

theorem demand_obstructed {t u : Ty} {e : UnifyError} (h : demand t u = .impossible e) : Obstructed t u e := by
  unfold demand at h
  split at h
  · obtain ⟨hv, hne, rfl⟩ := demandVar_impossible h; exact .occursLeft hv hne
  · obtain ⟨hv, hne, rfl⟩ := demandVar_impossible h; exact .occursRight hv hne
  · split at h
    · cases h
    · rename_i hb; cases h; exact .mismatch rfl rfl (by simpa using hb)
  · cases h
  · cases h
  · split at h
    · cases h
    · rename_i hl; cases h; exact .arity hl
  · cases h
  · rename_i hvar hvar' hbase hoption hlist htuple harrow
    cases h
    -- pairs with a variable or with one head on both sides have been dealt with; all others clash
    cases t <;> cases u <;> first
      | exact (harrow _ _ _ _ _ _ rfl rfl).elim
      | simp at hvar hvar' hbase hoption hlist htuple <;> exact .mismatch rfl rfl (by simp)

/-- What is put in for a variable is smaller than what becomes of a larger type in which it occurs. -/
theorem image_not_alike {v : TypeVar} {r : Ty} (hv : v ∈ r.vars) (hne : r ≠ .var v) (θ : Subst) :
    (θ.image v).eraseEffects ≠ (θ.apply r).eraseEffects := by
  intro heq
  have hlt := (Subst.eq_var_or_size_image_lt (s := θ) hv).resolve_left hne
  rw [← Ty.size_eraseEffects, heq, Ty.size_eraseEffects] at hlt
  exact Nat.lt_irrefl _ hlt

/-- An obstructed equation has no solution, not even up to latent effects. -/
theorem Obstructed.not_alike {t u : Ty} {e : UnifyError} (h : Obstructed t u e) (θ : Subst) :
    (θ.apply t).eraseEffects ≠ (θ.apply u).eraseEffects := by
  intro heq
  cases h with
  | occursLeft hv hne => exact image_not_alike hv hne θ heq
  | occursRight hv hne => exact image_not_alike hv hne θ heq.symm
  | arity hl =>
    have := congrArg List.length (Ty.view_eraseEffects.tuple.1 heq)
    simp only [Subst.applyAll_eq_map, List.length_map] at this
    exact hl this
  | mismatch ht hu hne =>
    have := congrArg Ty.head? heq
    rw [Ty.head?_eraseEffects, Ty.head?_eraseEffects, Subst.head?_apply ht, Subst.head?_apply hu] at this
    exact hne (Option.some.inj this)

/-! ## Solutions -/

/-- `θ` absorbs the bindings of `s` and equates the sides of every pending equation, in the view `f`. -/
structure Solution (f : Ty → Ty) (θ s : Subst) (eqs : List Equation) : Prop where
  absorbs : ∀ v, f (θ.apply (s.image v)) = f (θ.image v)
  solves : ∀ e ∈ eqs, f (θ.apply e.1) = f (θ.apply e.2)

section Step

variable {f : Ty → Ty} {θ s : Subst} {t u : Ty} {eqs rest : List Equation}

theorem Decomposed.solves (hf : Ty.View f) (h : Decomposed t u eqs) (heq : f (θ.apply t) = f (θ.apply u)) :
    ∀ e ∈ eqs, f (θ.apply e.1) = f (θ.apply e.2) := by
  cases h with
  | same t => intro e he; cases he
  | option t u => simpa using hf.option.1 heq
  | list t u => simpa using hf.list.1 heq
  | tuple hl =>
    rw [Subst.apply, Subst.apply, hf.tuple, Subst.applyAll_eq_map, Subst.applyAll_eq_map, List.map_map,
      List.map_map] at heq
    exact (Ty.map_eq_map_iff_zip.1 heq).2
  | arrow a b r q e e' => simpa using hf.arrow_parts heq

/-- Up to latent effects the parts say no more than the whole. -/
theorem Decomposed.alike (h : Decomposed t u eqs)
    (hs : ∀ e ∈ eqs, (θ.apply e.1).eraseEffects = (θ.apply e.2).eraseEffects) :
    (θ.apply t).eraseEffects = (θ.apply u).eraseEffects := by
  cases h with
  | same t => rfl
  | option t u => exact Ty.view_eraseEffects.option.2 (hs _ List.mem_cons_self)
  | list t u => exact Ty.view_eraseEffects.list.2 (hs _ List.mem_cons_self)
  | tuple hl =>
    rw [Subst.apply, Subst.apply, Ty.view_eraseEffects.tuple, Subst.applyAll_eq_map, Subst.applyAll_eq_map,
      List.map_map, List.map_map]
    exact Ty.map_eq_map_iff_zip.2 ⟨hl, hs⟩
  | arrow a b r q e e' =>
    simp only [List.mem_cons, List.not_mem_nil, or_false, forall_eq_or_imp, forall_eq] at hs
    rw [Subst.apply, Subst.apply, Ty.eraseEffects, Ty.eraseEffects, hs.1, hs.2]

/-- Taking an equation apart loses no solution. -/
theorem Solution.parts (hf : Ty.View f) (h : demand t u = .parts eqs) (hs : Solution f θ s ((t, u) :: rest)) :
    Solution f θ s (eqs ++ rest) := by
  refine ⟨hs.absorbs, fun e he => ?_⟩
  rcases List.mem_append.1 he with he | he
  · exact (demand_decomposed h).solves hf (hs.solves _ List.mem_cons_self) e he
  · exact hs.solves e (List.mem_cons_of_mem _ he)

/-- Taking an equation apart gains no solution up to latent effects. -/
theorem Solution.of_parts (h : demand t u = .parts eqs) (hs : Solution Ty.eraseEffects θ s (eqs ++ rest)) :
    Solution Ty.eraseEffects θ s ((t, u) :: rest) := by
  refine ⟨hs.absorbs, fun e he => ?_⟩
  rcases List.mem_cons.1 he with rfl | he
  · exact (demand_decomposed h).alike fun e he => hs.solves e (List.mem_append_left _ he)
  · exact hs.solves e (List.mem_append_right _ he)

variable {v : TypeVar} {r : Ty}

theorem demand_binding_solves_iff (h : demand t u = .binding v r) :
    f (θ.apply t) = f (θ.apply u) ↔ f (θ.image v) = f (θ.apply r) := by
  rcases (demand_binding h).1 with ⟨rfl, rfl⟩ | ⟨rfl, rfl⟩
  · rfl
  · exact eq_comm

/-- What absorbs the bindings after `v` has been bound absorbs those before, and does not tell `v` from its
type. -/
theorem absorbs_bind_iff (hf : Ty.View f) (hv : s.get? v = none) :
    (∀ w, f (θ.apply ((s.bind v r).image w)) = f (θ.image w)) ↔
      (∀ w, f (θ.apply (s.image w)) = f (θ.image w)) ∧ f (θ.image v) = f (θ.apply r) := by
  constructor
  · intro h
    have hvr : f (θ.image v) = f (θ.apply r) := by
      rw [← h v, Subst.image_bind, Subst.image_of_get?_none hv, Subst.apply, Subst.image_singleton, if_pos rfl]
    refine ⟨fun w => ?_, hvr⟩
    rw [← h w, Subst.image_bind, Subst.view_apply_singleton hf hvr]
  · rintro ⟨h, hvr⟩ w
    rw [Subst.image_bind, Subst.view_apply_singleton hf hvr, h w]

/-- Binding a variable that has no binding yet neither loses nor gains a solution. -/
theorem solution_binding_iff (hf : Ty.View f) (h : demand t u = .binding v r) (hv : s.get? v = none) :
    Solution f θ s ((t, u) :: rest) ↔ Solution f θ (s.bind v r) (Equations.apply (.singleton v r) rest) := by
  have hrest : f (θ.image v) = f (θ.apply r) →
      ((∀ e ∈ Equations.apply (.singleton v r) rest, f (θ.apply e.1) = f (θ.apply e.2)) ↔
        ∀ e ∈ rest, f (θ.apply e.1) = f (θ.apply e.2)) := by
    intro hvr
    simp only [Equations.apply, List.forall_mem_map, Equation.apply, Subst.view_apply_singleton hf hvr]
  constructor
  · rintro ⟨habs, hsol⟩
    have hvr := (demand_binding_solves_iff h).1 (hsol _ List.mem_cons_self)
    refine ⟨(absorbs_bind_iff hf hv).2 ⟨habs, hvr⟩, (hrest hvr).2 fun e he => hsol e ?_⟩
    exact List.mem_cons_of_mem _ he
  · rintro ⟨habs, hsol⟩
    obtain ⟨habs, hvr⟩ := (absorbs_bind_iff hf hv).1 habs
    refine ⟨habs, fun e he => ?_⟩
    rcases List.mem_cons.1 he with rfl | he
    · exact (demand_binding_solves_iff h).2 hvr
    · exact (hrest hvr).1 hsol e he

end Step

end Unify

end EffectTyping
