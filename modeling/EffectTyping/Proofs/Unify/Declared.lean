/-
Solving an equation in order to find an instance. Solving `checked = declared` gives the declared type back exactly
when a substitution that leaves its variables alone turns the checked type into it, also when the effect of the
outermost arrow does not count. Two types made alike by solving have a declared type as an instance exactly when
one substitution turns both into it, although the solver ignores latent effects.
-/
import EffectTyping.Proofs.Instance
import EffectTyping.Proofs.Unify.Run

namespace EffectTyping

/-! ## Solving one equation -/

theorem unify_idempotent {a b : Ty} {σ : Subst} (h : unify a b = .ok σ) : σ.Idempotent := by
  have := Unify.step_idempotent Subst.idempotent_empty a b
  rwa [Unify.unify_eq_ok_iff.1 h] at this

theorem unify_alike {a b : Ty} {σ : Subst} (h : unify a b = .ok σ) :
    (σ.apply a).eraseEffects = (σ.apply b).eraseEffects := by
  have hstep := Unify.unify_eq_ok_iff.1 h
  have := Unify.step_solves Subst.idempotent_empty (a := a) (b := b) (by rw [hstep])
  rw [hstep] at this
  exact this.solves _ List.mem_cons_self

theorem solution_empty {f : Ty → Ty} {θ : Subst} {a b : Ty} (h : f (θ.apply a) = f (θ.apply b)) :
    Unify.Solution f θ .empty [(a, b)] :=
  ⟨fun _ => rfl, by simpa using h⟩

/-- Types that some substitution makes alike have a most general solution. -/
theorem exists_unify {θ : Subst} {a b : Ty} (h : (θ.apply a).eraseEffects = (θ.apply b).eraseEffects) :
    ∃ σ, unify a b = .ok σ := by
  have hok := Unify.step_ok_of_solution Subst.idempotent_empty (solution_empty h)
  exact ⟨(Unify.step .empty a b).2, Unify.unify_eq_ok_iff.2 (Prod.ext hok rfl)⟩

/-- A substitution that equates two types, in a view, absorbs their most general solution in that view. -/
theorem unify_absorbed {f : Ty → Ty} (hf : Ty.View f) {θ σ : Subst} {a b : Ty} (hσ : unify a b = .ok σ)
    (h : f (θ.apply a) = f (θ.apply b)) (t : Ty) : f (θ.apply (σ.apply t)) = f (θ.apply t) := by
  obtain ⟨left, hs, -⟩ := Unify.step_solution hf Subst.idempotent_empty (solution_empty h)
  rw [Unify.unify_eq_ok_iff.1 hσ] at hs
  exact Subst.view_apply_apply hf hs.absorbs t

/-! ## Solving towards a declared type -/

namespace Unify

/-- `θ` solves what is pending exactly and leaves alone the right sides and everything bound so far. -/
structure Rigid (θ s : Subst) (eqs : List Equation) : Prop where
  settled : Settled s eqs
  solution : Solution id θ s eqs
  bound : ∀ v t, s.get? v = some t → θ.apply t = t
  right : ∀ e ∈ eqs, θ.apply e.2 = e.2

theorem Decomposed.right_fixed {θ : Subst} {t u : Ty} {eqs : List Equation} (h : Decomposed t u eqs)
    (hu : θ.apply u = u) : ∀ e ∈ eqs, θ.apply e.2 = e.2 := by
  cases h with
  | same t => intro e he; cases he
  | option t u => simpa [Subst.apply] using hu
  | list t u => simpa [Subst.apply] using hu
  | tuple hl =>
    rename_i ts us
    rw [Subst.apply_eq_self_iff] at hu
    intro e he
    rw [Subst.apply_eq_self_iff]
    exact fun v hv => hu v (Ty.mem_varsAll.2 ⟨e.2, (List.of_mem_zip he).2, hv⟩)
  | arrow a b r q e e' => simpa [Subst.apply] using hu

theorem Rigid.parts {θ s : Subst} {t u : Ty} {eqs rest : List Equation} (h : demand t u = .parts eqs)
    (hr : Rigid θ s ((t, u) :: rest)) : Rigid θ s (eqs ++ rest) := by
  refine ⟨hr.settled.parts h, hr.solution.parts Ty.view_id h, hr.bound, fun e he => ?_⟩
  rcases List.mem_append.1 he with he | he
  · exact (demand_decomposed h).right_fixed (hr.right _ List.mem_cons_self) e he
  · exact hr.right e (List.mem_cons_of_mem _ he)

/-- With a right side that `θ` leaves alone, only a variable on the left is ever bound, to the right side. -/
theorem Rigid.demand_binding {θ s : Subst} {t u r : Ty} {v : TypeVar} {rest : List Equation}
    (hr : Rigid θ s ((t, u) :: rest)) (h : demand t u = .binding v r) : t = .var v ∧ u = r ∧ θ.image v = r := by
  have hfix : θ.apply u = u := hr.right _ List.mem_cons_self
  have hsol : θ.apply t = θ.apply u := hr.solution.solves _ List.mem_cons_self
  rcases (Unify.demand_binding h).1 with ⟨rfl, rfl⟩ | ⟨rfl, rfl⟩
  · exact ⟨rfl, rfl, hsol.trans hfix⟩
  · -- a left side that becomes a variable is one, and then it is the left one that is bound
    rw [hfix] at hsol
    cases t with
    | var w =>
      obtain ⟨rfl, -, hv⟩ := demandVar_binding (show demandVar w (.var v) = .binding v (.var w) from h)
      simp [Ty.vars] at hv
    | _ => cases hsol

theorem Rigid.binding {θ s : Subst} {t u r : Ty} {v : TypeVar} {rest : List Equation}
    (h : demand t u = .binding v r) (hr : Rigid θ s ((t, u) :: rest)) :
    Rigid θ (s.bind v r) (Equations.apply (.singleton v r) rest) := by
  obtain ⟨-, rfl, hv⟩ := hr.demand_binding h
  have hfix : θ.apply u = u := hr.right _ List.mem_cons_self
  -- `θ` moves `v`, so `v` occurs in nothing that `θ` leaves alone
  have hother : ∀ x, θ.apply x = x → Subst.apply (.singleton v u) x = x := by
    intro x hx
    refine Subst.apply_singleton_of_not_mem fun hm => (Unify.demand_binding h).2 ?_
    rw [← hv, Subst.apply_eq_self_iff.1 hx v hm]
    exact List.mem_singleton_self v
  refine ⟨hr.settled.binding h, ?_, fun x y hx => ?_, fun e he => ?_⟩
  · exact (solution_binding_iff Ty.view_id h (hr.settled.unbound h (.inl rfl))).1 hr.solution
  · rcases Subst.get?_bind_eq_some hx with ⟨-, rfl⟩ | ⟨z, hz, rfl⟩
    · exact hfix
    · rw [hother z (hr.bound x z hz)]; exact hr.bound x z hz
  · obtain ⟨e, hmem, rfl⟩ := List.mem_map.1 he
    have hright := hr.right e (List.mem_cons_of_mem _ hmem)
    simp only [Equation.apply, hother _ hright]; exact hright

end Unify

section Fixed

variable {θ σ : Subst} {checked declared : Ty} (hfix : θ.apply declared = declared)
  (hθ : θ.apply checked = declared)
include hfix hθ

/-- What the solution binds a variable to is what a substitution that leaves `declared` alone and turns `checked`
into it replaces the variable by. -/
theorem unify_get?_eq_image (hσ : unify checked declared = .ok σ) {v : TypeVar} {t : Ty}
    (hv : σ.get? v = some t) : t = θ.image v := by
  have hstart : Unify.Rigid θ .empty [(checked, declared)] := by
    refine ⟨?_, solution_empty (hθ.trans hfix.symm), (fun v t h => by cases h), by simpa using hfix⟩
    simpa using Unify.settled_step Subst.idempotent_empty checked declared
  obtain ⟨left, hr, -⟩ := Unify.solve_run (P := Unify.Rigid θ) Unify.Rigid.parts Unify.Rigid.binding _ _ hstart
  have hstep : Unify.solve .empty [(checked, declared)] = (.ok (), σ) := by
    simpa [Unify.step] using Unify.unify_eq_ok_iff.1 hσ
  rw [hstep] at hr
  have habs : θ.apply (σ.image v) = θ.image v := hr.solution.absorbs v
  rw [Subst.image_of_get? hv, hr.bound v t hv] at habs
  exact habs

theorem unify_fixes_declared (hσ : unify checked declared = .ok σ) : σ.apply declared = declared := by
  rw [Subst.apply_eq_self_iff]
  intro v hv
  cases hg : σ.get? v with
  | none => exact Subst.image_of_get?_none hg
  | some t =>
    -- `v` would be bound to itself, and no solution does that
    have ht := unify_get?_eq_image hfix hθ hσ hg
    rw [Subst.apply_eq_self_iff.1 hfix v hv] at ht
    have hfree := unify_idempotent hσ v t hg v (by rw [ht]; exact List.mem_singleton_self v)
    rw [hfree] at hg; cases hg

/-- If a substitution that leaves `declared` alone turns `checked` into it, so does the most general solution. -/
theorem apply_unify_of_fixed : ∃ σ, unify checked declared = .ok σ ∧ σ.apply checked = declared := by
  obtain ⟨σ, hσ⟩ := exists_unify (θ := θ) (a := checked) (b := declared) (by rw [hθ, hfix])
  refine ⟨σ, hσ, ?_⟩
  have halike : (σ.apply checked).eraseEffects = (θ.apply checked).eraseEffects := by
    rw [unify_alike hσ, unify_fixes_declared hfix hθ hσ, hθ]
  rw [← hθ, Subst.apply_eq_apply_iff]
  intro v hv
  cases hg : σ.get? v with
  | none =>
    have hv' := (Subst.view_apply_eq_iff Ty.view_eraseEffects).1 halike v hv
    rw [Subst.image_of_get?_none hg] at hv' ⊢
    exact (Ty.eq_var_of_eraseEffects hv'.symm).symm
  | some t => rw [Subst.image_of_get? hg]; exact unify_get?_eq_image hfix hθ hσ hg

end Fixed

/-- Solving gives the declared type back exactly when instantiating variables that are not its own does. -/
theorem unify_declared_iff {checked declared : Ty} :
    (∃ σ, unify checked declared = .ok σ ∧ σ.apply checked = declared) ↔
      ∃ s : Subst, s.apply declared = declared ∧ s.apply checked = declared := by
  constructor
  · rintro ⟨σ, hσ, h⟩
    refine ⟨σ, ?_, h⟩
    calc σ.apply declared = σ.apply (σ.apply checked) := by rw [h]
      _ = σ.apply checked := (unify_idempotent hσ).apply_apply checked
      _ = declared := h
  · rintro ⟨s, hfix, h⟩; exact apply_unify_of_fixed hfix h

/-- The effects of the outermost arrows play no part in solving. -/
theorem unify_arrow_effect (a b r q : Ty) (e e' f : Effect) :
    unify (.arrow a e r) (.arrow b f q) = unify (.arrow a e' r) (.arrow b f q) := by
  have hstep : ∀ e, Unify.step .empty (.arrow a e r) (.arrow b f q) = Unify.solve .empty [(a, b), (r, q)] := by
    intro e
    rw [Unify.step, Subst.apply_empty, Subst.apply_empty, Unify.solve_of_parts rfl, List.append_nil]
  unfold unify
  rw [hstep e, hstep e']

/-- As `unify_declared_iff` for a declared function type whose own effect does not count. -/
theorem unify_declared_arrow_iff {checked arg res : Ty} {e : Effect} :
    (∃ σ e', unify checked (.arrow arg e res) = .ok σ ∧ σ.apply checked = .arrow arg e' res) ↔
      ∃ (s : Subst) (e' : Effect), s.apply arg = arg ∧ s.apply res = res ∧ s.apply checked = .arrow arg e' res := by
  constructor
  · rintro ⟨σ, e', hσ, h⟩
    have hfix : σ.apply (.arrow arg e' res) = .arrow arg e' res := by
      rw [← h]; exact (unify_idempotent hσ).apply_apply checked
    simp only [Subst.apply, Ty.arrow.injEq, true_and] at hfix
    exact ⟨σ, e', hfix.1, hfix.2, h⟩
  · rintro ⟨s, e', harg, hres, h⟩
    cases checked with
    | var v =>
      -- the variable is moved, so it is not among those of the declared type
      have hmoved : ∀ {t : Ty}, s.apply t = t → v ∉ t.vars := by
        intro t ht hv
        have : s.image v = .arrow arg e' res := h
        rw [Subst.apply_eq_self_iff.1 ht v hv] at this
        cases this
      have hfix : Subst.apply (.singleton v (.arrow arg e res)) (.arrow arg e res) = .arrow arg e res := by
        rw [Subst.apply, Subst.apply_singleton_of_not_mem (hmoved harg),
          Subst.apply_singleton_of_not_mem (hmoved hres)]
      have hvar : Subst.apply (.singleton v (.arrow arg e res)) (.var v) = .arrow arg e res := by
        rw [Subst.apply, Subst.image_singleton, if_pos rfl]
      obtain ⟨σ, hσ, hd⟩ := apply_unify_of_fixed hfix hvar
      exact ⟨σ, e, hσ, hd⟩
    | arrow a l r =>
      simp only [Subst.apply, Ty.arrow.injEq] at h
      -- the effect of the checked function is put in place of the declared one, which changes no solution
      have hfix : s.apply (.arrow arg e res) = .arrow arg e res := by rw [Subst.apply, harg, hres]
      have hfn : s.apply (.arrow a e r) = .arrow arg e res := by rw [Subst.apply, h.1, h.2.2]
      obtain ⟨σ, hσ, hd⟩ := apply_unify_of_fixed hfix hfn
      simp only [Subst.apply, Ty.arrow.injEq, true_and] at hd
      exact ⟨σ, l, by rw [unify_arrow_effect a arg r res l e e]; exact hσ, by rw [Subst.apply, hd.1, hd.2]⟩
    | _ => cases h

/-! ## Common instances -/

/-- Types that agree up to latent effects and have a common instance are equal. -/
theorem eq_of_common_instance {x y t : Ty} {s s' : Subst} (h : x.eraseEffects = y.eraseEffects)
    (hx : s.apply x = t) (hy : s'.apply y = t) : x = y := by
  induction x using Ty.induct generalizing y t with
  | var v => exact (Ty.eq_var_of_eraseEffects h.symm).symm
  | base b => cases y <;> simp_all [Ty.eraseEffects]
  | option x ih =>
    cases y <;> simp only [Ty.eraseEffects, reduceCtorEq, Ty.option.injEq] at h
    subst hy; simp only [Subst.apply, Ty.option.injEq] at hx
    rw [ih h hx rfl]
  | list x ih =>
    cases y <;> simp only [Ty.eraseEffects, reduceCtorEq, Ty.list.injEq] at h
    subst hy; simp only [Subst.apply, Ty.list.injEq] at hx
    rw [ih h hx rfl]
  | tuple xs ih =>
    cases y <;> simp only [Ty.eraseEffects, reduceCtorEq, Ty.tuple.injEq, Ty.eraseEffectsAll_eq_map] at h
    rename_i ys
    subst hy; simp only [Subst.apply, Subst.applyAll_eq_map, Ty.tuple.injEq] at hx
    obtain ⟨hl, h⟩ := Ty.map_eq_map_iff_zip.1 h
    obtain ⟨-, hx⟩ := Ty.map_eq_map_iff_zip.1 hx
    have hxs : xs.map id = ys.map id :=
      Ty.map_eq_map_iff_zip.2 ⟨hl, fun p hp => ih p.1 (List.of_mem_zip hp).1 (h p hp) (hx p hp) rfl⟩
    rw [List.map_id, List.map_id] at hxs
    rw [hxs]
  | arrow a e r iha ihr =>
    cases y <;> simp only [Ty.eraseEffects, reduceCtorEq, Ty.arrow.injEq] at h
    subst hy; simp only [Subst.apply, Ty.arrow.injEq] at hx
    rw [iha h.1 hx.1 rfl, ihr h.2.2 hx.2.2 rfl, hx.2.1]

/-- Two solved types have `t` as an instance exactly when one substitution turns both types into `t`. -/
theorem unify_common_instance_iff {m n t : Ty} :
    (∃ σ, unify m n = .ok σ ∧ (σ.apply m).HasInstance t ∧ (σ.apply n).HasInstance t) ↔
      ∃ θ : Subst, θ.apply m = t ∧ θ.apply n = t := by
  constructor
  · rintro ⟨σ, hσ, ⟨s, hs⟩, ⟨s', hs'⟩⟩
    have heq : σ.apply m = σ.apply n := eq_of_common_instance (unify_alike hσ) hs hs'
    refine ⟨s.compose σ, ?_, ?_⟩
    · rw [Subst.apply_compose, hs]
    · rw [Subst.apply_compose, ← heq, hs]
  · rintro ⟨θ, hm, hn⟩
    obtain ⟨σ, hσ⟩ := exists_unify (θ := θ) (a := m) (b := n) (by rw [hm, hn])
    have habs : ∀ x, θ.apply (σ.apply x) = θ.apply x := unify_absorbed Ty.view_id hσ (hm.trans hn.symm)
    exact ⟨σ, hσ, ⟨θ, by rw [habs, hm]⟩, ⟨θ, by rw [habs, hn]⟩⟩

end EffectTyping
