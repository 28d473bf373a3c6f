/-
Runs of the solver. A call works off its equations step by step and stops when none is left or when one is
obstructed; what every step preserves holds of the state it stops in (`solve_run`). From this: states stay
idempotent, a call succeeds exactly when its equation has a solution together with the bindings so far, and
every such solution absorbs the new state, up to latent effects and exactly.
-/
import EffectTyping.Proofs.Unify.Solution

namespace EffectTyping.Unify

/-! ## What a run preserves -/

/-- How a run can stop with the equations `left` pending. -/
inductive Halted : List Equation → Except UnifyError Unit → Prop
  | solved : Halted [] (.ok ())
  | stuck {t u : Ty} {e : UnifyError} (rest : List Equation) : Obstructed t u e →
      Halted ((t, u) :: rest) (.error e)

theorem solve_nil (s : Subst) : solve s [] = (.ok (), s) := by rw [solve]

theorem solve_of_parts {s : Subst} {t u : Ty} {eqs rest : List Equation} (h : demand t u = .parts eqs) :
    solve s ((t, u) :: rest) = solve s (eqs ++ rest) := by
  rw [solve]; split <;> simp_all

theorem solve_of_binding {s : Subst} {t u r : Ty} {v : TypeVar} {rest : List Equation}
    (h : demand t u = .binding v r) :
    solve s ((t, u) :: rest) = solve (s.bind v r) (Equations.apply (.singleton v r) rest) := by
  rw [solve]; split <;> simp_all

theorem solve_of_impossible {s : Subst} {t u : Ty} {e : UnifyError} {rest : List Equation}
    (h : demand t u = .impossible e) : solve s ((t, u) :: rest) = (.error e, s) := by
  rw [solve]; split <;> simp_all

/-- What taking an equation apart and binding a variable preserve holds where the run stops. -/
theorem solve_run {P : Subst → List Equation → Prop}
    (parts : ∀ {s t u eqs rest}, demand t u = .parts eqs → P s ((t, u) :: rest) → P s (eqs ++ rest))
    (binding : ∀ {s t u v r rest}, demand t u = .binding v r → P s ((t, u) :: rest) →
      P (s.bind v r) (Equations.apply (.singleton v r) rest))
    (s : Subst) (eqs : List Equation) (h : P s eqs) :
    ∃ left, P (solve s eqs).2 left ∧ Halted left (solve s eqs).1 := by
  induction s, eqs using solve.induct with
  | case1 s => rw [solve]; exact ⟨[], h, .solved⟩
  | case2 s t u rest eqs hd ih => rw [solve_of_parts hd]; exact ih (parts hd h)
  | case3 s t u rest v r hd ih => rw [solve_of_binding hd]; exact ih (binding hd h)
  | case4 s t u rest e hd => rw [solve_of_impossible hd]; exact ⟨_, h, .stuck rest (demand_obstructed hd)⟩

/-! ## Calls one after the other -/

theorem unify_eq_ok_iff {a b : Ty} {s : Subst} : unify a b = .ok s ↔ step .empty a b = (.ok (), s) := by
  unfold unify
  rcases step .empty a b with ⟨_ | _, s⟩ <;> simp

/-- Goes on from the state reached, unless there has been a failure. -/
def andThen (reached : Except UnifyError Unit × Subst) (next : Subst → Except UnifyError Unit × Subst) :
    Except UnifyError Unit × Subst :=
  match reached.1 with
  | .ok () => next reached.2
  | .error _ => reached

theorem andThen_congr {reached : Except UnifyError Unit × Subst} {next next' : Subst → Except UnifyError Unit × Subst}
    (h : next reached.2 = next' reached.2) : andThen reached next = andThen reached next' := by
  unfold andThen
  split
  · exact h
  · rfl

theorem andThen_ok (s : Subst) (next : Subst → Except UnifyError Unit × Subst) : andThen (.ok (), s) next = next s := rfl

/-- Calls the solver for one equation after the other, up to the first failure. -/
def stepAll (s : Subst) : List Equation → Except UnifyError Unit × Subst
  | [] => (.ok (), s)
  | (a, b) :: eqs => andThen (step s a b) fun s' => stepAll s' eqs

/-! ## Variables of pending equations -/

theorem mem_vars_cons {v : TypeVar} {t u : Ty} {eqs : List Equation} :
    v ∈ Equations.vars ((t, u) :: eqs) ↔ (v ∈ t.vars ∨ v ∈ u.vars) ∨ v ∈ Equations.vars eqs := by
  simp only [Equations.vars, List.flatMap_cons, Equation.vars, List.mem_append]

theorem mem_vars_of_parts {v : TypeVar} {t u : Ty} {eqs rest : List Equation} (h : demand t u = .parts eqs)
    (hv : v ∈ Equations.vars (eqs ++ rest)) : v ∈ Equations.vars ((t, u) :: rest) := by
  rw [Equations.vars_append, List.mem_append] at hv
  rw [mem_vars_cons]
  rcases hv with hv | hv
  · exact .inl ((demand_parts h).2 v hv)
  · exact .inr hv

/-- The variable to be bound and the variables of its type are pending. -/
theorem mem_vars_of_binding {t u r : Ty} {v w : TypeVar} {rest : List Equation} (h : demand t u = .binding v r)
    (hw : w = v ∨ w ∈ r.vars) : w ∈ Equations.vars ((t, u) :: rest) := by
  rw [mem_vars_cons]
  left
  rcases (demand_binding h).1 with ⟨rfl, rfl⟩ | ⟨rfl, rfl⟩ <;> rcases hw with rfl | hw
  · exact .inl (by simp [Ty.vars])
  · exact .inr hw
  · exact .inr (by simp [Ty.vars])
  · exact .inl hw

/-! ## Settled states -/

/-- The bindings are idempotent and the pending equations hold none of the bound variables. -/
structure Settled (s : Subst) (eqs : List Equation) : Prop where
  idempotent : s.Idempotent
  pending : ∀ v ∈ Equations.vars eqs, s.get? v = none

theorem Settled.parts {s : Subst} {t u : Ty} {eqs rest : List Equation} (h : demand t u = .parts eqs)
    (hs : Settled s ((t, u) :: rest)) : Settled s (eqs ++ rest) :=
  ⟨hs.idempotent, fun v hv => hs.pending v (mem_vars_of_parts h hv)⟩

theorem Settled.unbound {s : Subst} {t u r : Ty} {v w : TypeVar} {rest : List Equation}
    (hs : Settled s ((t, u) :: rest)) (h : demand t u = .binding v r) (hw : w = v ∨ w ∈ r.vars) :
    s.get? w = none :=
  hs.pending w (mem_vars_of_binding h hw)

theorem Settled.binding {s : Subst} {t u r : Ty} {v : TypeVar} {rest : List Equation}
    (h : demand t u = .binding v r) (hs : Settled s ((t, u) :: rest)) :
    Settled (s.bind v r) (Equations.apply (.singleton v r) rest) := by
  have hv : v ∉ r.vars := (demand_binding h).2
  have hunbound : ∀ w ∈ r.vars, s.get? w = none := fun w hw => hs.unbound h (.inr hw)
  refine ⟨hs.idempotent.bind hv hunbound, fun w hw => ?_⟩
  rw [Subst.get?_bind_eq_none_iff]
  rcases Equations.mem_vars_apply_singleton hw with hw | ⟨hne, hw⟩
  · exact ⟨hunbound w hw, fun heq => hv (heq ▸ hw)⟩
  · exact ⟨hs.pending w (mem_vars_cons.2 (.inr hw)), hne⟩

/-- A call starts in a settled state. -/
theorem settled_step {s : Subst} (hs : s.Idempotent) (a b : Ty) : Settled s [(s.apply a, s.apply b)] := by
  refine ⟨hs, fun v hv => ?_⟩
  rcases mem_vars_cons.1 hv with (hv | hv) | hv
  · exact hs.get?_of_mem_apply hv
  · exact hs.get?_of_mem_apply hv
  · cases hv

theorem step_idempotent {s : Subst} (hs : s.Idempotent) (a b : Ty) : (step s a b).2.Idempotent := by
  obtain ⟨left, h, -⟩ := solve_run (P := Settled) Settled.parts Settled.binding s _ (settled_step hs a b)
  exact h.idempotent

theorem reachable_idempotent {s : Subst} (h : Reachable s) : s.Idempotent := by
  induction h with
  | start => exact Subst.idempotent_empty
  | step a b _ ih => exact step_idempotent ih a b

/-! ## Solutions of a call -/

section Call

variable {f : Ty → Ty} {θ s : Subst} {a b : Ty}

/-- The equation of a call has the same solutions before and after the bindings so far are put in. -/
theorem solution_apply_iff (hf : Ty.View f) :
    Solution f θ s [(s.apply a, s.apply b)] ↔ Solution f θ s [(a, b)] := by
  constructor
  · rintro ⟨habs, hsol⟩
    refine ⟨habs, ?_⟩
    simpa [Subst.view_apply_apply hf habs] using hsol
  · rintro ⟨habs, hsol⟩
    refine ⟨habs, ?_⟩
    simpa [Subst.view_apply_apply hf habs] using hsol

/-- A solution survives the steps of a call, up to where it stops. -/
theorem step_solution (hf : Ty.View f) (hs : s.Idempotent) (hθ : Solution f θ s [(a, b)]) :
    ∃ left, Solution f θ (step s a b).2 left ∧ Halted left (step s a b).1 := by
  obtain ⟨left, ⟨-, h⟩, hh⟩ := solve_run (P := fun s eqs => Settled s eqs ∧ Solution f θ s eqs)
    (fun hd h => ⟨h.1.parts hd, h.2.parts hf hd⟩)
    (fun hd h => ⟨h.1.binding hd, (solution_binding_iff hf hd (h.1.unbound hd (.inl rfl))).1 h.2⟩)
    s _ ⟨settled_step hs a b, (solution_apply_iff hf).2 hθ⟩
  exact ⟨left, h, hh⟩

/-- An equation that has a solution up to latent effects is solved. -/
theorem step_ok_of_solution (hs : s.Idempotent) (hθ : Solution Ty.eraseEffects θ s [(a, b)]) :
    (step s a b).1 = .ok () := by
  obtain ⟨left, h, hh⟩ := step_solution Ty.view_eraseEffects hs hθ
  generalize (step s a b).1 = outcome at hh
  cases hh with
  | solved => rfl
  | stuck rest ho => exact absurd (h.solves _ List.mem_cons_self) (ho.not_alike θ)

/-- What a successful call leaves equates its equation up to latent effects. -/
theorem step_solves (hs : s.Idempotent) (h : (step s a b).1 = .ok ()) :
    Solution Ty.eraseEffects (step s a b).2 s [(a, b)] := by
  -- backwards along the run: a solution of what is pending solves the equation of the call
  obtain ⟨left, ⟨hset, hback⟩, hh⟩ := solve_run
    (P := fun s' eqs => Settled s' eqs ∧ ∀ θ, Solution Ty.eraseEffects θ s' eqs →
      Solution Ty.eraseEffects θ s [(s.apply a, s.apply b)])
    (fun hd h => ⟨h.1.parts hd, fun θ hθ => h.2 θ (hθ.of_parts hd)⟩)
    (fun hd h => ⟨h.1.binding hd, fun θ hθ => h.2 θ
      ((solution_binding_iff Ty.view_eraseEffects hd (h.1.unbound hd (.inl rfl))).2 hθ)⟩)
    s _ ⟨settled_step hs a b, fun _ hθ => hθ⟩
  have hleft : left = [] := by
    change Halted left (step s a b).1 at hh
    rw [h] at hh; cases hh; rfl
  subst hleft
  refine (solution_apply_iff Ty.view_eraseEffects).1 (hback (step s a b).2 ⟨fun v => ?_, ?_⟩)
  · exact congrArg _ (hset.idempotent.apply_apply (.var v))
  · intro e he; cases he

end Call

/-! ## Most general solutions -/

/-- Adding `a = b` to a reachable state succeeds exactly when some substitution absorbs the state and equates
`a` and `b` up to latent effects. Every such substitution absorbs the new state up to latent effects, and one
that does both exactly absorbs the new state exactly. -/
theorem step_most_general {s : Subst} (hs : Reachable s) (a b : Ty) :
    ((step s a b).1 = .ok () ↔
      ∃ θ : Subst, (∀ v, (θ.apply (s.apply (.var v))).eraseEffects = (θ.apply (.var v)).eraseEffects) ∧
        (θ.apply a).eraseEffects = (θ.apply b).eraseEffects) ∧
    (∀ θ : Subst, (∀ v, (θ.apply (s.apply (.var v))).eraseEffects = (θ.apply (.var v)).eraseEffects) →
      (θ.apply a).eraseEffects = (θ.apply b).eraseEffects →
      ∀ v, (θ.apply ((step s a b).2.apply (.var v))).eraseEffects = (θ.apply (.var v)).eraseEffects) ∧
    ∀ θ : Subst, (∀ v, θ.apply (s.apply (.var v)) = θ.apply (.var v)) → θ.apply a = θ.apply b →
      ∀ v, θ.apply ((step s a b).2.apply (.var v)) = θ.apply (.var v) := by
  have hidem := reachable_idempotent hs
  have hone : ∀ {f : Ty → Ty} {θ : Subst}, (∀ v, f (θ.apply (s.apply (.var v))) = f (θ.apply (.var v))) →
      f (θ.apply a) = f (θ.apply b) → Solution f θ s [(a, b)] :=
    fun habs hab => ⟨habs, by simpa using hab⟩
  refine ⟨⟨fun hok => ?_, ?_⟩, fun θ habs hab => ?_, fun θ habs hab => ?_⟩
  · have hsol := step_solves hidem hok
    exact ⟨_, hsol.absorbs, hsol.solves _ List.mem_cons_self⟩
  · rintro ⟨θ, habs, hab⟩
    exact step_ok_of_solution hidem (hone habs hab)
  · obtain ⟨left, h, -⟩ := step_solution Ty.view_eraseEffects hidem (hone habs hab)
    exact h.absorbs
  · obtain ⟨left, h, -⟩ := step_solution (f := id) Ty.view_id hidem (hone habs hab)
    exact h.absorbs

/-- The call `(t0, int) = (t1 option, string)` fails on its second components and leaves `t0 := t1 option`; in
that state `t0 list = bool option list` has a solution and is solved. -/
theorem step_most_general_after_failure :
    let s := (step .empty (.tuple [.var ⟨0⟩, .base .int]) (.tuple [.option (.var ⟨1⟩), .base .string])).2
    Reachable s ∧ s = .singleton ⟨0⟩ (.option (.var ⟨1⟩)) ∧
      (step s (.list (.var ⟨0⟩)) (.list (.option (.base .bool)))).1 = .ok () := by
  intro s
  have hs : Reachable s := .step _ _ .start
  have hstep : step .empty (.tuple [.var ⟨0⟩, .base .int]) (.tuple [.option (.var ⟨1⟩), .base .string]) =
      (.error (.mismatch (.base .int) (.base .string)), .singleton ⟨0⟩ (.option (.var ⟨1⟩))) := by
    rw [step, Subst.apply_empty, Subst.apply_empty, solve_of_parts rfl]
    exact (solve_of_binding rfl).trans (solve_of_impossible rfl)
  have heq : s = .singleton ⟨0⟩ (.option (.var ⟨1⟩)) := congrArg Prod.snd hstep
  refine ⟨hs, heq, (step_most_general hs _ _).1.2 ⟨.ofList [(⟨0⟩, .option (.base .bool)), (⟨1⟩, .base .bool)],
    fun v => ?_, rfl⟩⟩
  rw [heq, Subst.apply, Subst.image_singleton]
  split
  · rename_i hv; subst hv; rfl
  · rfl

end EffectTyping.Unify
