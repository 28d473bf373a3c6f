/-
The order in which equations are given, and which side of an equation is written first, do not matter. A state that
has taken in equations is absorbed by exactly the solutions of these (`solveAll_solution_iff`), and which
substitutions are solutions does not depend on order or sides. So both orders succeed or both fail, and if they
succeed each state absorbs the other. Such states bind equally many variables: a variable that only one of them binds
is exchanged for one that only the other binds.
-/
import EffectTyping.Proofs.Unify.Run
import Mathlib.Combinatorics.Enumerative.DoubleCounting

namespace EffectTyping.Unify

/-! ## Solving equations up to the first failure -/

/-- Adds equations to the state `s` one after the other: the state reached, unless one of them cannot be added. -/
def solveAll (s : Subst) (eqs : List Equation) : Except UnifyError Subst :=
  match stepAll s eqs with
  | (.ok (), s') => .ok s'
  | (.error e, _) => .error e

theorem solveAll_eq_ok_iff {s s' : Subst} {eqs : List Equation} :
    solveAll s eqs = .ok s' ↔ stepAll s eqs = (.ok (), s') := by
  unfold solveAll
  rcases stepAll s eqs with ⟨_ | _, _⟩ <;> simp

theorem solveAll_cons_of_ok {s s' : Subst} {a b : Ty} {eqs : List Equation} (h : step s a b = (.ok (), s')) :
    solveAll s ((a, b) :: eqs) = solveAll s' eqs := by
  rw [solveAll, stepAll, h, andThen_ok, solveAll]

theorem solveAll_cons_ok_iff {s s' : Subst} {a b : Ty} {eqs : List Equation} :
    solveAll s ((a, b) :: eqs) = .ok s' ↔ (step s a b).1 = .ok () ∧ solveAll (step s a b).2 eqs = .ok s' := by
  rw [solveAll_eq_ok_iff, solveAll_eq_ok_iff, stepAll, andThen]
  rcases step s a b with ⟨_ | _, s₁⟩ <;> simp

section Solutions

variable {θ s s' : Subst} {a b : Ty} {eqs eqs' : List Equation}

theorem Solution.head (h : Solution Ty.eraseEffects θ s ((a, b) :: eqs)) : Solution Ty.eraseEffects θ s [(a, b)] :=
  ⟨h.absorbs, fun e he => h.solves e (List.mem_cons.2 (.inl (List.mem_singleton.1 he)))⟩

/-- What absorbs the state after a successful call is what absorbs the state before and solves its equation. -/
theorem step_solution_iff (hs : s.Idempotent) (hok : (step s a b).1 = .ok ()) :
    Solution Ty.eraseEffects θ s ((a, b) :: eqs) ↔ Solution Ty.eraseEffects θ (step s a b).2 eqs := by
  constructor
  · intro h
    obtain ⟨left, hleft, -⟩ := step_solution Ty.view_eraseEffects hs h.head
    exact ⟨hleft.absorbs, (List.forall_mem_cons.1 h.solves).2⟩
  · rintro ⟨habs, hrest⟩
    obtain ⟨habs', hab⟩ := step_solves hs hok
    have happly := Subst.view_apply_apply Ty.view_eraseEffects habs
    -- `θ` does not notice the new state, so it inherits what the new state absorbs and equates
    refine ⟨fun v => ?_, List.forall_mem_cons.2 ⟨?_, hrest⟩⟩
    · rw [← happly, Subst.eraseEffects_apply_congr (habs' v)]; exact habs v
    · rw [← happly a, ← happly b]
      exact Subst.eraseEffects_apply_congr (hab _ List.mem_cons_self)

theorem solveAll_idempotent (hs : s.Idempotent) (h : solveAll s eqs = .ok s') : s'.Idempotent := by
  induction eqs generalizing s with
  | nil => cases h; exact hs
  | cons e eqs ih => exact ih (step_idempotent hs e.1 e.2) (solveAll_cons_ok_iff.1 h).2

/-- What absorbs the state reached is what absorbs the state before and solves the equations. -/
theorem solveAll_solution_iff (hs : s.Idempotent) (h : solveAll s eqs = .ok s') :
    Solution Ty.eraseEffects θ s eqs ↔ ∀ v, (θ.apply (s'.image v)).eraseEffects = (θ.image v).eraseEffects := by
  induction eqs generalizing s with
  | nil =>
    cases h
    exact ⟨Solution.absorbs, fun habs => ⟨habs, List.forall_mem_nil _⟩⟩
  | cons e eqs ih =>
    obtain ⟨hok, hrest⟩ := solveAll_cons_ok_iff.1 h
    rw [← ih (step_idempotent hs e.1 e.2) hrest]
    exact step_solution_iff hs hok

/-- Equations that have a solution together are all added. -/
theorem exists_solveAll (hs : s.Idempotent) (hθ : Solution Ty.eraseEffects θ s eqs) : ∃ s', solveAll s eqs = .ok s' := by
  induction eqs generalizing s with
  | nil => exact ⟨s, rfl⟩
  | cons e eqs ih =>
    obtain ⟨a, b⟩ := e
    have hok := step_ok_of_solution hs hθ.head
    obtain ⟨s', h⟩ := ih (step_idempotent hs a b) ((step_solution_iff hs hok).1 hθ)
    exact ⟨s', solveAll_cons_ok_iff.2 ⟨hok, h⟩⟩

theorem solveAll_solves (hs : s.Idempotent) (h : solveAll s eqs = .ok s') : Solution Ty.eraseEffects s' s eqs :=
  (solveAll_solution_iff hs h).2 fun v => congrArg _ ((solveAll_idempotent hs h).apply_apply (.var v))

/-! ## Rearranged equations -/

/-- The same equations, each written either way round, in any order. -/
def Rearranged (eqs eqs' : List Equation) : Prop :=
  ∃ turned, List.Forall₂ (fun e e' : Equation => e' = e ∨ e' = e.swap) eqs turned ∧ turned.Perm eqs'

/-- Swapping the sides of equations changes no solution. -/
theorem solves_turned_iff
    (h : List.Forall₂ (fun e e' : Equation => e' = e ∨ e' = e.swap) eqs eqs') :
    (∀ e ∈ eqs, (θ.apply e.1).eraseEffects = (θ.apply e.2).eraseEffects) ↔
      ∀ e ∈ eqs', (θ.apply e.1).eraseEffects = (θ.apply e.2).eraseEffects := by
  induction h with
  | nil => rfl
  | cons hturn _ ih =>
    rw [List.forall_mem_cons, List.forall_mem_cons, ih]
    rcases hturn with rfl | rfl
    · rfl
    · rw [Prod.fst_swap, Prod.snd_swap, eq_comm]

theorem Rearranged.solution_iff (h : Rearranged eqs eqs') :
    Solution Ty.eraseEffects θ s eqs ↔ Solution Ty.eraseEffects θ s eqs' := by
  obtain ⟨turned, hturned, hperm⟩ := h
  have hsolves : (∀ e ∈ eqs, (θ.apply e.1).eraseEffects = (θ.apply e.2).eraseEffects) ↔
      ∀ e ∈ eqs', (θ.apply e.1).eraseEffects = (θ.apply e.2).eraseEffects := by
    rw [solves_turned_iff hturned]
    simp only [hperm.mem_iff]
  constructor
  · rintro ⟨habs, hsol⟩; exact ⟨habs, hsolves.1 hsol⟩
  · rintro ⟨habs, hsol⟩; exact ⟨habs, hsolves.2 hsol⟩

theorem Rearranged.exists_solveAll_iff (h : Rearranged eqs eqs') (hs : s.Idempotent) :
    (∃ s', solveAll s eqs = .ok s') ↔ ∃ s', solveAll s eqs' = .ok s' := by
  constructor
  · rintro ⟨s', hs'⟩; exact exists_solveAll hs (h.solution_iff.1 (solveAll_solves hs hs'))
  · rintro ⟨s', hs'⟩; exact exists_solveAll hs (h.solution_iff.2 (solveAll_solves hs hs'))

end Solutions

/-! ## States that absorb each other -/

section Exchange

variable {s s' : Subst}

/-- A variable bound in `s'` and not in `s` is a name for one bound in `s` and not in `s'`. -/
theorem exchanged_var (hs' : s'.Idempotent)
    (h : ∀ v, (s.apply (s'.image v)).eraseEffects = (s.image v).eraseEffects) {v : TypeVar}
    (hv : s.get? v = none) (hv' : s'.contains v = true) :
    ∃ w, s.contains w = true ∧ s'.get? w = none ∧ s.image w = .var v := by
  have himage : s.apply (s'.image v) = .var v := by
    refine Ty.eq_var_of_eraseEffects ?_
    rw [h v, Subst.image_of_get?_none hv]; rfl
  cases hw : s'.image v with
  | base | option | list | tuple | arrow => rw [hw] at himage; cases himage
  | var w =>
    rw [hw] at himage
    have hunbound : s'.get? w = none := by
      refine hs'.get?_of_mem_apply (t := .var v) ?_
      rw [Subst.apply, hw, Ty.vars]; exact List.mem_singleton_self w
    refine ⟨w, ?_, hunbound, himage⟩
    rw [OrderedMap.contains, Option.isSome_iff_ne_none]
    -- otherwise `w` would be `v`, which `s'` binds
    intro hnone
    have hwv : Ty.var w = .var v := (Subst.image_of_get?_none hnone).symm.trans himage
    cases hwv
    rw [OrderedMap.contains, hunbound] at hv'; cases hv'

theorem card_unshared_le (hs' : s'.Idempotent)
    (h : ∀ v, (s.apply (s'.image v)).eraseEffects = (s.image v).eraseEffects) :
    (s'.keys.toFinset \ s.keys.toFinset).card ≤ (s.keys.toFinset \ s'.keys.toFinset).card := by
  have hkeys : ∀ (m n : Subst) (v : TypeVar),
      v ∈ m.keys.toFinset \ n.keys.toFinset ↔ m.contains v = true ∧ n.get? v = none := by
    intro m n v
    rw [Finset.mem_sdiff, List.mem_toFinset, List.mem_toFinset, OrderedMap.mem_keys, OrderedMap.mem_keys,
      OrderedMap.contains, OrderedMap.contains, Option.not_isSome_iff_eq_none]
  -- a variable that only `s'` binds has a name, which only `s` binds and which is the name of no other
  refine Finset.card_le_card_of_forall_subsingleton (fun v w => s.image w = .var v) (fun v hv => ?_)
    fun w _ v hv v' hv' => ?_
  · obtain ⟨hv', hv⟩ := (hkeys s' s v).1 hv
    obtain ⟨w, hw, hw', himage⟩ := exchanged_var hs' h hv hv'
    exact ⟨w, (hkeys s s' w).2 ⟨hw, hw'⟩, himage⟩
  · have heq : Ty.var v = .var v' := hv.2.symm.trans hv'.2
    cases heq; rfl

/-- States that absorb each other up to latent effects bind equally many variables. -/
theorem size_eq_of_absorbs (hs : s.Idempotent) (hs' : s'.Idempotent)
    (h : ∀ v, (s.apply (s'.image v)).eraseEffects = (s.image v).eraseEffects)
    (h' : ∀ v, (s'.apply (s.image v)).eraseEffects = (s'.image v).eraseEffects) : s.size = s'.size := by
  have hsize : ∀ m : Subst, m.keys.toFinset.card = m.size := by
    intro m
    rw [List.toFinset_card_of_nodup m.nodup_keys, OrderedMap.keys, List.length_map]; rfl
  rw [← hsize s, ← hsize s', ← Finset.card_sdiff_eq_card_sdiff_iff]
  exact le_antisymm (card_unshared_le hs h') (card_unshared_le hs' h)

end Exchange

/-! ## Order and orientation -/

/-- Equations can be added to a solver without bindings if and only if they can be in another order and with sides
swapped. The two states then bind equally many variables, and up to latent effects each is what the other leaves
when it is applied after it. -/
theorem solveAll_rearranged {eqs eqs' : List Equation} (h : Rearranged eqs eqs') :
    ((∃ s, solveAll .empty eqs = .ok s) ↔ ∃ s', solveAll .empty eqs' = .ok s') ∧
    ∀ s s', solveAll .empty eqs = .ok s → solveAll .empty eqs' = .ok s' →
      s.size = s'.size ∧
      ∀ v, (s'.apply (s.apply (.var v))).eraseEffects = (s'.apply (.var v)).eraseEffects ∧
        (s.apply (s'.apply (.var v))).eraseEffects = (s.apply (.var v)).eraseEffects := by
  have hempty := Subst.idempotent_empty
  refine ⟨h.exists_solveAll_iff hempty, fun s s' hs hs' => ?_⟩
  -- each state solves the equations in the other order too, and so absorbs the other state
  have habs : ∀ v, (s'.apply (s.image v)).eraseEffects = (s'.image v).eraseEffects :=
    (solveAll_solution_iff hempty hs).1 (h.solution_iff.2 (solveAll_solves hempty hs'))
  have habs' : ∀ v, (s.apply (s'.image v)).eraseEffects = (s.image v).eraseEffects :=
    (solveAll_solution_iff hempty hs').1 (h.solution_iff.1 (solveAll_solves hempty hs))
  refine ⟨?_, fun v => ⟨habs v, habs' v⟩⟩
  exact size_eq_of_absorbs (solveAll_idempotent hempty hs) (solveAll_idempotent hempty hs') habs' habs

/-- The two orders bind different variables: the first state has `t0 := t1` where the second has `t1 := t0`, and their
arrows carry different effects. -/
theorem solveAll_rearranged_exchange :
    let eqs : List Equation := [(.var ⟨0⟩, .var ⟨1⟩), (.var ⟨2⟩, .arrow (.var ⟨0⟩) .weak (.base .int)),
      (.var ⟨2⟩, .arrow (.var ⟨1⟩) .strong (.base .int))]
    let eqs' : List Equation := [(.var ⟨1⟩, .var ⟨0⟩), (.arrow (.var ⟨1⟩) .strong (.base .int), .var ⟨2⟩),
      (.arrow (.var ⟨0⟩) .weak (.base .int), .var ⟨2⟩)]
    let s : Subst := .ofList [(⟨0⟩, .var ⟨1⟩), (⟨2⟩, .arrow (.var ⟨1⟩) .weak (.base .int))]
    let s' : Subst := .ofList [(⟨1⟩, .var ⟨0⟩), (⟨2⟩, .arrow (.var ⟨0⟩) .strong (.base .int))]
    Rearranged eqs eqs' ∧ solveAll .empty eqs = .ok s ∧ solveAll .empty eqs' = .ok s' ∧ s.size = s'.size ∧
      ∀ v, (s'.apply (s.apply (.var v))).eraseEffects = (s'.apply (.var v)).eraseEffects ∧
        (s.apply (s'.apply (.var v))).eraseEffects = (s.apply (.var v)).eraseEffects := by
  intro eqs eqs' s s'
  have hrearranged : Rearranged eqs eqs' :=
    ⟨eqs.map Prod.swap, .cons (.inr rfl) (.cons (.inr rfl) (.cons (.inr rfl) .nil)), .cons _ (.swap _ _ _)⟩
  have hs : solveAll .empty eqs = .ok s := by
    refine (solveAll_cons_of_ok ((solve_of_binding rfl).trans (solve_nil _))).trans ?_
    refine (solveAll_cons_of_ok ((solve_of_binding rfl).trans (solve_nil _))).trans ?_
    refine (solveAll_cons_of_ok ((solve_of_parts rfl).trans ?_)).trans rfl
    exact (solve_of_parts rfl).trans ((solve_of_parts rfl).trans (solve_nil _))
  have hs' : solveAll .empty eqs' = .ok s' := by
    refine (solveAll_cons_of_ok ((solve_of_binding rfl).trans (solve_nil _))).trans ?_
    refine (solveAll_cons_of_ok ((solve_of_binding rfl).trans (solve_nil _))).trans ?_
    refine (solveAll_cons_of_ok ((solve_of_parts rfl).trans ?_)).trans rfl
    exact (solve_of_parts rfl).trans ((solve_of_parts rfl).trans (solve_nil _))
  exact ⟨hrearranged, hs, hs', (solveAll_rearranged hrearranged).2 s s' hs hs'⟩

end EffectTyping.Unify
