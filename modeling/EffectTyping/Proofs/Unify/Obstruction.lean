/-
Where a call of the solver fails. Types are compared from left to right, and a failure names the first place where they
cannot be made equal: under the bindings the call leaves, the two types are obstructed at some position, and they are
alike up to latent effects at every position to the left of it. The failure is found among types that have been taken
apart and rewritten on the way; an induction along the run carries it back, one level of the types at a time, to
the equation the call was given.
-/
import EffectTyping.Proofs.Unify.History

namespace EffectTyping

/-! ## Positions -/

namespace Ty

/-- What a type is made of, from left to right. -/
def parts : Ty → List Ty
  | .var _ => []
  | .base _ => []
  | .option t => [t]
  | .list t => [t]
  | .tuple ts => ts
  | .arrow a _ r => [a, r]

/-- The type at a position, which gives the number of the part to go into at each level, from the outside in. -/
def subterm? (t : Ty) (position : List Nat) : Option Ty := position.foldlM (fun t i => t.parts[i]?) t

theorem subterm?_cons {t x : Ty} {i : Nat} (h : t.parts[i]? = some x) (position : List Nat) :
    t.subterm? (i :: position) = x.subterm? position := by
  rw [subterm?, List.foldlM_cons, h]; rfl

theorem subterm?_singleton {t x : Ty} {i : Nat} (h : t.parts[i]? = some x) : t.subterm? [i] = some x :=
  subterm?_cons h []

/-- Parts stay parts, whatever is put in for the variables. -/
theorem parts_apply {s : Subst} {t x : Ty} {i : Nat} (h : t.parts[i]? = some x) :
    (s.apply t).parts[i]? = some (s.apply x) := by
  have hmap : ∀ ts : List Ty, ts[i]? = some x → (ts.map s.apply)[i]? = some (s.apply x) := by
    intro ts hts
    rw [List.getElem?_map, hts]; rfl
  cases t with
  | var v => cases h
  | base b => cases h
  | option t => exact hmap [t] h
  | list t => exact hmap [t] h
  | tuple ts => rw [Subst.apply, Subst.applyAll_eq_map]; exact hmap ts h
  | arrow a e r => exact hmap [a, r] h

end Ty

namespace Unify

/-- The equations an equation is taken apart into are between parts with the same number. -/
theorem Decomposed.getElem? {t u x y : Ty} {eqs : List Equation} (h : Decomposed t u eqs) {i : Nat}
    (hi : eqs[i]? = some (x, y)) : t.parts[i]? = some x ∧ u.parts[i]? = some y := by
  have hzip : ∀ ts us : List Ty, (ts.zip us)[i]? = some (x, y) → ts[i]? = some x ∧ us[i]? = some y :=
    fun _ _ => List.getElem?_zip_eq_some.1
  cases h with
  | same t => cases hi
  | option t u => exact hzip [t] [u] hi
  | list t u => exact hzip [t] [u] hi
  | tuple hl => exact hzip _ _ hi
  | arrow a b r q e e' => exact hzip [a, r] [b, q] hi

/-! ## The first obstruction -/

/-- At the position `p` the types are obstructed. At every position to the left of it, which is an earlier neighbour of
`p` or of a position above `p`, they are alike up to latent effects. -/
structure FirstObstruction (t u : Ty) (p : List Nat) (e : UnifyError) : Prop where
  here : ∃ x y, t.subterm? p = some x ∧ u.subterm? p = some y ∧ Obstructed x y e
  left : ∀ above i j below, p = above ++ j :: below → i < j →
    ∃ x y, t.subterm? (above ++ [i]) = some x ∧ u.subterm? (above ++ [i]) = some y ∧
      x.eraseEffects = y.eraseEffects

theorem Obstructed.first {t u : Ty} {e : UnifyError} (h : Obstructed t u e) : FirstObstruction t u [] e where
  here := ⟨t, u, rfl, rfl, h⟩
  left above i j below hp := by simp at hp

/-- One level up: the parts before the obstructed ones are alike. -/
theorem FirstObstruction.part {t u x y : Ty} {k : Nat} {p : List Nat} {e : UnifyError}
    (h : FirstObstruction x y p e) (ht : t.parts[k]? = some x) (hu : u.parts[k]? = some y)
    (hbefore : ∀ i < k, ∃ x y, t.parts[i]? = some x ∧ u.parts[i]? = some y ∧ x.eraseEffects = y.eraseEffects) :
    FirstObstruction t u (k :: p) e := by
  constructor
  · rw [Ty.subterm?_cons ht, Ty.subterm?_cons hu]; exact h.here
  · intro above i j below hp hij
    cases above with
    | nil =>
      obtain ⟨rfl, rfl⟩ := List.cons.inj hp
      obtain ⟨x', y', hx, hy, halike⟩ := hbefore i hij
      exact ⟨x', y', Ty.subterm?_singleton hx, Ty.subterm?_singleton hy, halike⟩
    | cons n above =>
      obtain ⟨rfl, hp'⟩ := List.cons.inj hp
      rw [List.cons_append, Ty.subterm?_cons ht, Ty.subterm?_cons hu]
      exact h.left above i j below hp' hij

/-! ## Failing runs -/

/-- Under `s` the first of the equations that is not solved is obstructed, by `e`. -/
def StuckOn (s : Subst) (eqs : List Equation) (e : UnifyError) : Prop :=
  ∃ (k : Nat) (t u : Ty) (p : List Nat), eqs[k]? = some (t, u) ∧ FirstObstruction (s.apply t) (s.apply u) p e ∧
    ∀ i < k, ∀ q : Equation, eqs[i]? = some q → (s.apply q.1).eraseEffects = (s.apply q.2).eraseEffects

/-- An equation is stuck where one of its parts is, and solved where all of them are. -/
theorem StuckOn.of_parts {s : Subst} {t u : Ty} {eqs rest : List Equation} {e : UnifyError}
    (hd : demand t u = .parts eqs) (h : StuckOn s (eqs ++ rest) e) : StuckOn s ((t, u) :: rest) e := by
  have hdec := demand_decomposed hd
  obtain ⟨k, x, y, p, hk, hfirst, hbefore⟩ := h
  by_cases hin : k < eqs.length
  · rw [List.getElem?_append_left hin] at hk
    obtain ⟨hx, hy⟩ := hdec.getElem? hk
    refine ⟨0, t, u, k :: p, rfl, hfirst.part (Ty.parts_apply hx) (Ty.parts_apply hy) fun i hi => ?_, by simp⟩
    -- the parts further left are equations that were solved before
    obtain ⟨⟨x', y'⟩, hpart⟩ : ∃ q, eqs[i]? = some q := ⟨_, List.getElem?_eq_getElem (by omega)⟩
    obtain ⟨hx', hy'⟩ := hdec.getElem? hpart
    refine ⟨_, _, Ty.parts_apply hx', Ty.parts_apply hy', hbefore i hi (x', y') ?_⟩
    rw [List.getElem?_append_left (by omega), hpart]
  · rw [List.getElem?_append_right (by omega)] at hk
    refine ⟨k - eqs.length + 1, x, y, p, hk, hfirst, fun i hi q hq => ?_⟩
    cases i with
    | zero =>
      cases hq
      refine hdec.alike fun part hpart => ?_
      obtain ⟨j, hj⟩ := List.getElem?_of_mem hpart
      have hlt : j < eqs.length := (List.getElem?_eq_some_iff.1 hj).1
      exact hbefore j (by omega) part (by rw [List.getElem?_append_left hlt, hj])
    | succ i =>
      refine hbefore (eqs.length + i) (by omega) q ?_
      rw [List.getElem?_append_right (by omega), Nat.add_sub_cancel_left]; exact hq

/-- Under bindings that do not tell `v` from `r`, equations are stuck where they are with `r` put in for `v`. -/
theorem StuckOn.of_binding {s : Subst} {t u r : Ty} {v : TypeVar} {rest : List Equation} {e : UnifyError}
    (hd : demand t u = .binding v r) (hvr : s.image v = s.apply r)
    (h : StuckOn s (Equations.apply (.singleton v r) rest) e) : StuckOn s ((t, u) :: rest) e := by
  have hsame : ∀ x, s.apply (Subst.apply (.singleton v r) x) = s.apply x :=
    Subst.view_apply_singleton Ty.view_id hvr
  obtain ⟨k, x, y, p, hk, hfirst, hbefore⟩ := h
  rw [Equations.apply, List.getElem?_map, Option.map_eq_some_iff] at hk
  obtain ⟨⟨x, y⟩, hk, hxy⟩ := hk
  cases hxy
  rw [hsame, hsame] at hfirst
  refine ⟨k + 1, x, y, p, hk, hfirst, fun i hi q hq => ?_⟩
  cases i with
  | zero =>
    cases hq
    exact (demand_binding_solves_iff hd).2 (congrArg Ty.eraseEffects hvr)
  | succ i =>
    rw [List.getElem?_cons_succ] at hq
    have halike := hbefore i (by omega) (q.apply (.singleton v r)) (by rw [Equations.apply, List.getElem?_map, hq]; rfl)
    rwa [Equation.apply, hsame, hsame] at halike

/-- Pending equations hold no bound variable, so that the bindings do not change them. -/
theorem Settled.apply_head {s : Subst} {t u : Ty} {rest : List Equation} (hs : Settled s ((t, u) :: rest)) :
    s.apply t = t ∧ s.apply u = u := by
  have hunbound : ∀ w, w ∈ t.vars ∨ w ∈ u.vars → s.image w = .var w := fun w hw =>
    Subst.image_of_get?_none (hs.pending w (mem_vars_cons.2 (.inl hw)))
  exact ⟨Subst.apply_eq_self_iff.2 fun w hw => hunbound w (.inl hw),
    Subst.apply_eq_self_iff.2 fun w hw => hunbound w (.inr hw)⟩

theorem solve_stuckOn {s : Subst} {eqs : List Equation} {e : UnifyError} (hs : Settled s eqs)
    (h : (solve s eqs).1 = .error e) : StuckOn (solve s eqs).2 eqs e := by
  induction s, eqs using solve.induct with
  | case1 s => rw [solve_nil] at h; cases h
  | case2 s t u rest eqs hd ih =>
    rw [solve_of_parts hd] at h ⊢
    exact .of_parts hd (ih (hs.parts hd) h)
  | case3 s t u rest v r hd ih =>
    rw [solve_of_binding hd] at h ⊢
    have hs' := hs.binding hd
    -- the state reached absorbs the new binding
    have habs := (solve_extends hs'.idempotent (Equations.apply (.singleton v r) rest)).absorbs
    have hvr := ((absorbs_bind_iff Ty.view_id (hs.unbound hd (.inl rfl))).1 fun w => habs (.var w)).2
    exact .of_binding hd hvr (ih hs' h)
  | case4 s t u rest e' hd =>
    rw [solve_of_impossible hd] at h ⊢
    cases h
    obtain ⟨ht, hu⟩ := hs.apply_head
    refine ⟨0, t, u, [], rfl, ?_, by simp⟩
    dsimp only
    rw [ht, hu]; exact (demand_obstructed hd).first

/-- A call that fails names the first obstruction between its two types under the bindings it leaves. -/
theorem step_firstObstruction {s : Subst} (hs : Reachable s) {a b : Ty} {e : UnifyError}
    (h : (step s a b).1 = .error e) :
    ∃ p, FirstObstruction ((step s a b).2.apply a) ((step s a b).2.apply b) p e := by
  have hidem := reachable_idempotent hs
  have habs := (step_extends hidem a b).absorbs
  obtain ⟨k, t, u, p, hk, hfirst, -⟩ := solve_stuckOn (settled_step hidem a b) h
  cases k with
  | zero =>
    cases hk
    rw [← habs a, ← habs b]; exact ⟨p, hfirst⟩
  | succ k => cases hk

/-- With `t0 := t1 list` bound before, `(t2 -> int, t1 option) = (bool -> int, t0 option)` binds `t2` and then meets `t1`
inside its own type. The arrows to the left carry different effects. -/
theorem step_firstObstruction_behind_arrows :
    let s := (step .empty (.var ⟨0⟩) (.list (.var ⟨1⟩))).2
    let a : Ty := .tuple [.arrow (.var ⟨2⟩) .weak (.base .int), .option (.var ⟨1⟩)]
    let b : Ty := .tuple [.arrow (.base .bool) .strong (.base .int), .option (.var ⟨0⟩)]
    Reachable s ∧ (step s a b).1 = .error (.occurs ⟨1⟩ (.list (.var ⟨1⟩))) ∧
      ∃ p, FirstObstruction (.tuple [.arrow (.base .bool) .weak (.base .int), .option (.var ⟨1⟩)])
        (.tuple [.arrow (.base .bool) .strong (.base .int), .option (.list (.var ⟨1⟩))]) p
        (.occurs ⟨1⟩ (.list (.var ⟨1⟩))) := by
  intro s a b
  have hbound : step .empty (.var ⟨0⟩) (.list (.var ⟨1⟩)) = (.ok (), .singleton ⟨0⟩ (.list (.var ⟨1⟩))) :=
    (solve_of_binding rfl).trans (solve_nil _)
  have hs : s = .singleton ⟨0⟩ (.list (.var ⟨1⟩)) := congrArg Prod.snd hbound
  have hstep : step s a b = (.error (.occurs ⟨1⟩ (.list (.var ⟨1⟩))),
      .ofList [(⟨0⟩, .list (.var ⟨1⟩)), (⟨2⟩, .base .bool)]) := by
    rw [hs]
    refine (solve_of_parts rfl).trans ((solve_of_parts rfl).trans ((solve_of_binding rfl).trans ?_))
    exact (solve_of_parts rfl).trans ((solve_of_parts rfl).trans (solve_of_impossible rfl))
  have hfail : (step s a b).1 = .error (.occurs ⟨1⟩ (.list (.var ⟨1⟩))) := congrArg Prod.fst hstep
  obtain ⟨p, hfirst⟩ := step_firstObstruction (.step _ _ .start) hfail
  rw [hstep] at hfirst
  exact ⟨.step _ _ .start, hfail, p, hfirst⟩

end Unify

end EffectTyping
