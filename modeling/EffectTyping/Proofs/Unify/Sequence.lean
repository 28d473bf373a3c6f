/-
Equations given to the solver together and one after the other. A list of pending equations may be cut in two: the
second part can wait until the first is solved and be rewritten by the bindings of the whole state then, instead of by
each new binding at once (`solve_append`). So one equation between tuples is the equations between their components,
one call for each, with the same result, the same failure and the same bindings left. And an equation whose sides are
alike under the bindings there are asks for none; a call changes nothing exactly for such equations, and for every one
solved before.
-/
import EffectTyping.Proofs.Unify.History

namespace EffectTyping

namespace Equations

theorem apply_append (s : Subst) (eqs rest : List Equation) :
    apply s (eqs ++ rest) = apply s eqs ++ apply s rest :=
  List.map_append

/-- Bindings that a state absorbs may be left out before it is applied. -/
theorem apply_apply {s s' : Subst} (h : ∀ t, s'.apply (s.apply t) = s'.apply t) (eqs : List Equation) :
    apply s' (apply s eqs) = apply s' eqs := by
  unfold apply
  rw [List.map_map]
  refine List.map_congr_left fun e _ => ?_
  simp only [Function.comp_apply, Equation.apply, h]

end Equations

namespace Unify

/-! ## Cutting the pending equations in two -/

theorem Settled.apply_eq_self {s : Subst} {eqs : List Equation} (hs : Settled s eqs) : Equations.apply s eqs = eqs := by
  have hself : ∀ e ∈ eqs, ∀ t, (∀ v ∈ t.vars, v ∈ e.vars) → s.apply t = t := by
    intro e he t ht
    refine Subst.apply_eq_self_iff.2 fun v hv => Subst.image_of_get?_none (hs.pending v ?_)
    exact List.mem_flatMap.2 ⟨e, he, ht v hv⟩
  refine (List.map_congr_left fun e he => ?_).trans (List.map_id eqs)
  have hleft := hself e he e.1 fun v hv => List.mem_append_left _ hv
  have hright := hself e he e.2 fun v hv => List.mem_append_right _ hv
  rw [Equation.apply, hleft, hright]; rfl

/-- Wherever a run leads after `v` has been bound, the state reached does not tell `v` from its type. -/
theorem solve_bind_absorbs {s : Subst} {t u r : Ty} {v : TypeVar} {rest : List Equation}
    (hs : Settled s ((t, u) :: rest)) (hd : demand t u = .binding v r) (eqs : List Equation) (x : Ty) :
    (solve (s.bind v r) eqs).2.apply (Subst.apply (.singleton v r) x) = (solve (s.bind v r) eqs).2.apply x := by
  have habs := (solve_extends (hs.binding hd).idempotent eqs).absorbs
  have hvr := ((absorbs_bind_iff Ty.view_id (hs.unbound hd (.inl rfl))).1 fun w => habs (.var w)).2
  exact Subst.view_apply_singleton Ty.view_id hvr x

/-- The second part of the pending equations can wait for the first. -/
theorem solve_append (s : Subst) (eqs : List Equation) :
    ∀ {rest : List Equation}, Settled s (eqs ++ rest) →
      solve s (eqs ++ rest) = andThen (solve s eqs) fun s' => solve s' (Equations.apply s' rest) := by
  induction s, eqs using solve.induct with
  | case1 s =>
    intro rest hs
    rw [List.nil_append] at hs ⊢
    rw [solve_nil, andThen_ok, hs.apply_eq_self]
  | case2 s t u others eqs hd ih =>
    intro rest hs
    rw [List.cons_append] at hs ⊢
    rw [solve_of_parts hd, solve_of_parts hd, ← List.append_assoc]
    refine ih ?_
    rw [List.append_assoc]; exact hs.parts hd
  | case3 s t u others v r hd ih =>
    intro rest hs
    rw [List.cons_append] at hs ⊢
    have hs' := hs.binding hd
    rw [Equations.apply_append] at hs'
    rw [solve_of_binding hd, solve_of_binding hd, Equations.apply_append, ih hs']
    -- what waits has been rewritten by the new binding already, which the state reached absorbs
    refine andThen_congr ?_
    rw [Equations.apply_apply (solve_bind_absorbs hs hd _)]
  | case4 s t u others e hd =>
    intro rest _
    rw [List.cons_append, solve_of_impossible hd, solve_of_impossible hd]; rfl

/-! ## Equations one after the other -/

theorem settled_apply {s : Subst} (hs : s.Idempotent) (eqs : List Equation) : Settled s (Equations.apply s eqs) := by
  refine ⟨hs, fun v hv => ?_⟩
  obtain ⟨_, he, hv⟩ := List.mem_flatMap.1 hv
  obtain ⟨e, -, rfl⟩ := List.mem_map.1 he
  rcases List.mem_append.1 hv with hv | hv
  · exact hs.get?_of_mem_apply hv
  · exact hs.get?_of_mem_apply hv

/-- Calls for one equation after the other come to the same as one run on all of them. -/
theorem stepAll_eq_solve {s : Subst} (hs : s.Idempotent) (eqs : List Equation) :
    stepAll s eqs = solve s (Equations.apply s eqs) := by
  induction eqs generalizing s with
  | nil => rw [stepAll, Equations.apply, List.map_nil, solve_nil]
  | cons e eqs ih =>
    obtain ⟨a, b⟩ := e
    have hcut : solve s (Equations.apply s ((a, b) :: eqs)) =
        andThen (step s a b) fun s' => solve s' (Equations.apply s' (Equations.apply s eqs)) :=
      solve_append s [(s.apply a, s.apply b)] (settled_apply hs ((a, b) :: eqs))
    rw [hcut, stepAll]
    refine andThen_congr ?_
    rw [ih (step_idempotent hs a b), Equations.apply_apply (step_extends hs a b).absorbs]

/-- A call for an equation between tuples of the same length is a call for each pair of components, from left to right
and up to the first failure. -/
theorem step_tuple {s : Subst} (hs : Reachable s) {ts us : List Ty} (hl : ts.length = us.length) :
    step s (.tuple ts) (.tuple us) = stepAll s (ts.zip us) := by
  have hlength : (s.applyAll ts).length = (s.applyAll us).length := by
    rw [Subst.applyAll_eq_map, Subst.applyAll_eq_map, List.length_map, List.length_map, hl]
  have hparts : demand (s.apply (.tuple ts)) (s.apply (.tuple us)) =
      .parts ((s.applyAll ts).zip (s.applyAll us)) := by
    rw [Subst.apply, Subst.apply, demand, if_pos hlength]
  have hzip : (s.applyAll ts).zip (s.applyAll us) = Equations.apply s (ts.zip us) := by
    rw [Subst.applyAll_eq_map, Subst.applyAll_eq_map, List.zip_map]; rfl
  rw [step, solve_of_parts hparts, List.append_nil, hzip, stepAll_eq_solve (reachable_idempotent hs)]

/-- With `t0 := t1 list` bound before, the components of `(t0 * t2 * int)` and `(bool list * t1 option * string)` bind
`t1` and then `t2`, which sees what `t1` is by then, and the third call fails. -/
theorem step_tuple_failure_behind_bindings :
    let s := (step .empty (.var ⟨0⟩) (.list (.var ⟨1⟩))).2
    let ts : List Ty := [.var ⟨0⟩, .var ⟨2⟩, .base .int]
    let us : List Ty := [.list (.base .bool), .option (.var ⟨1⟩), .base .string]
    Reachable s ∧ ts.length = us.length ∧ step s (.tuple ts) (.tuple us) = stepAll s (ts.zip us) ∧
      step s (.tuple ts) (.tuple us) = (.error (.mismatch (.base .int) (.base .string)),
        .ofList [(⟨0⟩, .list (.base .bool)), (⟨1⟩, .base .bool), (⟨2⟩, .option (.base .bool))]) := by
  intro s ts us
  have hbound : step .empty (.var ⟨0⟩) (.list (.var ⟨1⟩)) = (.ok (), .singleton ⟨0⟩ (.list (.var ⟨1⟩))) :=
    (solve_of_binding rfl).trans (solve_nil _)
  have hs : s = .singleton ⟨0⟩ (.list (.var ⟨1⟩)) := congrArg Prod.snd hbound
  refine ⟨.step _ _ .start, rfl, step_tuple (.step _ _ .start) rfl, ?_⟩
  rw [hs]
  refine (solve_of_parts rfl).trans ((solve_of_parts rfl).trans ?_)
  exact (solve_of_binding rfl).trans ((solve_of_binding rfl).trans (solve_of_impossible rfl))

/-! ## Calls that change nothing -/

/-- Equations between types that are alike bind nothing. -/
theorem solve_alike {s : Subst} {eqs : List Equation} (h : ∀ e ∈ eqs, e.1.eraseEffects = e.2.eraseEffects) :
    solve s eqs = (.ok (), s) := by
  induction s, eqs using solve.induct with
  | case1 s => exact solve_nil s
  | case2 s t u rest eqs hd ih =>
    obtain ⟨hhead, hrest⟩ := List.forall_mem_cons.1 h
    have hparts := (demand_decomposed hd).solves (θ := .empty) Ty.view_eraseEffects (by simpa using hhead)
    rw [solve_of_parts hd]
    refine ih (List.forall_mem_append.2 ⟨?_, hrest⟩)
    simpa using hparts
  | case3 s t u rest v r hd ih =>
    -- the variable would be alike to a type it does not occur in
    obtain ⟨hsides, hv⟩ := demand_binding hd
    have hr : r.eraseEffects = .var v := by
      rcases hsides with ⟨rfl, rfl⟩ | ⟨rfl, rfl⟩
      · exact (h _ List.mem_cons_self).symm
      · exact h _ List.mem_cons_self
    rw [Ty.eq_var_of_eraseEffects hr] at hv
    simp [Ty.vars] at hv
  | case4 s t u rest e hd =>
    have hne := (demand_obstructed hd).not_alike .empty
    rw [Subst.apply_empty, Subst.apply_empty] at hne
    exact absurd (h _ List.mem_cons_self) hne

theorem step_eq_self_iff {s : Subst} (hs : s.Idempotent) {a b : Ty} :
    step s a b = (.ok (), s) ↔ (s.apply a).eraseEffects = (s.apply b).eraseEffects := by
  constructor
  · intro h
    have hsolved := (step_solves hs (congrArg Prod.fst h)).solves _ List.mem_cons_self
    rwa [h] at hsolved
  · intro h
    exact solve_alike (List.forall_mem_singleton.2 h)

/-- A call succeeds and changes nothing if and only if its types are alike, up to latent effects, under the bindings
there are. So two types from scratch need no binding if and only if they are equal up to latent effects. And an equation
that has been solved changes nothing when it is given again, whatever `later` equations were given or have failed since. -/
theorem step_unchanged_iff {s : Subst} (hs : Reachable s) (a b : Ty) :
    (step s a b = (.ok (), s) ↔ (s.apply a).eraseEffects = (s.apply b).eraseEffects) ∧
    (unify a b = .ok .empty ↔ a.eraseEffects = b.eraseEffects) ∧
    ((step s a b).1 = .ok () → ∀ later : List Equation,
      step (run (step s a b).2 later) a b = (.ok (), run (step s a b).2 later)) := by
  have hidem := reachable_idempotent hs
  refine ⟨step_eq_self_iff hidem, ?_, fun hok later => ?_⟩
  · rw [unify_eq_ok_iff, step_eq_self_iff Subst.idempotent_empty, Subst.apply_empty, Subst.apply_empty]
  · have hnext := step_idempotent hidem a b
    have hsolved := (step_solves hidem hok).solves _ List.mem_cons_self
    exact (step_eq_self_iff (run_idempotent hnext later)).2 ((run_extends hnext later).alike hsolved)

/-- After `t0 := t1 -[weak]-> int`, an equation of `t0` with an arrow of another effect changes nothing. Nor does the
first equation when it is given again after one that binds `t1` and then fails. -/
theorem step_unchanged_other_effect :
    let a : Ty := .var ⟨0⟩
    let b : Ty := .arrow (.var ⟨1⟩) .weak (.base .int)
    let s := (step .empty a b).2
    let failed : Equation := (.tuple [.var ⟨1⟩, .base .int], .tuple [.base .bool, .base .string])
    Reachable s ∧ step s (.list a) (.list (.arrow (.var ⟨1⟩) .strong (.base .int))) = (.ok (), s) ∧
      unify b (.arrow (.var ⟨1⟩) .strong (.base .int)) = .ok .empty ∧
      (step .empty a b).1 = .ok () ∧ step (run s [failed]) a b = (.ok (), run s [failed]) := by
  intro a b s failed
  have hbound : step .empty a b = (.ok (), .singleton ⟨0⟩ b) := (solve_of_binding rfl).trans (solve_nil _)
  have hs : s = .singleton ⟨0⟩ b := congrArg Prod.snd hbound
  have hreach : Reachable s := .step _ _ .start
  have hok : (step .empty a b).1 = .ok () := congrArg Prod.fst hbound
  refine ⟨hreach, (step_unchanged_iff hreach _ _).1.2 ?_, (step_unchanged_iff .start _ _).2.1.2 rfl, hok,
    (step_unchanged_iff .start a b).2.2 hok [failed]⟩
  rw [hs]; rfl

end Unify

end EffectTyping
