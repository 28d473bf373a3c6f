/-
Changes of types that the solver does not notice. A relabelling keeps the build of a type and changes its labels only:
the variables one to one, the latent effects in any way. A solver in a relabelled state that is given relabelled
equations takes the same steps, fails with the relabelled failure if it fails, and stops in the relabelled state. One
lemma for each function says that it commutes with the change; for the solver it is an induction along its run. Erasing
the latent effects is a relabelling: they travel through bindings and come back with them, but decide nothing.
-/
import EffectTyping.Proofs.Unify.Run

namespace EffectTyping

/-- `f` puts `r v` for every variable `v` and `g e` for every latent effect `e` of a type, and keeps all else. -/
structure Ty.Relabels (f : Ty → Ty) (r : TypeVar → TypeVar) (g : Effect → Effect) : Prop where
  var (v : TypeVar) : f (.var v) = .var (r v)
  base (b : BaseTy) : f (.base b) = .base b
  option (t : Ty) : f (.option t) = .option (f t)
  list (t : Ty) : f (.list t) = .list (f t)
  tuple (ts : List Ty) : f (.tuple ts) = .tuple (ts.map f)
  arrow (a : Ty) (e : Effect) (q : Ty) : f (.arrow a e q) = .arrow (f a) (g e) (f q)

/-- `s'` binds the relabelled variables, each to the relabelled type. -/
def Subst.Relabelled (f : Ty → Ty) (r : TypeVar → TypeVar) (s s' : Subst) : Prop :=
  ∀ v, s'.get? (r v) = (s.get? v).map f

/-- The failure with its variable and its types relabelled. -/
def UnifyError.relabel (f : Ty → Ty) (r : TypeVar → TypeVar) : UnifyError → UnifyError
  | .mismatch left right => .mismatch (f left) (f right)
  | .occurs v t => .occurs (r v) (f t)
  | .arity left right => .arity left right

def Unify.Demand.relabel (f : Ty → Ty) (r : TypeVar → TypeVar) : Demand → Demand
  | .parts eqs => .parts (eqs.map (Prod.map f f))
  | .binding v t => .binding (r v) (f t)
  | .impossible e => .impossible (e.relabel f r)

section Relabelling

variable {f : Ty → Ty} {r : TypeVar → TypeVar} {g : Effect → Effect}

/-! ## Types -/

namespace Ty.Relabels

variable (hf : Relabels f r g)
include hf

theorem vars_eq (t : Ty) : (f t).vars = t.vars.map r := by
  induction t using Ty.induct with
  | var v => rw [hf.var]; rfl
  | base b => rw [hf.base]; rfl
  | option t ih => rw [hf.option]; exact ih
  | list t ih => rw [hf.list]; exact ih
  | tuple ts ih =>
    rw [hf.tuple, vars, vars]
    induction ts with
    | nil => rfl
    | cons t ts ihts =>
      obtain ⟨ht, hts⟩ := List.forall_mem_cons.1 ih
      rw [List.map_cons, varsAll, varsAll, List.map_append, ht, ihts hts]
  | arrow a e q iha ihq => rw [hf.arrow, vars, vars, List.map_append, iha, ihq]

theorem occurs_eq (hr : Function.Injective r) (v : TypeVar) (t : Ty) : (f t).occurs (r v) = t.occurs v := by
  rw [Bool.eq_iff_iff, occurs_iff_mem_vars, occurs_iff_mem_vars, hf.vars_eq, List.mem_map_of_injective hr]

theorem head?_eq (t : Ty) : (f t).head? = t.head? := by
  cases t with
  | var v => rw [hf.var]; rfl
  | base b => rw [hf.base]
  | option t => rw [hf.option]; rfl
  | list t => rw [hf.list]; rfl
  | tuple ts => rw [hf.tuple]; rfl
  | arrow a e q => rw [hf.arrow]; rfl

theorem eq_var_iff (hr : Function.Injective r) {v : TypeVar} {t : Ty} : f t = .var (r v) ↔ t = .var v := by
  constructor
  · intro h
    have hhead : t.head? = none := by rw [← hf.head?_eq, h]; rfl
    cases t with
    | var w => rw [hf.var, Ty.var.injEq, hr.eq_iff] at h; rw [h]
    | base | option | list | tuple | arrow => cases hhead
  · rintro rfl; exact hf.var v

end Ty.Relabels

/-! ## Bindings -/

namespace Subst.Relabelled

variable {s s' : Subst}

theorem empty : Relabelled f r .empty .empty := fun _ => rfl

theorem singleton (hr : Function.Injective r) (v : TypeVar) (t : Ty) :
    Relabelled f r (.singleton v t) (.singleton (r v) (f t)) := by
  intro w
  rw [OrderedMap.get?_singleton, OrderedMap.get?_singleton]
  by_cases hw : w = v
  · rw [if_pos hw, if_pos (congrArg r hw)]; rfl
  · rw [if_neg hw, if_neg (hr.ne hw)]; rfl

theorem apply (hf : Ty.Relabels f r g) (h : Relabelled f r s s') (t : Ty) : s'.apply (f t) = f (s.apply t) := by
  induction t using Ty.induct with
  | var v =>
    rw [hf.var, Subst.apply, Subst.apply, image, image, h v]
    cases s.get? v with
    | none => exact (hf.var v).symm
    | some t => rfl
  | base b => rw [hf.base, Subst.apply, Subst.apply, hf.base]
  | option t ih => rw [hf.option, Subst.apply, Subst.apply, hf.option, ih]
  | list t ih => rw [hf.list, Subst.apply, Subst.apply, hf.list, ih]
  | tuple ts ih =>
    rw [hf.tuple, Subst.apply, Subst.apply, hf.tuple, applyAll_eq_map, applyAll_eq_map, List.map_map, List.map_map]
    exact congrArg Ty.tuple (List.map_congr_left ih)
  | arrow a e q iha ihq => rw [hf.arrow, Subst.apply, Subst.apply, hf.arrow, iha, ihq]

theorem bind (hf : Ty.Relabels f r g) (hr : Function.Injective r) (h : Relabelled f r s s') (v : TypeVar) (t : Ty) :
    Relabelled f r (s.bind v t) (s'.bind (r v) (f t)) := by
  have hone := singleton (f := f) hr v t
  intro w
  have hw := hone w
  rw [OrderedMap.get?_singleton, OrderedMap.get?_singleton] at hw
  rw [get?_bind, get?_bind, h w, hw, Option.map_or, Option.map_map, Option.map_map]
  exact congrArg (Option.or · _) (Option.map_congr fun u _ => hone.apply hf u)

end Subst.Relabelled

/-! ## Equations -/

namespace Unify

theorem demand_var_right {t : Ty} {k : Head} (h : t.head? = some k) (w : TypeVar) :
    demand t (.var w) = demandVar w t := by
  cases t with
  | var v => cases h
  | _ => rfl

theorem demand_of_head_ne {t u : Ty} {h k : Head} (ht : t.head? = some h) (hu : u.head? = some k) (hne : h ≠ k) :
    demand t u = .impossible (.mismatch t u) := by
  fun_cases demand t u
  all_goals simp_all [Ty.head?]

variable (hf : Ty.Relabels f r g) (hr : Function.Injective r)
include hf hr

theorem demandVar_relabel (v : TypeVar) (t : Ty) : demandVar (r v) (f t) = (demandVar v t).relabel f r := by
  unfold demandVar
  rw [hf.occurs_eq hr]
  by_cases hsame : t = .var v
  · rw [if_pos hsame, if_pos ((hf.eq_var_iff hr).2 hsame)]; rfl
  · rw [if_neg hsame, if_neg (mt (hf.eq_var_iff hr).1 hsame)]
    split <;> rfl

/-- A relabelled equation asks for the same, relabelled. -/
theorem demand_relabel (t u : Ty) : demand (f t) (f u) = (demand t u).relabel f r := by
  fun_cases demand t u with
  | case1 v => rw [hf.var]; exact demandVar_relabel hf hr v u
  | case2 t v ht =>
    obtain ⟨k, hk⟩ : ∃ k, t.head? = some k := by cases t <;> simp_all [Ty.head?]
    rw [hf.var, demand_var_right ((hf.head?_eq t).trans hk)]
    exact demandVar_relabel hf hr v t
  | case3 c => rw [hf.base, demand, if_pos rfl]; rfl
  | case4 b c hne =>
    rw [hf.base, hf.base, demand, if_neg hne, Demand.relabel, UnifyError.relabel, hf.base, hf.base]
  | case5 t u => rw [hf.option, hf.option]; rfl
  | case6 t u => rw [hf.list, hf.list]; rfl
  | case7 ts us hl =>
    rw [hf.tuple, hf.tuple, demand, List.length_map, List.length_map, if_pos hl, List.zip_map]; rfl
  | case8 ts us hl =>
    rw [hf.tuple, hf.tuple, demand, List.length_map, List.length_map, if_neg hl]; rfl
  | case9 a e q b e' p => rw [hf.arrow, hf.arrow]; rfl
  | case10 =>
    have hd : demand t u = .impossible (.mismatch t u) := by rw [demand] <;> assumption
    cases demand_obstructed hd with
    | mismatch ht hu hne =>
      exact demand_of_head_ne ((hf.head?_eq t).trans ht) ((hf.head?_eq u).trans hu) hne

/-- The solver takes the relabelled steps and stops in the relabelled state. -/
theorem solve_relabel {s s' : Subst} (hs : Subst.Relabelled f r s s') (eqs : List Equation) :
    (solve s' (eqs.map (Prod.map f f))).1 = (solve s eqs).1.mapError (UnifyError.relabel f r) ∧
      Subst.Relabelled f r (solve s eqs).2 (solve s' (eqs.map (Prod.map f f))).2 := by
  induction s, eqs using solve.induct generalizing s' with
  | case1 s => rw [List.map_nil, solve_nil, solve_nil]; exact ⟨rfl, hs⟩
  | case2 s t u rest eqs hd ih =>
    have hd' : demand (f t) (f u) = .parts (eqs.map (Prod.map f f)) := by rw [demand_relabel hf hr, hd]; rfl
    rw [List.map_cons, Prod.map, solve_of_parts hd', solve_of_parts hd, ← List.map_append]
    exact ih hs
  | case3 s t u rest v q hd ih =>
    have hd' : demand (f t) (f u) = .binding (r v) (f q) := by rw [demand_relabel hf hr, hd]; rfl
    -- the binding is applied to the rest, which is relabelled along with it
    have hrest : Equations.apply (.singleton (r v) (f q)) (rest.map (Prod.map f f)) =
        (Equations.apply (.singleton v q) rest).map (Prod.map f f) := by
      have hone := (Subst.Relabelled.singleton (f := f) hr v q).apply hf
      rw [Equations.apply, Equations.apply, List.map_map, List.map_map]
      exact List.map_congr_left fun e _ => Prod.ext (hone e.1) (hone e.2)
    rw [List.map_cons, Prod.map, solve_of_binding hd', solve_of_binding hd, hrest]
    exact ih (hs.bind hf hr v q)
  | case4 s t u rest e hd =>
    have hd' : demand (f t) (f u) = .impossible (e.relabel f r) := by rw [demand_relabel hf hr, hd]; rfl
    rw [List.map_cons, Prod.map, solve_of_impossible hd', solve_of_impossible hd]
    exact ⟨rfl, hs⟩

theorem step_relabel {s s' : Subst} (hs : Subst.Relabelled f r s s') (a b : Ty) :
    (step s' (f a) (f b)).1 = (step s a b).1.mapError (UnifyError.relabel f r) ∧
      Subst.Relabelled f r (step s a b).2 (step s' (f a) (f b)).2 := by
  rw [step, step, hs.apply hf, hs.apply hf]
  exact solve_relabel hf hr hs [(s.apply a, s.apply b)]

end Unify

/-- Where the relabelled bindings are those that `m` makes. -/
theorem unify_relabel (hf : Ty.Relabels f r g) (hr : Function.Injective r) {m : Subst → Subst}
    (hm : ∀ s s', Subst.Relabelled f r s s' → s' = m s) (a b : Ty) :
    unify (f a) (f b) = ((unify a b).map m).mapError (UnifyError.relabel f r) := by
  obtain ⟨houtcome, hstate⟩ := Unify.step_relabel hf hr .empty a b
  have hstep : Unify.step .empty (f a) (f b) =
      ((Unify.step .empty a b).1.mapError (UnifyError.relabel f r), m (Unify.step .empty a b).2) :=
    Prod.ext houtcome (hm _ _ hstate)
  rw [unify, unify, hstep]
  rcases Unify.step .empty a b with ⟨_ | _, s⟩ <;> rfl

end Relabelling

/-! ## Latent effects -/

/-- The bindings with the latent effects of their types erased. -/
def Subst.eraseEffects (s : Subst) : Subst := s.mapValues Ty.eraseEffects

/-- The failure with the latent effects of its types erased. -/
def UnifyError.eraseEffects (e : UnifyError) : UnifyError := e.relabel Ty.eraseEffects id

theorem Ty.relabels_eraseEffects : Ty.Relabels Ty.eraseEffects id fun _ => .pure where
  var _ := rfl
  base _ := rfl
  option _ := rfl
  list _ := rfl
  tuple ts := by rw [eraseEffects, eraseEffectsAll_eq_map]
  arrow _ _ _ := rfl

theorem Subst.relabelled_eraseEffects_iff {s s' : Subst} :
    Relabelled Ty.eraseEffects id s s' ↔ s' = s.eraseEffects := by
  constructor
  · intro h
    refine OrderedMap.ext fun v => ?_
    rw [eraseEffects, OrderedMap.get?_mapValues]; exact h v
  · rintro rfl v; exact OrderedMap.get?_mapValues Ty.eraseEffects s v

/-- Solving an equation whose latent effects have been erased gives the solution of the equation with the effects of
its types erased, or the failure with the effects of its types erased. So does adding it to a state whose effects have
been erased, and the state it leaves, after a failure too, is the one left with the effects, erased. -/
theorem unify_eraseEffects (a b : Ty) :
    unify a.eraseEffects b.eraseEffects =
      ((unify a b).map Subst.eraseEffects).mapError UnifyError.eraseEffects ∧
    ∀ s : Subst, Unify.step s.eraseEffects a.eraseEffects b.eraseEffects =
      ((Unify.step s a b).1.mapError UnifyError.eraseEffects, (Unify.step s a b).2.eraseEffects) := by
  have herase := Ty.relabels_eraseEffects
  have hid := Function.injective_id (α := TypeVar)
  refine ⟨unify_relabel herase hid (fun s s' => Subst.relabelled_eraseEffects_iff.1) a b, fun s => ?_⟩
  obtain ⟨houtcome, hstate⟩ := Unify.step_relabel herase hid (Subst.relabelled_eraseEffects_iff.2 rfl) a b
  exact Prod.ext houtcome (Subst.relabelled_eraseEffects_iff.1 hstate)

end EffectTyping
