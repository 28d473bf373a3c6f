/-
Solving and matching do not depend on which type variables there are, only on which are the same. For every injective
renaming of variables the solution of renamed equations is the renamed solution, the failure the renamed failure, and
the bindings of a match are the renamed bindings. For the solver this is what holds of every relabelling; for matching
one lemma for each function says that it commutes with renaming.
-/
import EffectTyping.Proofs.Instance
import EffectTyping.Proofs.Unify.Relabelling
import Mathlib.Data.Fintype.EquivFin

namespace EffectTyping

/-! ## Types -/

/-- There are finitely many variables, so that an injective renaming leaves none out. -/
theorem TypeVar.surjective_of_injective {r : TypeVar → TypeVar} (hr : Function.Injective r) : Function.Surjective r := by
  have hindex : Function.Injective fun v : TypeVar => v.index.toFin := by
    intro v w h
    cases v; cases w
    exact congrArg TypeVar.mk (UInt32.toFin_inj.1 h)
  have := Finite.of_injective _ hindex
  exact Finite.surjective_of_injective hr

namespace Ty

variable (r : TypeVar → TypeVar)

mutual

/-- The type with its variables renamed. -/
def rename : Ty → Ty
  | .var v => .var (r v)
  | .base b => .base b
  | .option t => .option (rename t)
  | .list t => .list (rename t)
  | .tuple ts => .tuple (renameAll ts)
  | .arrow a e q => .arrow (rename a) e (rename q)

def renameAll : List Ty → List Ty
  | [] => []
  | t :: ts => rename t :: renameAll ts

end

variable {r}

theorem renameAll_eq_map (ts : List Ty) : renameAll r ts = ts.map (rename r) := by
  induction ts with
  | nil => rfl
  | cons t ts ih => rw [renameAll, ih, List.map_cons]

theorem length_renameAll (ts : List Ty) : (renameAll r ts).length = ts.length := by
  rw [renameAll_eq_map, List.length_map]

/-- A renaming is undone on a type by one that takes every variable of the type back. -/
theorem rename_rename_eq_self {back : TypeVar → TypeVar} {t : Ty} (h : ∀ v ∈ t.vars, back (r v) = v) :
    (t.rename r).rename back = t := by
  induction t using Ty.induct with
  | var v => rw [rename, rename, h v (List.mem_singleton_self v)]
  | base b => rfl
  | option t ih => rw [rename, rename, ih h]
  | list t ih => rw [rename, rename, ih h]
  | tuple ts ih =>
    have hts : ∀ t ∈ ts, (t.rename r).rename back = t := fun t ht =>
      ih t ht fun v hv => h v (mem_varsAll.2 ⟨t, ht, hv⟩)
    rw [rename, rename, renameAll_eq_map, renameAll_eq_map, List.map_map]
    exact congrArg Ty.tuple ((List.map_congr_left hts).trans (List.map_id _))
  | arrow a e q iha ihq =>
    rw [rename, rename, iha fun v hv => h v (List.mem_append_left _ hv),
      ihq fun v hv => h v (List.mem_append_right _ hv)]

theorem rename_injective (hr : Function.Injective r) : Function.Injective (rename r) := by
  obtain ⟨back, hback⟩ := hr.hasLeftInverse
  have hundone : Function.LeftInverse (rename back) (rename r) := fun _ => rename_rename_eq_self fun v _ => hback v
  exact hundone.injective

theorem relabels_rename : Relabels (rename r) r id where
  var _ := rfl
  base _ := rfl
  option _ := rfl
  list _ := rfl
  tuple ts := by rw [rename, renameAll_eq_map]
  arrow _ _ _ := rfl

end Ty

/-! ## Substitutions -/

namespace Subst

variable {r : TypeVar → TypeVar}

/-- The bindings with their variables and types renamed. -/
def rename (r : TypeVar → TypeVar) (s : Subst) : Subst :=
  .ofList (s.toList.map fun binding => (r binding.1, binding.2.rename r))

variable (hr : Function.Injective r)
include hr

theorem get?_rename (s : Subst) (v : TypeVar) : (s.rename r).get? (r v) = (s.get? v).map (Ty.rename r) := by
  -- the renamed variables are distinct, so that no binding hides another
  have hnodup : ((s.toList.map fun binding => (r binding.1, binding.2.rename r)).map (·.1)).Nodup := by
    have hkeys := s.nodup_keys.map hr
    rw [OrderedMap.keys, List.map_map] at hkeys
    rw [List.map_map]; exact hkeys
  refine Option.ext fun u => ?_
  rw [rename, OrderedMap.get?_ofList hnodup, List.mem_map, Option.map_eq_some_iff]
  constructor
  · rintro ⟨binding, hmem, heq⟩
    rw [Prod.mk.injEq] at heq
    rw [← hr heq.1]
    exact ⟨binding.2, OrderedMap.mem_toList.1 hmem, heq.2⟩
  · rintro ⟨t, ht, rfl⟩; exact ⟨(v, t), OrderedMap.mem_toList.2 ht, rfl⟩

theorem relabelled_rename_iff {s s' : Subst} : Relabelled (Ty.rename r) r s s' ↔ s' = s.rename r := by
  constructor
  · intro h
    refine OrderedMap.ext fun w => ?_
    obtain ⟨v, rfl⟩ := TypeVar.surjective_of_injective hr w
    rw [h, get?_rename hr]
  · rintro rfl; exact get?_rename hr s

theorem rename_insert (s : Subst) (v : TypeVar) (t : Ty) :
    (s.rename r).insert (r v) (t.rename r) = rename r (s.insert v t) := by
  refine (relabelled_rename_iff hr).1 fun w => ?_
  rw [OrderedMap.get?_insert, OrderedMap.get?_insert, get?_rename hr]
  by_cases hw : w = v
  · rw [if_pos hw, if_pos (congrArg r hw)]; rfl
  · rw [if_neg hw, if_neg (hr.ne hw)]

theorem apply_rename (s : Subst) (t : Ty) : (s.rename r).apply (t.rename r) = (s.apply t).rename r :=
  ((relabelled_rename_iff hr).2 rfl).apply Ty.relabels_rename t

end Subst

/-! ## Equations -/

/-- The failure with the variables in it renamed. -/
def UnifyError.rename (r : TypeVar → TypeVar) (e : UnifyError) : UnifyError := e.relabel (Ty.rename r) r

theorem unify_rename {r : TypeVar → TypeVar} (hr : Function.Injective r) (a b : Ty) :
    unify (a.rename r) (b.rename r) = ((unify a b).map (Subst.rename r)).mapError (UnifyError.rename r) :=
  unify_relabel Ty.relabels_rename hr (fun _ _ => (Subst.relabelled_rename_iff hr).1) a b

/-! ## Instances -/

namespace Ty

variable {r : TypeVar → TypeVar}

mutual

theorem matchWith_rename (hr : Function.Injective r) : ∀ (w : Subst) (general specific : Ty),
    matchWith (w.rename r) (general.rename r) (specific.rename r) =
      (matchWith w general specific).map (Subst.rename r)
  | w, .var v, t => by
    rw [rename, matchWith, matchWith, Subst.get?_rename hr]
    cases w.get? v with
    | none => exact congrArg some (Subst.rename_insert hr w v t)
    | some bound =>
      simp only [Option.map_some, (rename_injective hr).eq_iff]
      split <;> rfl
  | w, .base b, t => by
    cases t with
    | base c =>
      rw [rename, rename, matchWith, matchWith]
      split <;> rfl
    | var | option | list | tuple | arrow => rfl
  | w, .option g, t => by
    cases t with
    | option u => rw [rename, rename, matchWith, matchWith, matchWith_rename hr]
    | var | base | list | tuple | arrow => rfl
  | w, .list g, t => by
    cases t with
    | list u => rw [rename, rename, matchWith, matchWith, matchWith_rename hr]
    | var | base | option | tuple | arrow => rfl
  | w, .tuple gs, t => by
    cases t with
    | tuple us => rw [rename, rename, matchWith, matchWith, matchAllWith_rename hr]
    | var | base | option | list | arrow => rfl
  | w, .arrow a e q, t => by
    cases t with
    | arrow b f p =>
      rw [rename, rename, matchWith, matchWith]
      split
      · rw [matchWith_rename hr w a b, Option.bind_map, Option.map_bind]
        exact congrArg _ (funext fun w' => matchWith_rename hr w' q p)
      · rfl
    | var | base | option | list | tuple => rfl

theorem matchAllWith_rename (hr : Function.Injective r) : ∀ (w : Subst) (general specific : List Ty),
    matchAllWith (w.rename r) (renameAll r general) (renameAll r specific) =
      (matchAllWith w general specific).map (Subst.rename r)
  | w, [], ts => by cases ts <;> rfl
  | w, g :: gs, ts => by
    cases ts with
    | nil => rfl
    | cons t ts =>
      rw [renameAll, renameAll, matchAllWith, matchAllWith, matchWith_rename hr w g t, Option.bind_map, Option.map_bind]
      exact congrArg _ (funext fun w' => matchAllWith_rename hr w' gs ts)

end

theorem instantiation?_rename (hr : Function.Injective r) (general specific : Ty) :
    (general.rename r).instantiation? (specific.rename r) =
      (general.instantiation? specific).map (Subst.rename r) :=
  matchWith_rename hr .empty general specific

theorem generalizes_rename (hr : Function.Injective r) (general specific : Ty) :
    (general.rename r).generalizes (specific.rename r) = general.generalizes specific := by
  rw [generalizes, generalizes, instantiation?_rename hr, Option.isSome_map]

end Ty

end EffectTyping
