/-
How general types are. That a type generalises another is a preorder, whatever variables the types share, and types that
generalise each other are the same up to the names of their variables. Substitutions that lead from a type to another
and back put variables for variables, and no two for the same; and a renaming that keeps the variables of a type apart
can be taken back.
-/
import EffectTyping.Proofs.Unify.Renaming

namespace EffectTyping.Ty

/-! ## Renamings as substitutions -/

theorem apply_eq_rename {s : Subst} {r : TypeVar → TypeVar} {t : Ty} (h : ∀ v ∈ t.vars, s.image v = .var (r v)) :
    s.apply t = t.rename r := by
  induction t using Ty.induct with
  | var v => exact h v (List.mem_singleton_self v)
  | base b => rfl
  | option t ih => rw [Subst.apply, rename, ih h]
  | list t ih => rw [Subst.apply, rename, ih h]
  | tuple ts ih =>
    rw [Subst.apply, rename, Subst.applyAll_eq_map, renameAll_eq_map]
    exact congrArg Ty.tuple (List.map_congr_left fun t ht => ih t ht fun v hv => h v (mem_varsAll.2 ⟨t, ht, hv⟩))
  | arrow a e q iha ihq =>
    rw [Subst.apply, rename, iha fun v hv => h v (List.mem_append_left _ hv),
      ihq fun v hv => h v (List.mem_append_right _ hv)]

/-- A renaming is made by the bindings of the variables of the type. -/
theorem hasInstance_rename (r : TypeVar → TypeVar) (t : Ty) : t.HasInstance (t.rename r) := by
  let bindings := t.freeVars.map fun v => (v, Ty.var (r v))
  have hkeys : (bindings.map (·.1)).Nodup := by
    rw [List.map_map]
    exact (List.map_id t.freeVars).symm ▸ OrderedMap.nodup_keys _
  refine ⟨.ofList bindings, apply_eq_rename fun v hv => ?_⟩
  exact Subst.image_of_get? ((OrderedMap.get?_ofList hkeys).2 (List.mem_map.2 ⟨v, mem_freeVars.2 hv, rfl⟩))

/-! ## There and back -/

/-- What is taken back to a variable is a variable. -/
theorem exists_var_of_apply_apply {s back : Subst} {t : Ty} (h : back.apply (s.apply t) = t) {v : TypeVar}
    (hv : v ∈ t.vars) : ∃ w, s.image v = .var w ∧ back.image w = .var v := by
  rw [← Subst.apply_compose, Subst.apply_eq_self_iff] at h
  have himage := h v hv
  rw [Subst.image_compose] at himage
  cases hw : s.image v with
  | var w => rw [hw] at himage; exact ⟨w, rfl, himage⟩
  | base | option | list | tuple | arrow => rw [hw] at himage; cases himage

theorem exists_renaming {a b : Ty} (hab : a.HasInstance b) (hba : b.HasInstance a) :
    ∃ r : TypeVar → TypeVar, Set.InjOn r {v | v ∈ a.vars} ∧ a.rename r = b := by
  obtain ⟨s, rfl⟩ := hab
  obtain ⟨back, hback⟩ := hba
  choose! r hr using fun v (hv : v ∈ a.vars) => exists_var_of_apply_apply hback hv
  refine ⟨r, fun v hv w hw hvw => ?_, (apply_eq_rename fun v hv => (hr v hv).1).symm⟩
  have hsame : Ty.var v = .var w := by rw [← (hr v hv).2, hvw, (hr w hw).2]
  cases hsame; rfl

theorem hasInstance_of_rename {a : Ty} {r : TypeVar → TypeVar} (hr : Set.InjOn r {v | v ∈ a.vars}) :
    (a.rename r).HasInstance a := by
  have hback := hasInstance_rename (Function.invFunOn r {v | v ∈ a.vars}) (a.rename r)
  rwa [rename_rename_eq_self fun v hv => hr.leftInvOn_invFunOn hv] at hback

/-- Every type generalises itself and all that is generalised by a type it generalises. Two types generalise each other
exactly when a renaming that keeps the variables of the one apart turns it into the other. -/
theorem generalizes_preorder (a b c : Ty) :
    a.generalizes a = true ∧
    (a.generalizes b = true → b.generalizes c = true → a.generalizes c = true) ∧
    (a.generalizes b = true ∧ b.generalizes a = true ↔
      ∃ r : TypeVar → TypeVar, Set.InjOn r {v | v ∈ a.vars} ∧ a.rename r = b) := by
  simp only [generalizes_iff]
  refine ⟨.refl a, .trans, fun h => exists_renaming h.1 h.2, ?_⟩
  rintro ⟨r, hr, rfl⟩
  exact ⟨hasInstance_rename r a, hasInstance_of_rename hr⟩

/-- The first two types have the same variables, each in the other's place; the third has one variable in both. -/
theorem generalizes_preorder_exchanged :
    let a : Ty := .arrow (.var ⟨0⟩) .weak (.list (.var ⟨1⟩))
    let b : Ty := .arrow (.var ⟨1⟩) .weak (.list (.var ⟨0⟩))
    let c : Ty := .arrow (.option (.var ⟨0⟩)) .weak (.list (.option (.var ⟨0⟩)))
    (a.generalizes b = true ∧ b.generalizes a = true) ∧ b.generalizes c = true ∧ a.generalizes c = true ∧
      (∃ r : TypeVar → TypeVar, Set.InjOn r {v | v ∈ a.vars} ∧ a.rename r = b) ∧
      ¬ ∃ r : TypeVar → TypeVar, Set.InjOn r {v | v ∈ a.vars} ∧ a.rename r = c := by
  intro a b c
  have hab : a.generalizes b = true := by decide
  have hba : b.generalizes a = true := by decide
  have hbc : b.generalizes c = true := by decide
  have hca : c.generalizes a = false := by decide
  obtain ⟨-, htrans, hrenamed⟩ := generalizes_preorder a b c
  refine ⟨⟨hab, hba⟩, hbc, htrans hab hbc, hrenamed.1 ⟨hab, hba⟩, fun h => ?_⟩
  rw [((generalizes_preorder a c b).2.2.2 h).2] at hca
  cases hca

end EffectTyping.Ty
