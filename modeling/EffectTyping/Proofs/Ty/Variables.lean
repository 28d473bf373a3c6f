/-
The variables of a type as a set. Their ascending list is what the test for an occurrence and the test for groundness
are about. A substitution carries it to the variables of what is put in, and two substitutions do the same to a type
exactly when they do so to the variables in the list: it holds every variable that counts, and no other.
-/
import EffectTyping.Proofs.Subst
import Mathlib.Data.Finset.Union

namespace EffectTyping.Ty

/-! ## Groundness -/

theorem varsAll_eq_nil_iff {ts : List Ty} : varsAll ts = [] ↔ ∀ t ∈ ts, t.vars = [] := by
  induction ts with
  | nil => simp [varsAll]
  | cons t ts ih => simp [varsAll, ih]

theorem isGroundAll_iff {ts : List Ty} : isGroundAll ts = true ↔ ∀ t ∈ ts, t.isGround = true := by
  induction ts with
  | nil => simp [isGroundAll]
  | cons t ts ih => simp [isGroundAll, ih]

theorem isGround_iff_vars {t : Ty} : t.isGround = true ↔ t.vars = [] := by
  induction t using Ty.induct with
  | var v => simp [isGround, vars]
  | base b => simp [isGround, vars]
  | option t ih => rw [isGround, vars, ih]
  | list t ih => rw [isGround, vars, ih]
  | tuple ts ih =>
    rw [isGround, vars, isGroundAll_iff, varsAll_eq_nil_iff]
    exact forall₂_congr ih
  | arrow a e r iha ihr => rw [isGround, vars, Bool.and_eq_true, iha, ihr, List.append_eq_nil_iff]

/-! ## The ascending list -/

theorem freeVars_ascending (t : Ty) : t.freeVars.Pairwise (compare · · = .lt) :=
  List.pairwise_map.2 (OrderedMap.sorted _)

theorem freeVars_eq_nil_iff {t : Ty} : t.freeVars = [] ↔ t.vars = [] := by
  simp only [List.eq_nil_iff_forall_not_mem, mem_freeVars]

theorem mem_freeVars_apply {s : Subst} {w : TypeVar} {t : Ty} :
    w ∈ (s.apply t).freeVars ↔ ∃ v ∈ t.freeVars, w ∈ (s.apply (.var v)).freeVars := by
  simp only [mem_freeVars]
  exact Subst.mem_vars_apply

theorem apply_eq_apply_iff_freeVars {s s' : Subst} {t : Ty} :
    s.apply t = s'.apply t ↔ ∀ v ∈ t.freeVars, s.apply (.var v) = s'.apply (.var v) := by
  simp only [mem_freeVars]
  exact Subst.apply_eq_apply_iff

/-- The variables of a type are listed in ascending order, each once. After a substitution they are those of what is
put in for them. A variable occurs in the type if and only if it is listed, the type is ground if and only if none is,
and substitutions agree on the type if and only if they agree on every variable listed. -/
theorem freeVars_exact (s s' : Subst) (t : Ty) :
    t.freeVars.Pairwise (compare · · = .lt) ∧
    (s.apply t).freeVars.toFinset = t.freeVars.toFinset.biUnion (fun v => (s.apply (.var v)).freeVars.toFinset) ∧
    (∀ v, t.occurs v = true ↔ v ∈ t.freeVars) ∧
    (t.isGround = true ↔ t.freeVars = []) ∧
    (s.apply t = s'.apply t ↔ ∀ v ∈ t.freeVars, s.apply (.var v) = s'.apply (.var v)) := by
  refine ⟨t.freeVars_ascending, ?_, ?_, ?_, apply_eq_apply_iff_freeVars⟩
  · ext w
    simp only [Finset.mem_biUnion, List.mem_toFinset]
    exact mem_freeVars_apply
  · intro v
    rw [occurs_iff_mem_vars, mem_freeVars]
  · rw [isGround_iff_vars, freeVars_eq_nil_iff]

end EffectTyping.Ty
