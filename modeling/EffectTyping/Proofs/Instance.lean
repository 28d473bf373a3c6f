/-
Instances of a type. Matching finds bindings of the general type's variables exactly when some substitution turns
it into the specific type, latent effects included and whatever variables the two share. The argument is one
equivalence over the bindings collected so far: the substitutions that fit them after a match are those that fit
them before it and turn the one type into the other. A match adds bindings for the variables of the general type and
for no others, so that the bindings found are the only ones there are.
-/
import EffectTyping.Instance
import EffectTyping.Proofs.Subst

namespace EffectTyping

/-! ## Matching -/

/-- Replacing the variables of `general` can give exactly `specific`. -/
def Ty.HasInstance (general specific : Ty) : Prop := ∃ s : Subst, s.apply general = specific

theorem Ty.HasInstance.refl (t : Ty) : t.HasInstance t := ⟨.empty, Subst.apply_empty t⟩

theorem Ty.HasInstance.trans {a b c : Ty} (hab : a.HasInstance b) (hbc : b.HasInstance c) : a.HasInstance c := by
  obtain ⟨s, rfl⟩ := hab
  obtain ⟨s', rfl⟩ := hbc
  exact ⟨s'.compose s, Subst.apply_compose s' s a⟩

namespace Subst

/-- `s` acts on the variables `w` binds as `w` does. -/
def Fits (s w : Subst) : Prop := ∀ v t, w.get? v = some t → s.image v = t

theorem fits_self (s : Subst) : Fits s s := fun _ _ h => image_of_get? h

theorem fits_empty (s : Subst) : Fits s .empty := fun _ _ h => by cases h

theorem fits_insert_iff {s w : Subst} {v : TypeVar} {t : Ty} (hv : w.get? v = none) :
    Fits s (w.insert v t) ↔ Fits s w ∧ s.image v = t := by
  constructor
  · intro h
    refine ⟨fun x u hx => h x u ?_, h v t ?_⟩
    · rw [OrderedMap.get?_insert, if_neg]
      · exact hx
      · rintro rfl; rw [hv] at hx; cases hx
    · rw [OrderedMap.get?_insert, if_pos rfl]
  · rintro ⟨h, ht⟩ x u hx
    rw [OrderedMap.get?_insert] at hx
    split at hx
    · rename_i hxv; cases hx; rw [hxv]; exact ht
    · exact h x u hx

end Subst

namespace Ty

open Subst

/-- A substitution fits the bindings after two parts have been matched one after the other exactly when it fits
those before and turns both parts into what they were matched with. -/
theorem fits_bind_iff {s : Subst} {first : Option Subst} {next : Subst → Option Subst} {P Q : Prop}
    (hfirst : (∃ w', first = some w' ∧ Fits s w') ↔ P)
    (hnext : ∀ w', (∃ w'', next w' = some w'' ∧ Fits s w'') ↔ Fits s w' ∧ Q) :
    (∃ w', first.bind next = some w' ∧ Fits s w') ↔ P ∧ Q := by
  rw [← hfirst]
  constructor
  · rintro ⟨w'', h, hs⟩
    obtain ⟨w', hw, h⟩ := Option.bind_eq_some_iff.1 h
    obtain ⟨hs, hq⟩ := (hnext w').1 ⟨w'', h, hs⟩
    exact ⟨⟨w', hw, hs⟩, hq⟩
  · rintro ⟨⟨w', hw, hs⟩, hq⟩
    obtain ⟨w'', h, hs⟩ := (hnext w').2 ⟨hs, hq⟩
    exact ⟨w'', Option.bind_eq_some_iff.2 ⟨w', hw, h⟩, hs⟩

mutual

/-- Matching succeeds with bindings that `s` fits exactly when `s` fits the bindings so far and turns the general
type into the specific one. -/
theorem fits_matchWith_iff (s : Subst) : ∀ (w : Subst) (general specific : Ty),
    (∃ w', matchWith w general specific = some w' ∧ Fits s w') ↔ Fits s w ∧ s.apply general = specific
  | w, .var v, t => by
    rw [matchWith]
    cases hv : w.get? v with
    | none =>
      simp only [Option.some.injEq, exists_eq_left', fits_insert_iff hv]
      rfl
    | some bound =>
      simp only [Option.ite_none_right_eq_some, Option.some.injEq]
      constructor
      · rintro ⟨_, ⟨rfl, rfl⟩, hs⟩; exact ⟨hs, hs v bound hv⟩
      · rintro ⟨hs, rfl⟩; exact ⟨w, ⟨(hs v bound hv).symm, rfl⟩, hs⟩
  | w, .base b, t => by cases t <;> simp [matchWith, apply, and_comm]
  | w, .option g, t => by
    cases t <;> simp only [matchWith, apply, reduceCtorEq, false_and, exists_false, and_false, Ty.option.injEq]
    exact fits_matchWith_iff s w g _
  | w, .list g, t => by
    cases t <;> simp only [matchWith, apply, reduceCtorEq, false_and, exists_false, and_false, Ty.list.injEq]
    exact fits_matchWith_iff s w g _
  | w, .tuple gs, t => by
    cases t <;> simp only [matchWith, apply, reduceCtorEq, false_and, exists_false, and_false, Ty.tuple.injEq]
    exact fits_matchAllWith_iff s w gs _
  | w, .arrow a e r, t => by
    cases t <;> simp only [matchWith, apply, reduceCtorEq, false_and, exists_false, and_false, Ty.arrow.injEq]
    rename_i b f q
    by_cases he : e = f
    · simp only [he, if_true, true_and]
      rw [fits_bind_iff (fits_matchWith_iff s w a b) fun w' => fits_matchWith_iff s w' r q, and_assoc]
    · simp [he]

theorem fits_matchAllWith_iff (s : Subst) : ∀ (w : Subst) (general specific : List Ty),
    (∃ w', matchAllWith w general specific = some w' ∧ Fits s w') ↔ Fits s w ∧ s.applyAll general = specific
  | w, [], ts => by cases ts <;> simp [matchAllWith, applyAll]
  | w, g :: gs, ts => by
    cases ts with
    | nil => simp [matchAllWith, applyAll]
    | cons t ts =>
      simp only [matchAllWith, applyAll, List.cons.injEq]
      rw [fits_bind_iff (fits_matchWith_iff s w g t) fun w' => fits_matchAllWith_iff s w' gs ts, and_assoc]

end

theorem apply_of_instantiation {general specific : Ty} {w : Subst} (h : general.instantiation? specific = some w) :
    w.apply general = specific :=
  ((fits_matchWith_iff w .empty general specific).1 ⟨w, h, fits_self w⟩).2

theorem exists_instantiation_iff {general specific : Ty} :
    (∃ w, general.instantiation? specific = some w) ↔ general.HasInstance specific := by
  constructor
  · rintro ⟨w, h⟩; exact ⟨w, apply_of_instantiation h⟩
  · rintro ⟨s, hs⟩
    obtain ⟨w, h, -⟩ := (fits_matchWith_iff s .empty general specific).2 ⟨fits_empty s, hs⟩
    exact ⟨w, h⟩

theorem generalizes_iff {general specific : Ty} : general.generalizes specific = true ↔ general.HasInstance specific := by
  rw [generalizes, Option.isSome_iff_exists, exists_instantiation_iff]

/-! ## The variables a match binds -/

/-- What two matches one after the other bind is what was bound before, what the first binds and what the second
binds. -/
theorem contains_bind_iff {w w'' : Subst} {first : Option Subst} {next : Subst → Option Subst} {v : TypeVar}
    {xs ys : List TypeVar}
    (hfirst : ∀ w', first = some w' → (w'.contains v = true ↔ w.contains v = true ∨ v ∈ xs))
    (hnext : ∀ w', next w' = some w'' → (w''.contains v = true ↔ w'.contains v = true ∨ v ∈ ys))
    (h : first.bind next = some w'') : w''.contains v = true ↔ w.contains v = true ∨ v ∈ xs ++ ys := by
  obtain ⟨w', hw, h⟩ := Option.bind_eq_some_iff.1 h
  rw [hnext w' h, hfirst w' hw, List.mem_append, or_assoc]

mutual

theorem contains_matchWith (v : TypeVar) : ∀ {w w' : Subst} (general specific : Ty),
    matchWith w general specific = some w' → (w'.contains v = true ↔ w.contains v = true ∨ v ∈ general.vars)
  | w, w', .var x, t, h => by
    rw [matchWith] at h
    rw [vars, List.mem_singleton]
    cases hx : w.get? x with
    | none =>
      simp only [hx, Option.some.injEq] at h
      rw [← h, OrderedMap.contains_insert, or_comm]
    | some bound =>
      simp only [hx, Option.ite_none_right_eq_some, Option.some.injEq] at h
      rw [← h.2]
      -- a second occurrence binds nothing new
      refine (or_iff_left_of_imp ?_).symm
      rintro rfl
      rw [OrderedMap.contains, hx]; rfl
  | w, w', .base b, t, h => by
    cases t <;> simp only [matchWith, reduceCtorEq, Option.ite_none_right_eq_some, Option.some.injEq] at h
    rw [← h.2, vars]
    simp
  | w, w', .option g, t, h => by
    cases t <;> simp only [matchWith, reduceCtorEq] at h
    exact contains_matchWith v g _ h
  | w, w', .list g, t, h => by
    cases t <;> simp only [matchWith, reduceCtorEq] at h
    exact contains_matchWith v g _ h
  | w, w', .tuple gs, t, h => by
    cases t <;> simp only [matchWith, reduceCtorEq] at h
    exact contains_matchAllWith v gs _ h
  | w, w', .arrow a e r, t, h => by
    cases t <;> simp only [matchWith, reduceCtorEq, Option.ite_none_right_eq_some] at h
    exact contains_bind_iff (fun _ => contains_matchWith v a _) (fun _ => contains_matchWith v r _) h.2

theorem contains_matchAllWith (v : TypeVar) : ∀ {w w' : Subst} (general specific : List Ty),
    matchAllWith w general specific = some w' → (w'.contains v = true ↔ w.contains v = true ∨ v ∈ varsAll general)
  | w, w', [], ts, h => by
    cases ts <;> simp only [matchAllWith, reduceCtorEq, Option.some.injEq] at h
    rw [← h, varsAll]
    simp
  | w, w', g :: gs, ts, h => by
    cases ts <;> simp only [matchAllWith, reduceCtorEq] at h
    exact contains_bind_iff (fun _ => contains_matchWith v g _) (fun _ => contains_matchAllWith v gs _) h

end

theorem contains_instantiation {general specific : Ty} {w : Subst} (h : general.instantiation? specific = some w)
    (v : TypeVar) : w.contains v = true ↔ v ∈ general.vars := by
  rw [contains_matchWith v general specific h]
  simp [OrderedMap.contains]

theorem keys_instantiation {general specific : Ty} {w : Subst} (h : general.instantiation? specific = some w) :
    w.keys = general.freeVars :=
  OrderedMap.keys_eq_of_contains_iff fun v => by
    rw [contains_instantiation h, ← mem_freeVars, freeVars, OrderedMap.mem_keys]

/-- Whatever turns the general type into the specific one acts on its variables as the bindings found. -/
theorem get?_instantiation {general specific : Ty} {w s : Subst} (h : general.instantiation? specific = some w)
    (hs : s.apply general = specific) {v : TypeVar} (hv : v ∈ general.vars) : w.get? v = some (s.image v) := by
  obtain ⟨t, ht⟩ := Option.isSome_iff_exists.1 ((contains_instantiation h v).2 hv)
  have himage := apply_eq_apply_iff.1 ((apply_of_instantiation h).trans hs.symm) v hv
  rw [ht, ← himage, image_of_get? ht]

theorem instantiation_of_keys {general specific : Ty} {w : Subst} (hw : w.apply general = specific)
    (hkeys : w.keys = general.freeVars) : general.instantiation? specific = some w := by
  obtain ⟨found, h⟩ := exists_instantiation_iff.2 ⟨w, hw⟩
  have hbound : ∀ v, w.contains v = true ↔ v ∈ general.vars := by
    intro v
    rw [← OrderedMap.mem_keys, hkeys, mem_freeVars]
  rw [h, Option.some.injEq]
  refine OrderedMap.ext fun v => ?_
  by_cases hv : v ∈ general.vars
  · obtain ⟨t, ht⟩ := Option.isSome_iff_exists.1 ((hbound v).2 hv)
    rw [get?_instantiation h hw hv, ht, image_of_get? ht]
  · rw [OrderedMap.get?_eq_none_of_not_contains (mt (contains_instantiation h v).1 hv),
      OrderedMap.get?_eq_none_of_not_contains (mt (hbound v).1 hv)]

/-- There are bindings to be found exactly when some substitution turns the general type into the specific one. They
bind the variables of the general type and no others, and each to what every such substitution replaces it by; no
other bindings of these variables will do. -/
theorem instantiation_exact (general specific : Ty) :
    ((∃ w, general.instantiation? specific = some w) ↔ ∃ s : Subst, s.apply general = specific) ∧
    ∀ w, general.instantiation? specific = some w ↔
      w.apply general = specific ∧ w.keys = general.freeVars ∧
      ∀ s : Subst, s.apply general = specific → ∀ v ∈ general.freeVars, w.get? v = some (s.apply (.var v)) := by
  refine ⟨exists_instantiation_iff, fun w => ⟨fun h => ?_, ?_⟩⟩
  · exact ⟨apply_of_instantiation h, keys_instantiation h,
      fun s hs v hv => get?_instantiation h hs (mem_freeVars.1 hv)⟩
  · rintro ⟨hw, hkeys, -⟩; exact instantiation_of_keys hw hkeys

/-- Variables that the two types share are different things on the two sides. -/
example : (pureArrow (.var ⟨0⟩) (.var ⟨1⟩)).instantiation? (pureArrow (.var ⟨1⟩) (.var ⟨0⟩)) =
    some (.ofList [(⟨0⟩, .var ⟨1⟩), (⟨1⟩, .var ⟨0⟩)]) := by
  decide

end Ty

end EffectTyping
