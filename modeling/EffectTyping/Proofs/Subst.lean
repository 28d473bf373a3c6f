/-
Laws of substitutions: the variables of a type after a substitution, composition, which makes substitutions a monoid,
what `bind` does to every variable, absorption and idempotence. Types are compared in a view `f`: exact equality is the
view `id`, equality up to latent effects the view `eraseEffects`, and in both substitutions agree on a type exactly when
they agree on its variables. A variable that is a proper part of a type stays smaller than it under every substitution.
-/
import EffectTyping.Proofs.OrderedMap
import EffectTyping.Unify.Measure
import Mathlib.Data.List.Forall2

namespace EffectTyping

/-! ## Components of tuples -/

namespace Ty

theorem mem_varsAll {v : TypeVar} {ts : List Ty} : v ∈ varsAll ts ↔ ∃ t ∈ ts, v ∈ t.vars := by
  induction ts with
  | nil => simp [varsAll]
  | cons t ts ih => simp [varsAll, ih]

/-- The ascending list of variables leaves none out. -/
theorem mem_freeVars {v : TypeVar} {t : Ty} : v ∈ t.freeVars ↔ v ∈ t.vars := by
  rw [freeVars, OrderedMap.mem_keys, OrderedMap.contains_ofList]
  simp

theorem eraseEffectsAll_eq_map (ts : List Ty) : eraseEffectsAll ts = ts.map eraseEffects := by
  induction ts with
  | nil => rfl
  | cons t ts ih => rw [eraseEffectsAll, ih, List.map_cons]

theorem size_le_sizeAll {t : Ty} {ts : List Ty} (h : t ∈ ts) : t.size ≤ sizeAll ts := by
  induction ts with
  | nil => cases h
  | cons u ts ih =>
    rw [sizeAll]
    rcases List.mem_cons.1 h with rfl | h
    · omega
    · have := ih h; omega

theorem sizeAll_map_eq {f : Ty → Ty} {ts : List Ty} (h : ∀ t ∈ ts, (f t).size = t.size) :
    sizeAll (ts.map f) = sizeAll ts := by
  induction ts with
  | nil => rfl
  | cons t ts ih =>
    rw [List.map_cons, sizeAll, sizeAll, h t List.mem_cons_self, ih fun u hu => h u (List.mem_cons_of_mem _ hu)]

theorem size_eraseEffects (t : Ty) : t.eraseEffects.size = t.size := by
  induction t using Ty.induct with
  | var v => rfl
  | base b => rfl
  | option t ih => simp [eraseEffects, size, ih]
  | list t ih => simp [eraseEffects, size, ih]
  | tuple ts ih => rw [eraseEffects, eraseEffectsAll_eq_map, size, size, sizeAll_map_eq ih]
  | arrow a e r iha ihr => simp [eraseEffects, size, iha, ihr]

theorem eq_var_of_eraseEffects {t : Ty} {v : TypeVar} (h : t.eraseEffects = .var v) : t = .var v := by
  cases t with
  | var w => exact h
  | _ => cases h

/-- Lists agree after `f` and `g` exactly when they are equally long and agree member by member. -/
theorem map_eq_map_iff_zip {f g : Ty → Ty} {ts us : List Ty} :
    ts.map f = us.map g ↔ ts.length = us.length ∧ ∀ e ∈ ts.zip us, f e.1 = g e.2 := by
  rw [← List.forall₂_eq_eq_eq, List.forall₂_map_left_iff, List.forall₂_map_right_iff, List.forall₂_iff_zip]
  constructor
  · rintro ⟨hl, h⟩; exact ⟨hl, fun e he => h he⟩
  · rintro ⟨hl, h⟩; exact ⟨hl, fun {a b} he => h (a, b) he⟩

end Ty

/-! ## Views of types -/

namespace Ty

/-- `f` sees all of a type but, possibly, its latent effects. -/
structure View (f : Ty → Ty) : Prop where
  option {t u : Ty} : f (.option t) = f (.option u) ↔ f t = f u
  list {t u : Ty} : f (.list t) = f (.list u) ↔ f t = f u
  tuple {ts us : List Ty} : f (.tuple ts) = f (.tuple us) ↔ ts.map f = us.map f
  arrow_parts {a b r q : Ty} {e e' : Effect} : f (.arrow a e r) = f (.arrow b e' q) → f a = f b ∧ f r = f q
  arrow_congr {a b r q : Ty} {e : Effect} : f a = f b → f r = f q → f (.arrow a e r) = f (.arrow b e q)

theorem view_id : View id where
  option := by simp
  list := by simp
  tuple := by simp
  arrow_parts h := by simp only [id, Ty.arrow.injEq] at h; exact ⟨h.1, h.2.2⟩
  arrow_congr ha hr := by simp only [id] at ha hr ⊢; rw [ha, hr]

theorem view_eraseEffects : View eraseEffects where
  option := by simp [eraseEffects]
  list := by simp [eraseEffects]
  tuple := by simp [eraseEffects, eraseEffectsAll_eq_map]
  arrow_parts h := by simp only [eraseEffects, Ty.arrow.injEq] at h; exact ⟨h.1, h.2.2⟩
  arrow_congr ha hr := by rw [eraseEffects, eraseEffects, ha, hr]

end Ty

namespace Subst

variable {f : Ty → Ty}

/-! ## Agreement -/

theorem applyAll_eq_map (s : Subst) (ts : List Ty) : s.applyAll ts = ts.map s.apply := by
  induction ts with
  | nil => rfl
  | cons t ts ih => rw [applyAll, ih, List.map_cons]

/-- Substitutions look alike on a type exactly when they look alike on its variables. -/
theorem view_apply_eq_iff (hf : Ty.View f) {s s' : Subst} {t : Ty} :
    f (s.apply t) = f (s'.apply t) ↔ ∀ v ∈ t.vars, f (s.image v) = f (s'.image v) := by
  induction t using Ty.induct with
  | var v => simp [apply, Ty.vars]
  | base b => simp [apply, Ty.vars]
  | option t ih => exact hf.option.trans ih
  | list t ih => exact hf.list.trans ih
  | tuple ts ih =>
    simp only [apply, applyAll_eq_map, hf.tuple, List.map_map, List.map_inj_left, Function.comp_apply, Ty.vars,
      Ty.mem_varsAll]
    constructor
    · rintro h v ⟨t, ht, hv⟩; exact (ih t ht).1 (h t ht) v hv
    · intro h t ht; exact (ih t ht).2 fun v hv => h v ⟨t, ht, hv⟩
  | arrow a e r iha ihr =>
    simp only [Ty.vars, List.mem_append]
    constructor
    · intro h
      obtain ⟨ha, hr⟩ := hf.arrow_parts h
      rintro v (hv | hv)
      · exact iha.1 ha v hv
      · exact ihr.1 hr v hv
    · intro h
      exact hf.arrow_congr (iha.2 fun v hv => h v (.inl hv)) (ihr.2 fun v hv => h v (.inr hv))

theorem apply_eq_apply_iff {s s' : Subst} {t : Ty} :
    s.apply t = s'.apply t ↔ ∀ v ∈ t.vars, s.image v = s'.image v :=
  view_apply_eq_iff Ty.view_id

@[simp] theorem apply_empty (t : Ty) : apply .empty t = t := by
  induction t using Ty.induct with
  | var v => rfl
  | base b => rfl
  | option t ih => rw [apply, ih]
  | list t ih => rw [apply, ih]
  | tuple ts ih => rw [apply, applyAll_eq_map, List.map_congr_left ih, List.map_id']
  | arrow a e r iha ihr => rw [apply, iha, ihr]

/-- A substitution leaves a type as it is exactly when it moves none of its variables. -/
theorem apply_eq_self_iff {s : Subst} {t : Ty} : s.apply t = t ↔ ∀ v ∈ t.vars, s.image v = .var v := by
  conv_lhs => rhs; rw [← apply_empty t]
  rw [apply_eq_apply_iff]; rfl

/-! ## Variables -/

theorem mem_vars_apply {s : Subst} {v : TypeVar} {t : Ty} :
    v ∈ (s.apply t).vars ↔ ∃ w ∈ t.vars, v ∈ (s.image w).vars := by
  induction t using Ty.induct with
  | var w => simp [apply, Ty.vars]
  | base b => simp [apply, Ty.vars]
  | option t ih => simpa [apply, Ty.vars] using ih
  | list t ih => simpa [apply, Ty.vars] using ih
  | tuple ts ih =>
    simp only [apply, applyAll_eq_map, Ty.vars, Ty.mem_varsAll, List.mem_map]
    constructor
    · rintro ⟨_, ⟨t, ht, rfl⟩, hv⟩
      obtain ⟨w, hw, hv⟩ := (ih t ht).1 hv
      exact ⟨w, ⟨t, ht, hw⟩, hv⟩
    · rintro ⟨w, ⟨t, ht, hw⟩, hv⟩
      exact ⟨_, ⟨t, ht, rfl⟩, (ih t ht).2 ⟨w, hw, hv⟩⟩
  | arrow a e r iha ihr =>
    simp only [apply, Ty.vars, List.mem_append, iha, ihr]
    constructor
    · rintro (⟨w, hw, hv⟩ | ⟨w, hw, hv⟩)
      · exact ⟨w, .inl hw, hv⟩
      · exact ⟨w, .inr hw, hv⟩
    · rintro ⟨w, hw | hw, hv⟩
      · exact .inl ⟨w, hw, hv⟩
      · exact .inr ⟨w, hw, hv⟩

theorem image_of_get? {s : Subst} {v : TypeVar} {t : Ty} (h : s.get? v = some t) : s.image v = t := by
  rw [image, h]; rfl

theorem image_of_get?_none {s : Subst} {v : TypeVar} (h : s.get? v = none) : s.image v = .var v := by
  rw [image, h]; rfl

/-- A variable of a type after a substitution is one the type had and that is not bound, or one of a bound type. -/
theorem unbound_or_bound_of_mem_apply {s : Subst} {w : TypeVar} {t : Ty} (h : w ∈ (s.apply t).vars) :
    (w ∈ t.vars ∧ s.get? w = none) ∨ ∃ v u, s.get? v = some u ∧ w ∈ u.vars := by
  obtain ⟨v, hv, hw⟩ := mem_vars_apply.1 h
  cases hget : s.get? v with
  | none =>
    rw [image_of_get?_none hget, Ty.vars, List.mem_singleton] at hw
    rw [hw]; exact .inl ⟨hv, hget⟩
  | some u =>
    rw [image_of_get? hget] at hw
    exact .inr ⟨v, u, hget, hw⟩

/-- A variable that is a proper part of a type stays smaller than it, whatever is put in for the variables. -/
theorem eq_var_or_size_image_lt {s : Subst} {v : TypeVar} {t : Ty} (h : v ∈ t.vars) :
    t = .var v ∨ (s.image v).size < (s.apply t).size := by
  induction t using Ty.induct with
  | var w =>
    simp only [Ty.vars, List.mem_singleton] at h
    subst h; exact .inl rfl
  | base b => simp [Ty.vars] at h
  | option t ih =>
    right
    rcases ih h with rfl | h <;> simp only [apply, Ty.size] at * <;> omega
  | list t ih =>
    right
    rcases ih h with rfl | h <;> simp only [apply, Ty.size] at * <;> omega
  | tuple ts ih =>
    right
    obtain ⟨t, ht, hv⟩ := Ty.mem_varsAll.1 h
    have hle := Ty.size_le_sizeAll (List.mem_map_of_mem (f := s.apply) ht)
    simp only [apply, applyAll_eq_map, Ty.size]
    rcases ih t ht hv with rfl | h
    · simp only [apply] at hle; omega
    · omega
  | arrow a e r iha ihr =>
    right
    simp only [apply, Ty.size]
    rcases List.mem_append.1 h with h | h
    · rcases iha h with rfl | h
      · simp only [apply]; omega
      · omega
    · rcases ihr h with rfl | h
      · simp only [apply]; omega
      · omega

/-! ## Composition -/

theorem get?_compose (s first : Subst) (v : TypeVar) :
    (s.compose first).get? v = ((first.get? v).map s.apply).or (s.get? v) := by
  rw [compose, OrderedMap.get?_union, OrderedMap.get?_mapValues]

theorem image_compose (s first : Subst) (v : TypeVar) :
    (s.compose first).image v = s.apply (first.image v) := by
  rw [image, get?_compose]
  cases h : first.get? v with
  | none => rw [image_of_get?_none h]; rfl
  | some t => rw [image_of_get? h]; rfl

theorem apply_compose (s first : Subst) (t : Ty) : (s.compose first).apply t = s.apply (first.apply t) := by
  induction t using Ty.induct with
  | var v => exact image_compose s first v
  | base b => rfl
  | option t ih => simp only [apply, ih]
  | list t ih => simp only [apply, ih]
  | tuple ts ih =>
    simp only [apply, applyAll_eq_map, List.map_map, Ty.tuple.injEq]
    exact List.map_congr_left ih
  | arrow a e r iha ihr => simp only [apply, iha, ihr]

theorem compose_assoc (s between first : Subst) :
    s.compose (between.compose first) = (s.compose between).compose first := by
  refine OrderedMap.ext fun v => ?_
  rw [get?_compose, get?_compose, get?_compose, get?_compose]
  cases first.get? v with
  | none => rfl
  | some t => exact congrArg some (apply_compose s between t).symm

theorem compose_empty (s : Subst) : s.compose .empty = s :=
  OrderedMap.ext fun v => by rw [get?_compose, OrderedMap.get?_empty, Option.map_none, Option.none_or]

theorem empty_compose (s : Subst) : compose .empty s = s := by
  refine OrderedMap.ext fun v => ?_
  rw [get?_compose, OrderedMap.get?_empty, Option.or_none]
  cases s.get? v with
  | none => rfl
  | some t => exact congrArg some (apply_empty t)

theorem get?_bind (s : Subst) (v w : TypeVar) (t : Ty) :
    (s.bind v t).get? w =
      ((s.get? w).map (apply (.singleton v t))).or (if w = v then some t else none) := by
  rw [bind, get?_compose, OrderedMap.get?_singleton]

theorem image_bind (s : Subst) (v w : TypeVar) (t : Ty) :
    (s.bind v t).image w = apply (.singleton v t) (s.image w) :=
  image_compose _ _ _

theorem apply_bind (s : Subst) (v : TypeVar) (t u : Ty) :
    (s.bind v t).apply u = apply (.singleton v t) (s.apply u) :=
  apply_compose _ _ _

theorem get?_bind_eq_some {s : Subst} {v x : TypeVar} {t u : Ty} (h : (s.bind v t).get? x = some u) :
    (x = v ∧ u = t) ∨ ∃ y, s.get? x = some y ∧ u = apply (.singleton v t) y := by
  rw [get?_bind] at h
  cases hx : s.get? x with
  | none =>
    rw [hx] at h
    simp only [Option.map_none, Option.none_or, Option.ite_none_right_eq_some, Option.some.injEq] at h
    exact .inl ⟨h.1, h.2.symm⟩
  | some y =>
    rw [hx, Option.map_some, Option.some_or, Option.some.injEq] at h
    exact .inr ⟨y, rfl, h.symm⟩

theorem get?_bind_eq_none_iff {s : Subst} {v w : TypeVar} {t : Ty} :
    (s.bind v t).get? w = none ↔ s.get? w = none ∧ w ≠ v := by
  rw [get?_bind]
  cases s.get? w <;> simp

theorem apply_singleton_of_not_mem {v : TypeVar} {t u : Ty} (h : v ∉ u.vars) : apply (.singleton v t) u = u := by
  rw [apply_eq_self_iff]
  intro w hw
  rw [image_singleton, if_neg]
  rintro rfl; exact h hw

/-! ## Absorption -/

/-- A substitution that absorbs `s` on variables absorbs it on types. -/
theorem view_apply_apply (hf : Ty.View f) {θ s : Subst} (h : ∀ v, f (θ.apply (s.image v)) = f (θ.image v))
    (t : Ty) : f (θ.apply (s.apply t)) = f (θ.apply t) := by
  rw [← apply_compose, view_apply_eq_iff hf]
  intro v _
  rw [image_compose]; exact h v

/-- Replacing a variable by a type that `θ` does not tell from it goes unnoticed under `θ`. -/
theorem view_apply_singleton (hf : Ty.View f) {θ : Subst} {v : TypeVar} {r : Ty}
    (h : f (θ.image v) = f (θ.apply r)) (t : Ty) : f (θ.apply (apply (.singleton v r) t)) = f (θ.apply t) := by
  refine view_apply_apply hf (fun w => ?_) t
  rw [image_singleton]
  split
  · rename_i hw; rw [hw, h]
  · rfl

theorem eraseEffects_apply_eraseEffects (s : Subst) (t : Ty) :
    (s.apply t.eraseEffects).eraseEffects = (s.apply t).eraseEffects := by
  induction t using Ty.induct with
  | var v => rfl
  | base b => rfl
  | option t ih => exact Ty.view_eraseEffects.option.2 ih
  | list t ih => exact Ty.view_eraseEffects.list.2 ih
  | tuple ts ih =>
    rw [Ty.eraseEffects, apply, apply, Ty.view_eraseEffects.tuple, Ty.eraseEffectsAll_eq_map, applyAll_eq_map,
      applyAll_eq_map, List.map_map, List.map_map, List.map_map]
    exact List.map_congr_left ih
  | arrow a e r iha ihr => simp only [Ty.eraseEffects, apply, iha, ihr]

/-- Types that agree up to latent effects do so under every substitution. -/
theorem eraseEffects_apply_congr {s : Subst} {t u : Ty} (h : t.eraseEffects = u.eraseEffects) :
    (s.apply t).eraseEffects = (s.apply u).eraseEffects := by
  rw [← eraseEffects_apply_eraseEffects s t, h, eraseEffects_apply_eraseEffects]

/-! ## Idempotent substitutions -/

/-- No bound variable occurs in a bound type. -/
def Idempotent (s : Subst) : Prop := ∀ v t, s.get? v = some t → ∀ w ∈ t.vars, s.get? w = none

theorem isIdempotent_iff {s : Subst} : s.isIdempotent = true ↔ s.Idempotent := by
  simp only [isIdempotent, List.all_eq_true, Prod.forall, OrderedMap.mem_toList, OrderedMap.contains,
    Bool.not_eq_true', Option.isSome_eq_false_iff, Option.isNone_iff_eq_none, Idempotent]

theorem idempotent_empty : Idempotent .empty := by
  intro v t h; cases h

/-- What an idempotent substitution has been applied to holds none of its variables. -/
theorem Idempotent.get?_of_mem_apply {s : Subst} (hs : s.Idempotent) {w : TypeVar} {t : Ty}
    (h : w ∈ (s.apply t).vars) : s.get? w = none := by
  rcases unbound_or_bound_of_mem_apply h with ⟨-, hw⟩ | ⟨v, u, hv, hw⟩
  · exact hw
  · exact hs v u hv w hw

theorem Idempotent.apply_apply {s : Subst} (hs : s.Idempotent) (t : Ty) : s.apply (s.apply t) = s.apply t :=
  apply_eq_self_iff.2 fun _ hw => image_of_get?_none (hs.get?_of_mem_apply hw)

/-- A substitution that binds no variable to itself and does nothing more when applied again is idempotent. -/
theorem idempotent_of_apply_apply {s : Subst} (hproper : ∀ v, s.get? v ≠ some (.var v))
    (h : ∀ t, s.apply (s.apply t) = s.apply t) : s.Idempotent := by
  intro v t hv w hw
  have ht : s.apply t = t := by simpa only [apply, image_of_get? hv] using h (.var v)
  have hself : s.image w = .var w := apply_eq_self_iff.1 ht w hw
  cases hg : s.get? w with
  | none => rfl
  | some u =>
    rw [image_of_get? hg] at hself
    rw [hself] at hg
    exact absurd hg (hproper w)

/-- A new binding of a free variable to a type without bound variables keeps a substitution idempotent. -/
theorem Idempotent.bind {s : Subst} (hs : s.Idempotent) {v : TypeVar} {t : Ty} (hv : v ∉ t.vars)
    (ht : ∀ w ∈ t.vars, s.get? w = none) : (s.bind v t).Idempotent := by
  have hfresh : ∀ w ∈ t.vars, (s.bind v t).get? w = none := fun w hw =>
    get?_bind_eq_none_iff.2 ⟨ht w hw, fun heq => hv (heq ▸ hw)⟩
  intro x u hx w hw
  rcases get?_bind_eq_some hx with ⟨-, rfl⟩ | ⟨y, hy, rfl⟩
  · exact hfresh w hw
  · rcases mem_vars_apply_singleton hw with hw | ⟨hne, hw⟩
    · exact hfresh w hw
    · exact get?_bind_eq_none_iff.2 ⟨hs x y hy w hw, hne⟩

/-! ## Substitutions as a monoid -/

/-- Composition is application one after the other, and makes substitutions a monoid. Binding a free variable of an
idempotent substitution to a type that mentions neither it nor a bound variable composes with the binding, and keeps the
substitution idempotent. And a substitution that binds no variable to itself is idempotent if and only if applying it
twice is applying it once. -/
theorem compose_monoid_bind (s between first : Subst) :
    (∀ t, (s.compose first).apply t = s.apply (first.apply t)) ∧
    s.compose (between.compose first) = (s.compose between).compose first ∧
    s.compose .empty = s ∧ compose .empty s = s ∧
    (s.isIdempotent = true → ∀ v t, s.contains v = false → v ∉ t.freeVars →
      (∀ w ∈ t.freeVars, s.contains w = false) →
      (s.bind v t).isIdempotent = true ∧ (s.bind v t).get? v = some t ∧
        ∀ u, (s.bind v t).apply u = apply (.singleton v t) (s.apply u)) ∧
    ((∀ v, s.get? v ≠ some (.var v)) → (s.isIdempotent = true ↔ ∀ t, s.apply (s.apply t) = s.apply t)) := by
  refine ⟨apply_compose s first, compose_assoc s between first, compose_empty s, empty_compose s, ?_, ?_⟩
  · intro hs v t hv hvt ht
    have hfree : ∀ w, s.contains w = false → s.get? w = none := fun w hw => by
      rwa [OrderedMap.contains, Option.isSome_eq_false_iff, Option.isNone_iff_eq_none] at hw
    refine ⟨?_, ?_, apply_bind s v t⟩
    · refine isIdempotent_iff.2 ((isIdempotent_iff.1 hs).bind (fun h => hvt (Ty.mem_freeVars.2 h)) fun w hw => ?_)
      exact hfree w (ht w (Ty.mem_freeVars.2 hw))
    · rw [get?_bind, hfree v hv, if_pos rfl]; rfl
  · intro hproper
    rw [isIdempotent_iff]
    exact ⟨Idempotent.apply_apply, idempotent_of_apply_apply hproper⟩

/-- Binding `t1 := bool list` after `t0 := t1 option` rewrites the older binding. -/
theorem compose_monoid_bind_older :
    let s : Subst := .singleton ⟨0⟩ (.option (.var ⟨1⟩))
    let t : Ty := .list (.base .bool)
    s.isIdempotent = true ∧ (s.bind ⟨1⟩ t).isIdempotent = true ∧ (s.bind ⟨1⟩ t).get? ⟨1⟩ = some t ∧
      (s.bind ⟨1⟩ t).apply (.var ⟨0⟩) = .option t ∧
      (s.bind ⟨1⟩ t).apply ((s.bind ⟨1⟩ t).apply (.var ⟨0⟩)) = (s.bind ⟨1⟩ t).apply (.var ⟨0⟩) := by
  intro s t
  have hs : s.isIdempotent = true := rfl
  have hfresh : ∀ w ∈ t.freeVars, s.contains w = false := fun w hw => by cases hw
  obtain ⟨hidem, hget, happly⟩ :=
    (compose_monoid_bind s .empty .empty).2.2.2.2.1 hs ⟨1⟩ t rfl (by decide) hfresh
  have hproper : ∀ v, (s.bind ⟨1⟩ t).get? v ≠ some (.var v) := by
    intro v hv
    rcases get?_bind_eq_some hv with ⟨-, h⟩ | ⟨y, hy, h⟩
    · exact Ty.noConfusion h
    · rw [OrderedMap.get?_singleton] at hy
      split at hy
      · cases hy; cases h
      · cases hy
  exact ⟨hs, hidem, hget, happly _, ((compose_monoid_bind (s.bind ⟨1⟩ t) .empty .empty).2.2.2.2.2 hproper).1 hidem _⟩

/-- A variable bound to itself is bound and occurs in a bound type, though it is never moved. -/
example : isIdempotent (.singleton ⟨0⟩ (.var ⟨0⟩)) = false := rfl

end Subst

end EffectTyping
