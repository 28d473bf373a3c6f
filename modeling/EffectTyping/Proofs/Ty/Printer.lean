/-
How far the text of a type determines the type. An arrow that is an argument, or stands before `option` or `list`, is
written in parentheses; so is a tuple of one arrow, and there the two look the same. `ungroup` takes such an arrow out of
its tuple, and nothing else is lost: types have the same text exactly when they are the same after it. The tokens of two
types are compared from left to right. A type comes to its end at a token that cannot go on with it, and a chain of
suffixes is taken as a whole, since the type before it may have some of its own.
-/
import EffectTyping.Proofs.Ty.Token

namespace EffectTyping.Ty

/-! ## Arrows alone in a tuple -/

/-- An arrow that is alone in a tuple is taken out of it. -/
def bare : Ty → Ty
  | .tuple [.arrow a e r] => .arrow a e r
  | t => t

mutual

/-- The type with every tuple of one arrow replaced by that arrow where the tuple is the argument of an arrow or the
operand of `option` or `list`. -/
def ungroup : Ty → Ty
  | .var v => .var v
  | .base b => .base b
  | .option t => .option (ungroup t).bare
  | .list t => .list (ungroup t).bare
  | .tuple ts => .tuple (ungroupAll ts)
  | .arrow a e r => .arrow (ungroup a).bare e (ungroup r)

def ungroupAll : List Ty → List Ty
  | [] => []
  | t :: ts => ungroup t :: ungroupAll ts

end

theorem ungroupAll_eq_map (ts : List Ty) : ungroupAll ts = ts.map ungroup := by
  induction ts with
  | nil => rfl
  | cons t ts ih => rw [ungroupAll, ih, List.map_cons]

theorem renderAt_bare (t : Ty) : renderAt true t.bare = renderAt true t := by
  unfold bare
  split <;> rfl

theorem renderAll_congr {f : Ty → Ty} {ts : List Ty} (h : ∀ t ∈ ts, renderAt false (f t) = renderAt false t) :
    renderAll (ts.map f) = renderAll ts := by
  induction ts with
  | nil => rfl
  | cons t ts ih =>
    obtain ⟨ht, hts⟩ := List.forall_mem_cons.1 h
    cases ts with
    | nil => exact ht
    | cons u us =>
      have hmore : ∀ t u : Ty, ∀ us, renderAll (t :: u :: us) = renderAt false t ++ " * " ++ renderAll (u :: us) :=
        fun _ _ _ => rfl
      rw [List.map_cons, List.map_cons, hmore, ← List.map_cons, ih hts, ht, hmore]

/-- The text does not show whether an arrow was taken out of its tuple. -/
theorem renderAt_ungroup (tight : Bool) (t : Ty) : renderAt tight t.ungroup = renderAt tight t := by
  induction t using Ty.induct generalizing tight with
  | var v => rfl
  | base b => rfl
  | option t ih => rw [ungroup, renderAt, renderAt_bare, ih, renderAt]
  | list t ih => rw [ungroup, renderAt, renderAt_bare, ih, renderAt]
  | tuple ts ih => rw [ungroup, ungroupAll_eq_map, renderAt, renderAt, renderAll_congr fun t ht => ih t ht false]
  | arrow a e r iha ihr => rw [ungroup, renderAt, renderAt_bare, iha, ihr, renderAt]

/-! ## Ends of types -/

/-- After these tokens a type does not go on: there are none, or a parenthesis or a star comes first. -/
def Ends (ks : List Token) : Prop := ∀ k ∈ ks.head?, k = .closing ∨ k = .star

/-- The tokens do not begin with a suffix. -/
def Unsuffixed (ks : List Token) : Prop := ∀ k ∈ ks.head?, ∀ f, k ≠ .suffix f

theorem Ends.unsuffixed {ks : List Token} (h : Ends ks) : Unsuffixed ks := by
  rintro k hk f rfl
  rcases h _ hk with h | h <;> cases h

theorem unsuffixed_arrow (e : Effect) (ks : List Token) : Unsuffixed (.arrow e :: ks) := by
  rintro k hk f rfl
  cases hk

theorem not_ends_arrow {e : Effect} {ks : List Token} : ¬ Ends (.arrow e :: ks) := by
  intro h
  rcases h _ rfl with h | h <;> cases h

theorem ends_tokensMore (ts : List Ty) (ks : List Token) : Ends (tokensMore ts ++ .closing :: ks) := by
  cases ts with
  | nil => intro k hk; cases hk; exact .inl rfl
  | cons t ts => intro k hk; cases hk; exact .inr rfl

/-- Where suffixes end is not in doubt. -/
theorem suffixes_inj {fs gs : List Suffix} {x y : List Token} (hx : Unsuffixed x) (hy : Unsuffixed y)
    (h : fs.map Token.suffix ++ x = gs.map Token.suffix ++ y) : fs = gs ∧ x = y := by
  induction fs generalizing gs with
  | nil =>
    cases gs with
    | nil => exact ⟨rfl, h⟩
    | cons g gs => subst h; exact absurd rfl (hx _ rfl g)
  | cons f fs ih =>
    cases gs with
    | nil => subst h; exact absurd rfl (hy _ rfl f)
    | cons g gs =>
      obtain ⟨hfg, hrest⟩ := List.cons.inj h
      cases hfg
      obtain ⟨rfl, hxy⟩ := ih hrest
      exact ⟨rfl, hxy⟩

/-! ## Telling types apart -/

/-- The type with suffixes applied to it, the first one first. -/
def suffixed (t : Ty) (fs : List Suffix) : Ty := fs.foldl (fun t f => f.apply t) t

/-- Before an end, the tokens of `t` are those of no other type up to grouping. -/
def Apart (t : Ty) : Prop := ∀ (u : Ty) (x y : List Token), Ends x → Ends y →
  tokensAt false t ++ x = tokensAt false u ++ y → t.ungroup = u.ungroup ∧ x = y

/-- In a tight place, the tokens of `t` are not those of `u`, or the two are the same up to grouping. Suffixes that
follow are compared together with those of the types. -/
def Tells (t u : Ty) : Prop := ∀ (fs gs : List Suffix) (x y : List Token), Unsuffixed x → Unsuffixed y →
  tokensAt true t ++ (fs.map .suffix ++ x) = tokensAt true u ++ (gs.map .suffix ++ y) →
  suffixed t.ungroup.bare fs = suffixed u.ungroup.bare gs ∧ x = y

/-- The tokens of `t` in a tight place are those of no other type up to grouping. -/
def ApartTight (t : Ty) : Prop := ∀ u, Tells t u

/-- Without suffixes after them. -/
theorem Tells.plain {t u : Ty} (h : Tells t u) {x y : List Token} (hx : Unsuffixed x) (hy : Unsuffixed y)
    (heq : tokensAt true t ++ x = tokensAt true u ++ y) : t.ungroup.bare = u.ungroup.bare ∧ x = y :=
  h [] [] x y hx hy heq

/-- A suffix of the type comes before those that follow it. -/
theorem tokensAt_suffix (f : Suffix) (t : Ty) (fs : List Suffix) (x : List Token) :
    tokensAt true (f.apply t) ++ (fs.map .suffix ++ x) = tokensAt true t ++ ((f :: fs).map .suffix ++ x) := by
  cases f <;> exact List.append_assoc _ _ _

theorem bare_ungroup_suffix (f : Suffix) (t : Ty) : (f.apply t).ungroup.bare = f.apply t.ungroup.bare := by
  cases f <;> rfl

theorem Tells.suffix_left {t u : Ty} (h : Tells t u) (f : Suffix) : Tells (f.apply t) u := by
  intro fs gs x y hx hy heq
  rw [tokensAt_suffix] at heq
  rw [bare_ungroup_suffix]
  exact h (f :: fs) gs x y hx hy heq

theorem Tells.suffix_right {t u : Ty} (h : Tells t u) (f : Suffix) : Tells t (f.apply u) := by
  intro fs gs x y hx hy heq
  rw [tokensAt_suffix] at heq
  rw [bare_ungroup_suffix]
  exact h fs (f :: gs) x y hx hy heq

/-- It is enough to look at types without a suffix. -/
theorem apartTight_of_unsuffixed {t : Ty} (h : ∀ u, (∀ f v, u ≠ Suffix.apply f v) → Tells t u) : ApartTight t := by
  intro u
  induction u using Ty.induct with
  | option u ih => exact ih.suffix_right .option
  | list u ih => exact ih.suffix_right .list
  | var v => exact h _ fun f v => by cases f <;> simp [Suffix.apply]
  | base b => exact h _ fun f v => by cases f <;> simp [Suffix.apply]
  | tuple ts => exact h _ fun f v => by cases f <;> simp [Suffix.apply]
  | arrow a e r => exact h _ fun f v => by cases f <;> simp [Suffix.apply]

/-! ## Names and parentheses -/

/-- What stands in the parentheses of a type in a tight place, if it is written in some. -/
def inside? : Ty → Option (List Ty)
  | .tuple ts => some ts
  | .arrow a e r => some [.arrow a e r]
  | _ => none

theorem tokensAt_of_inside {t : Ty} {ts : List Ty} (h : t.inside? = some ts) :
    tokensAt true t = .opening :: (tokensAll ts ++ [.closing]) := by
  cases t with
  | tuple ts => cases h; rfl
  | arrow a e r => cases h; simp [tokensAt, tokensAll, tokensMore]
  | var | base | option | list => cases h

/-- Up to grouping the type is the tuple of what stands in its parentheses. -/
theorem bare_ungroup_of_inside {t : Ty} {ts : List Ty} (h : t.inside? = some ts) :
    t.ungroup.bare = (Ty.tuple (ts.map ungroup)).bare := by
  cases t with
  | tuple ts => cases h; rw [ungroup, ungroupAll_eq_map]
  | arrow a e r => cases h; rfl
  | var | base | option | list => cases h

/-- The token of a type that has only one. -/
def name? : Ty → Option Token
  | .var v => some (.var v)
  | .base b => some (.base b)
  | _ => none

theorem tokensAt_of_name {t : Ty} {k : Token} (h : t.name? = some k) : tokensAt true t = [k] ∧ k ≠ .opening := by
  cases t with
  | var v => cases h; exact ⟨rfl, by simp⟩
  | base b => cases h; exact ⟨rfl, by simp⟩
  | option | list | tuple | arrow => cases h

theorem name?_inj {t u : Ty} {k : Token} (ht : t.name? = some k) (hu : u.name? = some k) : t = u := by
  cases t with
  | var v => cases ht; cases u <;> cases hu; rfl
  | base b => cases ht; cases u <;> cases hu; rfl
  | option | list | tuple | arrow => cases ht

/-- No type begins with a closing parenthesis. -/
theorem tokensAt_ne_closing (tight : Bool) (t : Ty) (x y : List Token) : tokensAt tight t ++ x ≠ .closing :: y := by
  induction t using Ty.induct generalizing tight x with
  | var v => simp [tokensAt]
  | base b => simp [tokensAt]
  | option t ih => rw [tokensAt, List.append_assoc]; exact ih true _
  | list t ih => rw [tokensAt, List.append_assoc]; exact ih true _
  | tuple ts => simp [tokensAt]
  | arrow a e r iha _ =>
    cases tight with
    | true => simp [tokensAt]
    | false => rw [tokensAt, if_neg Bool.false_ne_true, List.append_assoc]; exact iha true _

theorem tokensMore_inj {ts : List Ty} (hts : ∀ t ∈ ts, Apart t) {us : List Ty} {x y : List Token}
    (h : tokensMore ts ++ .closing :: x = tokensMore us ++ .closing :: y) :
    ts.map ungroup = us.map ungroup ∧ x = y := by
  induction ts generalizing us with
  | nil =>
    cases us with
    | nil => exact ⟨rfl, (List.cons.inj h).2⟩
    | cons u us => cases h
  | cons t ts ih =>
    cases us with
    | nil => cases h
    | cons u us =>
      obtain ⟨ht, hts⟩ := List.forall_mem_cons.1 hts
      rw [tokensMore, tokensMore, List.cons_append, List.cons_append, List.append_assoc, List.append_assoc] at h
      obtain ⟨htu, hmore⟩ := ht u _ _ (ends_tokensMore ts x) (ends_tokensMore us y) (List.cons.inj h).2
      obtain ⟨hrest, hxy⟩ := ih hts hmore
      exact ⟨by rw [List.map_cons, List.map_cons, htu, hrest], hxy⟩

theorem tokensAll_inj {ts : List Ty} (hts : ∀ t ∈ ts, Apart t) {us : List Ty} {x y : List Token}
    (h : tokensAll ts ++ .closing :: x = tokensAll us ++ .closing :: y) :
    ts.map ungroup = us.map ungroup ∧ x = y := by
  cases ts with
  | nil =>
    cases us with
    | nil => exact ⟨rfl, (List.cons.inj h).2⟩
    | cons u us =>
      rw [tokensAll, tokensAll, List.append_assoc] at h
      exact absurd h.symm (tokensAt_ne_closing false u _ _)
  | cons t ts =>
    cases us with
    | nil =>
      rw [tokensAll, tokensAll, List.append_assoc] at h
      exact absurd h (tokensAt_ne_closing false t _ _)
    | cons u us =>
      -- with a star in front these are more components
      exact tokensMore_inj hts (congrArg (Token.star :: ·) h)

/-! ## One form of type after the other -/

theorem apartTight_of_inside {t : Ty} {ts : List Ty} (hinside : t.inside? = some ts) (hts : ∀ t ∈ ts, Apart t) :
    ApartTight t := by
  refine apartTight_of_unsuffixed fun u hu fs gs x y hx hy h => ?_
  rw [tokensAt_of_inside hinside] at h
  cases hus : u.inside? with
  | none =>
    cases u with
    | var w => cases h
    | base b => cases h
    | option u => exact absurd rfl (hu .option u)
    | list u => exact absurd rfl (hu .list u)
    | tuple us => cases hus
    | arrow a e r => cases hus
  | some us =>
    rw [tokensAt_of_inside hus, List.cons_append, List.cons_append, List.append_assoc, List.append_assoc] at h
    obtain ⟨hmap, hafter⟩ := tokensAll_inj hts (List.cons.inj h).2
    obtain ⟨rfl, rfl⟩ := suffixes_inj hx hy hafter
    rw [bare_ungroup_of_inside hinside, bare_ungroup_of_inside hus, hmap]
    exact ⟨rfl, rfl⟩

/-- A name is told from all other types by its token. -/
theorem apartTight_of_name {t : Ty} {k : Token} (hname : t.name? = some k) : ApartTight t := by
  refine apartTight_of_unsuffixed fun u hu fs gs x y hx hy h => ?_
  obtain ⟨htokens, hopening⟩ := tokensAt_of_name hname
  rw [htokens] at h
  cases huname : u.name? with
  | some j =>
    rw [(tokensAt_of_name huname).1] at h
    obtain ⟨rfl, hafter⟩ := List.cons.inj h
    obtain ⟨rfl, hxy⟩ := suffixes_inj hx hy hafter
    rw [name?_inj hname huname]
    exact ⟨rfl, hxy⟩
  | none =>
    cases u with
    | var w => cases huname
    | base b => cases huname
    | option u => exact absurd rfl (hu .option u)
    | list u => exact absurd rfl (hu .list u)
    | tuple us => exact absurd (List.cons.inj h).1 hopening
    | arrow a e r => exact absurd (List.cons.inj h).1 hopening

/-- In a loose place only an arrow is written otherwise than in a tight one. -/
theorem tokensAt_false {t : Ty} (ht : ∀ a e r, t ≠ .arrow a e r) : tokensAt false t = tokensAt true t := by
  cases t with
  | arrow a e r => exact absurd rfl (ht a e r)
  | var | base | option | list | tuple => rfl

theorem tokensAt_arrow (a : Ty) (e : Effect) (r : Ty) (x : List Token) :
    tokensAt false (.arrow a e r) ++ x = tokensAt true a ++ .arrow e :: (tokensAt false r ++ x) := by
  rw [tokensAt, if_neg Bool.false_ne_true, List.append_assoc]; rfl

theorem bare_cases (t : Ty) : (∃ a e r, t = .tuple [.arrow a e r] ∧ t.bare = .arrow a e r) ∨ t.bare = t := by
  unfold bare
  split
  · exact .inl ⟨_, _, _, rfl, rfl⟩
  · exact .inr rfl

/-- Among types other than arrows, an arrow is only what the tuple of it leaves. -/
theorem bare_inj {t u : Ty} (ht : ∀ a e r, t ≠ .arrow a e r) (hu : ∀ a e r, u ≠ .arrow a e r)
    (h : t.bare = u.bare) : t = u := by
  rcases bare_cases t with ⟨a, e, r, rfl, hbare⟩ | hbare <;> rcases bare_cases u with ⟨b, e', q, rfl, hbare'⟩ | hbare'
  · rw [hbare, hbare'] at h
    rw [h]
  · rw [hbare, hbare'] at h
    exact absurd h.symm (hu a e r)
  · rw [hbare, hbare'] at h
    exact absurd h (ht b e' q)
  · rw [hbare, hbare'] at h
    exact h

theorem ungroup_ne_arrow {t : Ty} (ht : ∀ a e r, t ≠ .arrow a e r) (a : Ty) (e : Effect) (r : Ty) :
    t.ungroup ≠ .arrow a e r := by
  cases t with
  | arrow b e' q => exact absurd rfl (ht b e' q)
  | var | base | option | list | tuple => simp [ungroup]

theorem ApartTight.apart {t : Ty} (h : ApartTight t) (ht : ∀ a e r, t ≠ .arrow a e r) : Apart t := by
  intro u x y hx hy heq
  rw [tokensAt_false ht] at heq
  by_cases hu : ∃ a e r, u = .arrow a e r
  · obtain ⟨a, e, r, rfl⟩ := hu
    rw [tokensAt_arrow] at heq
    obtain ⟨-, rfl⟩ := (h _).plain hx.unsuffixed (unsuffixed_arrow e _) heq
    exact absurd hx not_ends_arrow
  · have hu : ∀ a e r, u ≠ .arrow a e r := fun a e r heq => hu ⟨a, e, r, heq⟩
    rw [tokensAt_false hu] at heq
    obtain ⟨hbare, rfl⟩ := (h u).plain hx.unsuffixed hy.unsuffixed heq
    exact ⟨bare_inj (ungroup_ne_arrow ht) (ungroup_ne_arrow hu) hbare, rfl⟩

theorem apart_arrow {a r : Ty} (e : Effect) (ha : ApartTight a) (hr : Apart r) : Apart (.arrow a e r) := by
  intro u x y hx hy h
  rw [tokensAt_arrow] at h
  by_cases hu : ∃ b e' q, u = .arrow b e' q
  · obtain ⟨b, e', q, rfl⟩ := hu
    rw [tokensAt_arrow] at h
    obtain ⟨hab, hafter⟩ := (ha b).plain (unsuffixed_arrow e _) (unsuffixed_arrow e' _) h
    obtain ⟨he, hrest⟩ := List.cons.inj hafter
    cases he
    obtain ⟨hrq, hxy⟩ := hr q x y hx hy hrest
    exact ⟨by rw [ungroup, ungroup, hab, hrq], hxy⟩
  · rw [tokensAt_false fun b e' q heq => hu ⟨b, e', q, heq⟩] at h
    obtain ⟨-, rfl⟩ := (ha u).plain (unsuffixed_arrow e _) hy.unsuffixed h
    exact absurd hy not_ends_arrow

theorem apart_and_apartTight (t : Ty) : Apart t ∧ ApartTight t := by
  induction t using Ty.induct with
  | var v =>
    have h : ApartTight (.var v) := apartTight_of_name rfl
    exact ⟨h.apart (by simp), h⟩
  | base b =>
    have h : ApartTight (.base b) := apartTight_of_name rfl
    exact ⟨h.apart (by simp), h⟩
  | option t ih =>
    have h : ApartTight (.option t) := fun u => (ih.2 u).suffix_left .option
    exact ⟨h.apart (by simp), h⟩
  | list t ih =>
    have h : ApartTight (.list t) := fun u => (ih.2 u).suffix_left .list
    exact ⟨h.apart (by simp), h⟩
  | tuple ts ih =>
    have h : ApartTight (.tuple ts) := apartTight_of_inside rfl fun t ht => (ih t ht).1
    exact ⟨h.apart (by simp), h⟩
  | arrow a e r iha ihr =>
    -- in a tight place an arrow is written as the tuple of it, so the loose place comes first
    have h : Apart (.arrow a e r) := apart_arrow e iha.2 ihr.1
    exact ⟨h, apartTight_of_inside rfl (List.forall_mem_singleton.2 h)⟩

theorem ungroup_eq_of_render_eq {a b : Ty} (h : a.render = b.render) : a.ungroup = b.ungroup := by
  have htokens : tokensAt false a = tokensAt false b := by
    apply Token.flatMap_text_injective
    rw [← toList_renderAt, ← toList_renderAt]
    exact congrArg String.toList h
  have hends : Ends [] := by intro k hk; cases hk
  exact ((apart_and_apartTight a).1 b [] [] hends hends (by rw [htokens])).1

/-! ## Types without tuples of one component -/

mutual

/-- Does no tuple in the type have exactly one component? -/
def singletonFree : Ty → Bool
  | .var _ => true
  | .base _ => true
  | .option t => singletonFree t
  | .list t => singletonFree t
  | .tuple ts => ts.length != 1 && singletonFreeAll ts
  | .arrow a _ r => singletonFree a && singletonFree r

def singletonFreeAll : List Ty → Bool
  | [] => true
  | t :: ts => singletonFree t && singletonFreeAll ts

end

theorem singletonFreeAll_iff {ts : List Ty} : singletonFreeAll ts = true ↔ ∀ t ∈ ts, t.singletonFree = true := by
  induction ts with
  | nil => simp [singletonFreeAll]
  | cons t ts ih => simp [singletonFreeAll, ih]

theorem bare_of_singletonFree {t : Ty} (h : t.singletonFree = true) : t.bare = t := by
  rcases bare_cases t with ⟨a, e, r, rfl, -⟩ | hbare
  · simp [singletonFree] at h
  · exact hbare

theorem ungroup_of_singletonFree {t : Ty} (h : t.singletonFree = true) : t.ungroup = t := by
  induction t using Ty.induct with
  | var v => rfl
  | base b => rfl
  | option t ih =>
    rw [singletonFree] at h
    rw [ungroup, ih h, bare_of_singletonFree h]
  | list t ih =>
    rw [singletonFree] at h
    rw [ungroup, ih h, bare_of_singletonFree h]
  | tuple ts ih =>
    rw [singletonFree, Bool.and_eq_true, singletonFreeAll_iff] at h
    rw [ungroup, ungroupAll_eq_map, List.map_congr_left fun t ht => ih t ht (h.2 t ht), List.map_id']
  | arrow a e r iha ihr =>
    rw [singletonFree, Bool.and_eq_true] at h
    rw [ungroup, iha h.1, ihr h.2, bare_of_singletonFree h.1]

/-- Two types have the same text if and only if they are the same once every tuple of one arrow that is an argument, or
the operand of `option` or `list`, has been replaced by that arrow. So types without tuples of one component have the
same text only if they are the same. -/
theorem render_eq_iff (a b : Ty) :
    (a.render = b.render ↔ a.ungroup = b.ungroup) ∧
    (a.singletonFree = true → b.singletonFree = true → a.render = b.render → a = b) := by
  refine ⟨⟨ungroup_eq_of_render_eq, fun h => ?_⟩, fun ha hb h => ?_⟩
  · rw [render, render, ← renderAt_ungroup false a, h, renderAt_ungroup]
  · rw [← ungroup_of_singletonFree ha, ungroup_eq_of_render_eq h, ungroup_of_singletonFree hb]

/-- Before `option` the tuple of an arrow has the text of the arrow, inside an argument too. By itself it has not, and
neither has the tuple of that tuple. -/
theorem render_eq_grouped :
    let f : Ty := .arrow (.base .int) .weak (.var ⟨7⟩)
    let a : Ty := .option (.arrow (.tuple [f]) .pure (.tuple [f]))
    let b : Ty := .option (.tuple [.arrow f .pure (.tuple [f])])
    a.render = b.render ∧ a.render = "((int -[weak]-> t7) -> (int -[weak]-> t7)) option" ∧
      (Ty.tuple [f]).render ≠ f.render ∧
      (Ty.option (.tuple [.tuple [f]])).render ≠ (Ty.option (.tuple [f])).render ∧
      f.singletonFree = true ∧ (Ty.option f).singletonFree = true ∧ f.render ≠ (Ty.option f).render := by
  intro f a b
  refine ⟨(render_eq_iff a b).1.2 rfl, by decide, fun h => ?_, fun h => ?_, rfl, rfl, fun h => ?_⟩
  · cases (render_eq_iff _ _).1.1 h
  · cases (render_eq_iff _ _).1.1 h
  · cases (render_eq_iff _ _).2 rfl rfl h

end EffectTyping.Ty
