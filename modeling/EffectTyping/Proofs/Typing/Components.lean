/-
Patterns and the components of types. The component of a type at a place of a pattern is found by following the steps
to that place through tuples and options. A pattern is accepted exactly when it binds no name twice and every
constructor in it declares a type that has the component at its place as an instance, and what it binds are the
components at the places of its names. The checker never looks up a component: it takes the parts of the declared type
and instantiates them, one level at a time, and merges the bindings of the parts level by level.
-/
import EffectTyping.Proofs.Typing.Location
import EffectTyping.Proofs.Typing.Scope

namespace EffectTyping

/-! ## Components -/

namespace Ty

/-- The component of a type that a step into a part of a pattern leads to: by its number in a tuple, and what an option
holds. -/
def component? : Ty → Step → Option Ty
  | .tuple ts, .subpattern i => ts[i]?
  | .option t, .subpattern 0 => some t
  | _, _ => none

/-- The component the steps lead to. -/
def componentAt? (t : Ty) (steps : List Step) : Option Ty := steps.foldlM component? t

theorem componentAt?_cons (t : Ty) (step : Step) (steps : List Step) :
    t.componentAt? (step :: steps) = (t.component? step).bind (·.componentAt? steps) := rfl

/-- What a constructor builds a value from are components of the type of the value. -/
theorem component?_of_builds {tag : Tag} {ty u : Ty} {fields : List Ty} (h : tag.Builds ty fields) {i : Nat}
    (hu : fields[i]? = some u) : ty.component? (.subpattern i) = some u := by
  cases h with
  | tuple hl => exact hu
  | none t => cases hu
  | some t =>
    cases i with
    | zero => exact hu
    | succ i => cases hu

end Ty

namespace Pattern

/-! ## Places in a pattern -/

theorem at?_ctor_cons_iff {ty : Ty} {tag : Tag} {args : List Pattern} {step : Step} {steps : List Step} {q : Pattern} :
    (Pattern.ctor ty tag args).at? (step :: steps) = some q ↔
      ∃ i p, step = .subpattern i ∧ args[i]? = some p ∧ p.at? steps = some q := by
  rw [at?_cons]
  constructor
  · intro h
    obtain ⟨p, hp, hat⟩ := Option.bind_eq_some_iff.1 h
    obtain ⟨i, rfl⟩ := eq_subpattern_of_child? hp
    exact ⟨i, p, rfl, hp, hat⟩
  · rintro ⟨i, p, rfl, hp, h⟩
    rw [child?, hp]; exact h

theorem mem_namesAll_iff {name : String} {ps : List Pattern} : name ∈ namesAll ps ↔ ∃ p ∈ ps, name ∈ p.names := by
  induction ps with
  | nil => simp [namesAll]
  | cons p ps ih => rw [namesAll, List.mem_append, ih]; simp

/-- The names of a pattern are those at its places. -/
theorem mem_names_iff {name : String} {p : Pattern} : name ∈ p.names ↔ ∃ steps, p.at? steps = some (.var name) := by
  induction p using Pattern.induct with
  | var x =>
    rw [names, List.mem_singleton]
    constructor
    · rintro rfl; exact ⟨[], rfl⟩
    · rintro ⟨_ | ⟨step, steps⟩, h⟩ <;> cases h
      rfl
  | ctor ty tag args ih =>
    rw [names, mem_namesAll_iff]
    constructor
    · rintro ⟨p, hp, hname⟩
      obtain ⟨i, hi⟩ := List.getElem?_of_mem hp
      obtain ⟨steps, h⟩ := (ih p hp).1 hname
      exact ⟨.subpattern i :: steps, at?_ctor_cons_iff.2 ⟨i, p, rfl, hi, h⟩⟩
    · rintro ⟨_ | ⟨step, steps⟩, h⟩
      · cases h
      · obtain ⟨i, p, rfl, hi, h⟩ := at?_ctor_cons_iff.1 h
        have hp := List.mem_of_getElem? hi
        exact ⟨p, hp, (ih p hp).2 ⟨steps, h⟩⟩

/-! ## Patterns that fit a type -/

/-- Every constructor in the pattern takes the arguments it is given to build a value of the type it declares, and this
type has the component of `expected` at its place as an instance. -/
def Fits (p : Pattern) (expected : Ty) : Prop := ∀ steps ty tag args, p.at? steps = some (.ctor ty tag args) →
  (∃ fields, constructorFields ty tag args.length = .ok fields) ∧
  ∃ part, expected.componentAt? steps = some part ∧ ty.generalizes part = true

theorem fits_var (name : String) (expected : Ty) : Fits (.var name) expected := by
  rintro (_ | ⟨step, steps⟩) ty tag args h <;> cases h

/-- One level: the parts fit what the parts of the declared type are instantiated to. -/
theorem fits_ctor_iff {ty expected : Ty} {tag : Tag} {args : List Pattern} :
    Fits (.ctor ty tag args) expected ↔ ∃ fields w, tag.Builds ty fields ∧ fields.length = args.length ∧
      ty.instantiation? expected = some w ∧
      ∀ (i : Nat) (p : Pattern) (u : Ty), args[i]? = some p → (w.applyAll fields)[i]? = some u → Fits p u := by
  have hcomponent : ∀ {fields : List Ty} {w : Subst}, tag.Builds ty fields → ty.instantiation? expected = some w →
      ∀ {i : Nat} {u : Ty}, (w.applyAll fields)[i]? = some u → expected.component? (.subpattern i) = some u := by
    intro fields w hty hw i u hu
    have hexp := hty.apply w
    rw [Ty.apply_of_instantiation hw] at hexp
    exact Ty.component?_of_builds hexp hu
  constructor
  · intro h
    obtain ⟨⟨fields, hfields⟩, root, hroot, hinst⟩ := h [] ty tag args rfl
    cases hroot
    obtain ⟨hty, hl⟩ := constructorFields_ok_iff.1 hfields
    obtain ⟨w, hw⟩ := Ty.exists_instantiation_iff.2 (Ty.generalizes_iff.1 hinst)
    refine ⟨fields, w, hty, hl, hw, fun i p u hp hu steps ty' tag' args' hat => ?_⟩
    have hhere := h (.subpattern i :: steps) ty' tag' args' (at?_ctor_cons_iff.2 ⟨i, p, rfl, hp, hat⟩)
    rw [Ty.componentAt?_cons, hcomponent hty hw hu] at hhere
    exact hhere
  · rintro ⟨fields, w, hty, hl, hw, hparts⟩ (_ | ⟨step, steps⟩) ty' tag' args' hat
    · cases hat
      refine ⟨⟨fields, constructorFields_ok_iff.2 ⟨hty, hl⟩⟩, expected, rfl, ?_⟩
      exact Ty.generalizes_iff.2 (Ty.exists_instantiation_iff.1 ⟨w, hw⟩)
    · obtain ⟨i, p, rfl, hp, hat⟩ := at?_ctor_cons_iff.1 hat
      have hi : i < (w.applyAll fields).length := by
        rw [Subst.applyAll_eq_map, List.length_map, hl]
        exact (List.getElem?_eq_some_iff.1 hp).1
      have hu := List.getElem?_eq_getElem hi
      rw [Ty.componentAt?_cons, hcomponent hty hw hu]
      exact hparts i p _ hp hu steps ty' tag' args' hat

/-! ## What is bound -/

/-- Bindings have no name in common exactly when the patterns have none. -/
theorem Binds.disjoint_iff {p : Pattern} {ps : List Pattern} {t : Ty} {ts : List Ty} {bindings others : Env}
    (hp : p.Binds t bindings) (hps : BindAll ps ts others) :
    bindings.Disjoint others ↔ ∀ name ∈ p.names, name ∉ namesAll ps := by
  have hnone : ∀ {env : Env} {name : String}, env.get? name = none ↔ ¬ env.contains name = true := by
    intro env name
    simp [OrderedMap.contains]
  refine forall_congr' fun name => ?_
  rw [hnone, hnone, hp.contains_iff, hps.contains_iff]
  exact imp_iff_not_or.symm

mutual

theorem Binds.nodup_names : ∀ {p : Pattern} {expected : Ty} {bindings : Env},
    p.Binds expected bindings → p.names.Nodup
  | .var name, _, _, _ => by simp [names]
  | .ctor ty tag args, _, _, h => by
    cases h with
    | ctor hty hinst hexp hargs => rw [names]; exact hargs.nodup_names

theorem BindAll.nodup_names : ∀ {ps : List Pattern} {expected : List Ty} {bindings : Env},
    BindAll ps expected bindings → (namesAll ps).Nodup
  | [], _, _, _ => by rw [namesAll]; exact List.nodup_nil
  | p :: ps, _, _, h => by
    cases h with
    | cons hp hps hd =>
      rw [namesAll, List.nodup_append]
      refine ⟨hp.nodup_names, hps.nodup_names, fun name hname other hother heq => ?_⟩
      exact (hp.disjoint_iff hps).1 hd name hname (heq ▸ hother)

end

/-- What a part binds stays bound. -/
theorem BindAll.part {ps : List Pattern} {ts : List Ty} {bindings : Env} (h : BindAll ps ts bindings) {i : Nat}
    {p : Pattern} (hp : ps[i]? = some p) : ∃ t own, ts[i]? = some t ∧ p.Binds t own ∧
      ∀ name u, own.get? name = some u → bindings.get? name = some u := by
  induction ps generalizing ts bindings i with
  | nil => cases hp
  | cons q ps ih =>
    cases h with
    | @cons _ _ t ts first others hq hps hd =>
      cases i with
      | zero =>
        cases hp
        refine ⟨t, first, rfl, hq, fun name u hu => ?_⟩
        rw [OrderedMap.get?_union, hu]; rfl
      | succ i =>
        obtain ⟨t', own, ht, hown, hkeep⟩ := ih hps hp
        refine ⟨t', own, ht, hown, fun name u hu => ?_⟩
        have hothers := hkeep name u hu
        have hfirst := (hd name).resolve_right (by rw [hothers]; simp)
        rw [OrderedMap.get?_union, hfirst, hothers]; rfl

/-- A name is bound to the component at its place. -/
theorem Binds.get?_eq {p : Pattern} {expected : Ty} {bindings : Env} (h : p.Binds expected bindings)
    {steps : List Step} {name : String} (hat : p.at? steps = some (.var name)) :
    ∃ t, expected.componentAt? steps = some t ∧ bindings.get? name = some t := by
  induction p using Pattern.induct generalizing expected bindings steps with
  | var x =>
    cases h
    cases steps <;> cases hat
    exact ⟨expected, rfl, by rw [OrderedMap.get?_singleton, if_pos rfl]⟩
  | ctor ty tag args ih =>
    cases h with
    | ctor hty hinst hexp hargs =>
      cases steps with
      | nil => cases hat
      | cons step steps =>
        obtain ⟨i, p, rfl, hp, hat⟩ := at?_ctor_cons_iff.1 hat
        obtain ⟨t, own, ht, hown, hkeep⟩ := hargs.part hp
        obtain ⟨u, hu, hget⟩ := ih p (List.mem_of_getElem? hp) hown hat
        refine ⟨u, ?_, hkeep name u hget⟩
        rw [Ty.componentAt?_cons, Ty.component?_of_builds hexp ht]; exact hu

/-! ## When something is bound -/

theorem Binds.fits {p : Pattern} {expected : Ty} {bindings : Env} (h : p.Binds expected bindings) :
    p.Fits expected := by
  induction p using Pattern.induct generalizing expected bindings with
  | var name => exact fits_var name expected
  | ctor ty tag args ih =>
    obtain ⟨fields, w, hty, hl, hw, hargs⟩ := binds_ctor_iff.1 h
    refine fits_ctor_iff.2 ⟨fields, w, hty, hl, hw, fun i p u hp hu => ?_⟩
    obtain ⟨t, own, ht, hown, -⟩ := hargs.part hp
    cases ht.symm.trans hu
    exact ih p (List.mem_of_getElem? hp) hown

theorem exists_bindAll {ps : List Pattern} {ts : List Ty} (hl : ps.length = ts.length)
    (h : ∀ (i : Nat) (p : Pattern) (t : Ty), ps[i]? = some p → ts[i]? = some t → p.names.Nodup →
      ∃ bindings, p.Binds t bindings)
    (hnames : (namesAll ps).Nodup) : ∃ bindings, BindAll ps ts bindings := by
  induction ps generalizing ts with
  | nil =>
    obtain rfl : ts = [] := List.eq_nil_of_length_eq_zero hl.symm
    exact ⟨.empty, .nil⟩
  | cons p ps ih =>
    cases ts with
    | nil => cases hl
    | cons t ts =>
      rw [namesAll, List.nodup_append] at hnames
      obtain ⟨hfirst, hrest, hdisjoint⟩ := hnames
      obtain ⟨bindings, hp⟩ := h 0 p t rfl rfl hfirst
      obtain ⟨others, hps⟩ := ih (Nat.succ.inj hl) (fun i => h (i + 1)) hrest
      refine ⟨bindings.union others, .cons hp hps ((hp.disjoint_iff hps).2 fun name hname hname' => ?_)⟩
      exact hdisjoint name hname name hname' rfl

theorem exists_binds {p : Pattern} {expected : Ty} (hfits : p.Fits expected) (hnames : p.names.Nodup) :
    ∃ bindings, p.Binds expected bindings := by
  induction p using Pattern.induct generalizing expected with
  | var name => exact ⟨_, .var name expected⟩
  | ctor ty tag args ih =>
    obtain ⟨fields, w, hty, hl, hw, hparts⟩ := fits_ctor_iff.1 hfits
    have hlength : args.length = (w.applyAll fields).length := by rw [Subst.applyAll_eq_map, List.length_map, hl]
    obtain ⟨bindings, hargs⟩ := exists_bindAll hlength
      (fun i p u hp hu => ih p (List.mem_of_getElem? hp) (hparts i p u hp hu)) (by rw [names] at hnames; exact hnames)
    exact ⟨bindings, binds_ctor_iff.2 ⟨fields, w, hty, hl, hw, hargs⟩⟩

/-! ## Names bound twice -/

mutual

theorem two_le_count_of_check {name : String} : ∀ (p : Pattern) (expected : Ty) {f : Failure},
    p.check expected = .error f → f.cause = .rejected (.duplicateBinding name) → 2 ≤ p.names.count name
  | .var x, expected, f, h, _ => by rw [check] at h; cases h
  | .ctor ty tag args, expected, f, h, hcause => by
    rw [check] at h
    rcases Checked.bind_eq_error_iff.1 h with h | ⟨fields, -, h⟩
    · cases hfields : constructorFields ty tag args.length with
      | ok fields => rw [hfields] at h; cases h
      | error reason =>
        rw [hfields] at h
        cases h
        rcases constructorFields_eq_error hfields with rfl | ⟨expected, rfl⟩ | ⟨name, rfl⟩ <;> cases hcause
    · split at h
      · cases h
        cases hcause
      · rw [names]
        exact two_le_count_of_checkAll args 0 .empty _ [] (fun x hx => by cases hx) h hcause

/-- The names bound by the parts before these are among `before`. -/
theorem two_le_count_of_checkAll {name : String} : ∀ (ps : List Pattern) (i : Nat) (env : Env) (ts : List Ty)
    (before : List String), (∀ x, env.contains x = true → x ∈ before) → ∀ {f : Failure},
    checkAll i env ps ts = .error f → f.cause = .rejected (.duplicateBinding name) →
    2 ≤ (before ++ namesAll ps).count name
  | [], i, env, ts, before, _, f, h, _ => by
    rw [checkAll] at h
    · cases h
    · simp
  | p :: ps, i, env, [], before, _, f, h, _ => by
    rw [checkAll] at h
    · cases h
    · simp
  | p :: ps, i, env, t :: ts, before, hbefore, f, h, hcause => by
    rw [checkAll] at h
    rw [namesAll, List.count_append, List.count_append]
    rcases Checked.bind_eq_error_iff.1 h with h | ⟨bindings, hok, h⟩
    · -- inside the part
      obtain ⟨g, hg, rfl⟩ := Checked.within_eq_error_iff.1 h
      have := two_le_count_of_check p t hg hcause
      omega
    · have hnames := contains_of_check (Checked.within_eq_ok_iff.1 hok)
      rcases Checked.bind_eq_error_iff.1 h with h | ⟨env', hmerge, h⟩
      · -- between the part and those before it
        cases hmerge : env.merge bindings with
        | ok env' => rw [hmerge] at h; cases h
        | error reason =>
          rw [hmerge] at h
          cases h
          obtain ⟨x, rfl, henv, hown⟩ := Env.merge_eq_error hmerge
          cases hcause
          have hfirst := List.count_pos_iff.2 (hbefore _ henv)
          have hsecond := List.count_pos_iff.2 ((hnames _).1 hown)
          omega
      · -- further on
        obtain ⟨-, rfl⟩ := Env.merge_ok_iff.1 (Checked.ofRule_eq_ok_iff.1 hmerge)
        have := two_le_count_of_checkAll ps (i + 1) _ ts (before ++ p.names) (fun x hx => by
          rw [OrderedMap.contains_union, hnames] at hx
          rw [List.mem_append]
          exact hx.imp_left (hbefore x)) h hcause
        rw [List.count_append, List.count_append] at this
        omega

end

/-- A pattern is accepted if and only if its names are different from each other and every constructor in it fits the
component at its place. It binds its names and no others, each to the component at the place of the name. A name it is
rejected for binding twice is among its names twice. -/
theorem check_exact (p : Pattern) (expected : Ty) :
    ((∃ bindings, p.check expected = .ok bindings) ↔ p.names.Nodup ∧ p.Fits expected) ∧
    (∀ bindings, p.check expected = .ok bindings →
      (∀ name, (bindings.contains name = true ↔ name ∈ p.names) ∧
        (name ∈ p.names ↔ ∃ steps, p.at? steps = some (.var name))) ∧
      ∀ steps name, p.at? steps = some (.var name) →
        ∃ t, expected.componentAt? steps = some t ∧ bindings.get? name = some t) ∧
    ∀ f name, p.check expected = .error f → f.cause = .rejected (.duplicateBinding name) →
      2 ≤ p.names.count name := by
  simp only [check_ok_iff]
  refine ⟨⟨?_, ?_⟩, fun bindings h => ⟨fun name => ⟨h.contains_iff, mem_names_iff⟩, fun steps name => h.get?_eq⟩,
    fun f name => two_le_count_of_check p expected⟩
  · rintro ⟨bindings, h⟩; exact ⟨h.nodup_names, h.fits⟩
  · rintro ⟨hnames, hfits⟩; exact exists_binds hfits hnames

/-- A pair with an option in front, which is taken apart too. The pattern declares variables only. -/
def optionPair (x y : String) : Pattern :=
  .tuple (.tuple [.var ⟨0⟩, .var ⟨1⟩]) [.someOf (.option (.var ⟨2⟩)) (.var x), .var y]

/-- Different names are bound to components of the type of the value; the same name twice is refused. -/
theorem optionPair_check_exact :
    (optionPair "x" "y").names.Nodup ∧ (optionPair "x" "y").Fits (.tuple [.option (.base .int), .base .bool]) ∧
    (∃ bindings, (optionPair "x" "y").check (.tuple [.option (.base .int), .base .bool]) = .ok bindings ∧
      bindings.get? "x" = some (.base .int) ∧ bindings.get? "y" = some (.base .bool)) ∧
    (optionPair "x" "x").check (.tuple [.option (.base .int), .base .bool]) =
      .error ⟨.root, .rejected (.duplicateBinding "x")⟩ ∧
    2 ≤ (optionPair "x" "x").names.count "x" := by
  have hok : (optionPair "x" "y").check (.tuple [.option (.base .int), .base .bool]) =
      .ok (.ofList [("x", .base .int), ("y", .base .bool)]) := by rfl
  have hfail : (optionPair "x" "x").check (.tuple [.option (.base .int), .base .bool]) =
      .error ⟨.root, .rejected (.duplicateBinding "x")⟩ := by rfl
  obtain ⟨hiff, hbinds, -⟩ := check_exact (optionPair "x" "y") (.tuple [.option (.base .int), .base .bool])
  obtain ⟨hnames, hfits⟩ := hiff.1 ⟨_, hok⟩
  obtain ⟨t, ht, hx⟩ := (hbinds _ hok).2 [.subpattern 0, .subpattern 0] "x" rfl
  obtain ⟨u, hu, hy⟩ := (hbinds _ hok).2 [.subpattern 1] "y" rfl
  cases ht
  cases hu
  exact ⟨hnames, hfits, ⟨_, hok, hx, hy⟩, hfail, (check_exact _ _).2.2 _ "x" hfail rfl⟩

end Pattern

end EffectTyping
