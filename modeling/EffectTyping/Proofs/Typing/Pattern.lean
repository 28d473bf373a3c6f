/-
Checking a pattern implements the rules for patterns: it succeeds exactly when some bindings are derivable, and
with these. The checker takes the components from the pattern's own type and instantiates them, the rules take
them from the expected type; both give the same. So a pattern that takes values of a type apart takes values of each
instance of it apart, and binds its names to instances of what it binds them to there.
-/
import EffectTyping.Proofs.Typing.Judgement
import EffectTyping.Proofs.Typing.Outcome

namespace EffectTyping

/-! ## Constructors -/

namespace Tag.Builds

theorem variant_iff {name : String} {ty : Ty} {fields : List Ty} :
    (Tag.variant name).Builds ty fields ↔ ∃ t, ty = .option t ∧
      (name = "None" ∧ fields = [] ∨ name = "Some" ∧ fields = [t]) := by
  constructor
  · intro h
    cases h with
    | none t => exact ⟨t, rfl, .inl ⟨rfl, rfl⟩⟩
    | some t => exact ⟨t, rfl, .inr ⟨rfl, rfl⟩⟩
  · rintro ⟨t, rfl, ⟨rfl, rfl⟩ | ⟨rfl, rfl⟩⟩
    · exact .none t
    · exact .some t

theorem unique {tag : Tag} {ty : Ty} {fields fields' : List Ty} (h : tag.Builds ty fields)
    (h' : tag.Builds ty fields') : fields = fields' := by
  cases tag with
  | tuple n => cases h; cases h'; rfl
  | variant name =>
    obtain ⟨t, rfl, hf⟩ := variant_iff.1 h
    obtain ⟨t', ht, hf'⟩ := variant_iff.1 h'
    cases ht
    rcases hf with ⟨rfl, rfl⟩ | ⟨rfl, rfl⟩ <;> simpa [eq_comm] using hf'

/-- An instance of a type is built from instances of its parts. -/
theorem apply {tag : Tag} {ty : Ty} {fields : List Ty} (h : tag.Builds ty fields) (s : Subst) :
    tag.Builds (s.apply ty) (s.applyAll fields) := by
  cases h with
  | tuple hl => exact .tuple (by rw [Subst.applyAll_eq_map, List.length_map]; exact hl)
  | none t => exact .none _
  | some t => exact .some _

end Tag.Builds

theorem constructorFields_ok_iff {ty : Ty} {tag : Tag} {found : Nat} {fields : List Ty} :
    constructorFields ty tag found = .ok fields ↔ tag.Builds ty fields ∧ fields.length = found := by
  constructor
  · intro h
    unfold constructorFields at h
    dsimp only at h
    split at h
    · rename_i arity ts
      split at h
      · rename_i hl
        split at h
        · rename_i hf; cases h; exact ⟨.tuple hl, hl.trans hf⟩
        · cases h
      · cases h
    · cases h
    · rename_i name
      split at h
      · rename_i hn; subst hn
        split at h
        · split at h
          · rename_i hf; cases h; exact ⟨.none _, hf⟩
          · cases h
        · cases h
      · split at h
        · rename_i hn; subst hn
          split at h
          · split at h
            · rename_i hf; cases h; exact ⟨.some _, hf⟩
            · cases h
          · cases h
        · cases h
  · rintro ⟨h, rfl⟩
    cases h with
    | tuple hl => simp [constructorFields, hl]
    | none t => simp [constructorFields]
    | some t => simp [constructorFields]

/-! ## Bindings -/

theorem Env.merge_ok_iff {env other out : Env} :
    env.merge other = .ok out ↔ env.Disjoint other ∧ out = env.union other := by
  unfold Env.merge
  have hdisj : (other.toList.find? fun binding => env.contains binding.1) = none ↔ env.Disjoint other := by
    simp only [List.find?_eq_none, Prod.forall, OrderedMap.mem_toList, OrderedMap.contains,
      Option.not_isSome_iff_eq_none]
    constructor
    · intro h k
      cases hk : other.get? k with
      | none => exact .inr rfl
      | some t => exact .inl (h k t hk)
    · intro h k t hk
      exact (h k).resolve_right (by rw [hk]; simp)
  split
  · rename_i name t hfind
    simp only [reduceCtorEq, false_iff, not_and]
    intro h
    rw [hdisj.2 h] at hfind; cases hfind
  · rename_i hfind
    have h := hdisj.1 hfind
    simp only [Env.extend, Except.ok.injEq, h, true_and, h.union_comm]
    exact eq_comm

/-! ## Patterns -/

namespace Pattern

theorem BindAll.length_eq {ps : List Pattern} {ts : List Ty} {bindings : Env} (h : BindAll ps ts bindings) :
    ps.length = ts.length := by
  induction ps generalizing ts bindings with
  | nil => cases h; rfl
  | cons p ps ih => cases h with
    | cons hp hps hd => rw [List.length_cons, List.length_cons, ih hps]

theorem binds_ctor_iff {ty expected : Ty} {tag : Tag} {args : List Pattern} {bindings : Env} :
    Binds (.ctor ty tag args) expected bindings ↔ ∃ fields w, tag.Builds ty fields ∧
      fields.length = args.length ∧ ty.instantiation? expected = some w ∧
      BindAll args (w.applyAll fields) bindings := by
  constructor
  · intro h
    cases h with
    | ctor hty hinst hexp hargs =>
      rename_i fields parts
      obtain ⟨w, hw⟩ := Ty.exists_instantiation_iff.2 hinst
      have hparts : parts = w.applyAll fields := by
        refine hexp.unique ?_
        rw [← Ty.apply_of_instantiation hw]; exact hty.apply w
      subst hparts
      refine ⟨fields, w, hty, ?_, hw, hargs⟩
      rw [hargs.length_eq, Subst.applyAll_eq_map, List.length_map]
  · rintro ⟨fields, w, hty, -, hw, hargs⟩
    have hexp := hty.apply w
    rw [Ty.apply_of_instantiation hw] at hexp
    exact .ctor hty (Ty.exists_instantiation_iff.1 ⟨w, hw⟩) hexp hargs

mutual

theorem check_ok_iff : ∀ (p : Pattern) (expected : Ty) (bindings : Env),
    p.check expected = .ok bindings ↔ p.Binds expected bindings
  | .var name, expected, bindings => by
    rw [check, Except.ok.injEq]
    constructor
    · rintro rfl; exact .var name expected
    · intro h; cases h; rfl
  | .ctor ty tag args, expected, bindings => by
    rw [check, binds_ctor_iff]
    simp only [Checked.bind_eq_ok_iff, Checked.ofRule_eq_ok_iff, constructorFields_ok_iff]
    constructor
    · rintro ⟨fields, ⟨hty, hl⟩, h⟩
      split at h
      · cases h
      · rename_i w hw
        obtain ⟨b, hb, -, hout⟩ := (checkAll_ok_iff args 0 .empty (w.applyAll fields)
          (by rw [Subst.applyAll_eq_map, List.length_map, hl]) bindings).1 h
        rw [OrderedMap.empty_union] at hout
        subst hout
        exact ⟨fields, w, hty, hl, hw, hb⟩
    · rintro ⟨fields, w, hty, hl, hw, hb⟩
      refine ⟨fields, ⟨hty, hl⟩, ?_⟩
      simp only [hw]
      refine (checkAll_ok_iff args 0 .empty (w.applyAll fields) hb.length_eq bindings).2 ?_
      exact ⟨bindings, hb, OrderedMap.empty_disjoint _, (OrderedMap.empty_union _).symm⟩

/-- The parts add to the bindings made before them, with which they have no name in common. -/
theorem checkAll_ok_iff : ∀ (ps : List Pattern) (i : Nat) (env : Env) (ts : List Ty), ps.length = ts.length →
    ∀ out : Env, checkAll i env ps ts = .ok out ↔
      ∃ bindings, BindAll ps ts bindings ∧ env.Disjoint bindings ∧ out = env.union bindings
  | [], i, env, [], _, out => by
    rw [checkAll, Except.ok.injEq]
    · constructor
      · rintro rfl
        exact ⟨.empty, .nil, OrderedMap.disjoint_comm.1 (OrderedMap.empty_disjoint env), by simp⟩
      · rintro ⟨_, h, -, rfl⟩; cases h; simp
    · simp
  | p :: ps, i, env, t :: ts, hl, out => by
    rw [checkAll]
    simp only [Checked.bind_eq_ok_iff, Checked.within_eq_ok_iff, Checked.ofRule_eq_ok_iff, check_ok_iff p t,
      Env.merge_ok_iff]
    constructor
    · rintro ⟨b, hb, _, ⟨hd, rfl⟩, h⟩
      obtain ⟨others, ho, hd', rfl⟩ := (checkAll_ok_iff ps (i + 1) _ ts (Nat.succ.inj hl) out).1 h
      obtain ⟨henv, hbo⟩ := OrderedMap.disjoint_union_left_iff.1 hd'
      exact ⟨b.union others, .cons hb ho hbo, OrderedMap.disjoint_union_right_iff.2 ⟨hd, henv⟩,
        OrderedMap.union_assoc env b others⟩
    · rintro ⟨_, h, hd, rfl⟩
      cases h with
      | cons hb ho hbo =>
        rename_i b others
        obtain ⟨henv, henv'⟩ := OrderedMap.disjoint_union_right_iff.1 hd
        refine ⟨b, hb, _, ⟨henv, rfl⟩, (checkAll_ok_iff ps (i + 1) _ ts (Nat.succ.inj hl) _).2 ?_⟩
        exact ⟨others, ho, OrderedMap.disjoint_union_left_iff.2 ⟨henv', hbo⟩,
          (OrderedMap.union_assoc env b others).symm⟩

end

/-! ## Instances of the type of the value -/

mutual

/-- The declared type of a constructor has the instance as an instance too, and its parts are instances of the parts. -/
theorem Binds.apply (s : Subst) : ∀ {p : Pattern} {expected : Ty} {bindings : Env},
    p.Binds expected bindings → p.Binds (s.apply expected) (bindings.mapValues s.apply)
  | .var name, expected, _, h => by
    cases h
    rw [OrderedMap.mapValues_singleton]; exact .var name _
  | .ctor ty tag args, expected, _, h => by
    cases h with
    | ctor hty hinst hexp hargs => exact .ctor hty (hinst.trans ⟨s, rfl⟩) (hexp.apply s) (hargs.apply s)

theorem BindAll.apply (s : Subst) : ∀ {ps : List Pattern} {expected : List Ty} {bindings : Env},
    BindAll ps expected bindings → BindAll ps (s.applyAll expected) (bindings.mapValues s.apply)
  | [], _, _, h => by cases h; exact .nil
  | p :: ps, _, _, h => by
    cases h with
    | cons hp hps hd =>
      rw [Subst.applyAll, OrderedMap.mapValues_union]
      exact .cons (hp.apply s) (hps.apply s) (hd.mapValues s.apply)

end

/-- A pattern that is accepted for a type is accepted for every instance of the type, whatever variables the instance
replaces. It binds the same names, each to the instance of what it was bound to. -/
theorem check_apply {p : Pattern} {expected : Ty} {bindings : Env} (h : p.check expected = .ok bindings) (s : Subst) :
    p.check (s.apply expected) = .ok (bindings.mapValues s.apply) := by
  rw [check_ok_iff] at h ⊢
  exact h.apply s

/-- The pattern declares `(t0 * t1)` and, inside, `t2 option`. Of the type `(t0 option * t1)` of the value the instance
replaces both variables, which the pattern uses for something else. -/
theorem check_apply_shared_variables :
    let p : Pattern := .tuple (.tuple [.var ⟨0⟩, .var ⟨1⟩]) [.someOf (.option (.var ⟨2⟩)) (.var "x"), .var "y"]
    let s : Subst := .ofList [(⟨0⟩, .var ⟨1⟩), (⟨1⟩, .list (.var ⟨0⟩))]
    p.check (.tuple [.option (.var ⟨0⟩), .var ⟨1⟩]) = .ok (.ofList [("x", .var ⟨0⟩), ("y", .var ⟨1⟩)]) ∧
      s.apply (.tuple [.option (.var ⟨0⟩), .var ⟨1⟩]) = .tuple [.option (.var ⟨1⟩), .list (.var ⟨0⟩)] ∧
      p.check (.tuple [.option (.var ⟨1⟩), .list (.var ⟨0⟩)]) =
        .ok (.ofList [("x", .var ⟨1⟩), ("y", .list (.var ⟨0⟩))]) := by
  intro p s
  have h : p.check (.tuple [.option (.var ⟨0⟩), .var ⟨1⟩]) = .ok (.ofList [("x", .var ⟨0⟩), ("y", .var ⟨1⟩)]) := by rfl
  exact ⟨h, rfl, check_apply h s⟩

end Pattern

end EffectTyping
