/-
The depth limit is exact. A term that is too deep fails at the first subterm there is no room for, as many steps below
the root as the limit allows. A checker finds this by a counter of 32 bits, shared by all nodes and never reset within
a check. The counter is at the depth of each node whenever the node is reached: every part of a node gives it back as
it was, and after the one failure that does not, no other part is looked at. So it never leaves its range, it decides
as counting the room down does, and no check depends on what an earlier one left in it.
-/
import EffectTyping.Proofs.Typing.Adequacy
import EffectTyping.Proofs.Typing.Location
import EffectTyping.Typing.Checker

namespace EffectTyping

open Checked

/-! ## Failures for the depth -/

namespace Failure

/-- Is it the depth that the term fails for? -/
def tooDeep (f : Failure) : Bool :=
  match f.cause with
  | .rejected (.depthLimitExceeded _) => true
  | _ => false

theorem rules_tooDeep : CoversRules fun f => f.tooDeep = false := by
  intro reason h
  cases reason with
  | depthLimitExceeded limit => exact absurd rfl (h.2.1 limit)
  | _ => rfl

/-- A failure for the depth is about the limit, and it is as many steps down as there is room, at a subterm. -/
def AtLimit (limit room : Nat) (t : Term) (f : Failure) : Prop := ∀ found,
  f.cause = .rejected (.depthLimitExceeded found) →
    found = limit ∧ f.path.steps.length = room ∧ ∃ u, t.at? f.path.steps = some u

theorem atLimit_of_tooDeep {limit room : Nat} {t : Term} {f : Failure} (h : f.tooDeep = false) :
    AtLimit limit room t f := by
  intro found hcause
  rw [tooDeep, hcause] at h; cases h

end Failure

theorem Pattern.check_tooDeep (p : Pattern) (expected : Ty) :
    FailsOnly (fun f => f.tooDeep = false) (p.check expected) :=
  p.check_failsOnly (fun _ => Failure.rules_tooDeep) (fun _ _ => rfl) (fun _ hf => hf) expected

theorem Failure.AtLimit.coversTerms (config : Config) : CoversTerms config (AtLimit config.maxDepth) where
  room t := by
    intro found hcause
    cases hcause
    exact ⟨rfl, rfl, t, rfl⟩
  unknown _ _ _ := atLimit_of_tooDeep rfl
  rules _ _ reason hreason := atLimit_of_tooDeep (rules_tooDeep reason hreason)
  part {room t u step f} hchild hf := by
    intro found hcause
    obtain ⟨hfound, hlength, v, hv⟩ := hf found hcause
    refine ⟨hfound, ?_, v, ?_⟩
    · change (step :: f.path.steps).length = room + 1
      rw [List.length_cons, hlength]
    · change t.at? (step :: f.path.steps) = some v
      rw [Term.at?_cons, hchild]; exact hv
  pattern {_ _ valueTy _ _ _ _ p _ f} _ hf := atLimit_of_tooDeep (p.check_tooDeep valueTy f hf)

/-- Has the check failed for the depth? -/
def Checked.tooDeep {α : Type} : Checked α → Bool
  | .ok _ => false
  | .error f => f.tooDeep

/-! ## The counter -/

namespace Counted

variable {α β : Type} {d : UInt32}

/-- From the counter `d`, the counted check has the outcome `y`. The counter is back at `d`, and one above it after a
failure for the depth. -/
def Follows (d : UInt32) (x : Counted α) (y : Checked α) : Prop :=
  x.run.run d = some (y, if y.tooDeep then d + 1 else d)

theorem follows_pure (a : α) : Follows d (pure a) (.ok a) := rfl

theorem follows_ofChecked {y : Checked α} (hy : FailsOnly (fun f => f.tooDeep = false) y) :
    Follows d (ofChecked y) y := by
  unfold Follows
  cases y with
  | ok a => rfl
  | error f => rw [tooDeep, hy f rfl]; rfl

theorem Follows.within {x : Counted α} {y : Checked α} (h : Follows d x y) (step : Step) :
    Follows d (Counted.within step x) (Checked.within step y) := by
  unfold Follows at h ⊢
  have hrun : (Counted.within step x).run.run d = (x.run.run d).map fun r => (Checked.within step r.1, r.2) := by
    change (x.run.run d >>= fun r => _) = _
    cases x.run.run d <;> rfl
  rw [hrun, h]
  cases y <;> rfl

/-- After a success the counter is where it was, and after a failure there is nothing more to do. -/
theorem Follows.bind {x : Counted α} {y : Checked α} {f : α → Counted β} {g : α → Checked β} (hx : Follows d x y)
    (hf : ∀ a, Follows d (f a) (g a)) : Follows d (x >>= f) (y >>= g) := by
  unfold Follows at hx
  cases y with
  | ok a =>
    have hrun : (x >>= f).run.run d = (f a).run.run d := by
      change (x.run.run d >>= fun r => _) = _
      rw [hx]; rfl
    exact hrun.trans (hf a)
  | error e =>
    change (x.run.run d >>= fun r => _) = _
    rw [hx]; rfl

/-- A rule applied between the parts of a node. -/
theorem Follows.after {y : Checked α} (hy : FailsOnly (fun f => f.tooDeep = false) y) {f : α → Counted β}
    {g : α → Checked β} (hf : ∀ a, Follows d (f a) (g a)) : Follows d (ofChecked y >>= f) (y >>= g) :=
  (follows_ofChecked hy).bind hf

section Node

variable {config : Config} (hlimit : config.maxDepth < UInt32.size - 1)
include hlimit

theorem toNat_add_one (hd : d.toNat ≤ config.maxDepth) : (d + 1).toNat = d.toNat + 1 := by
  rw [UInt32.toNat_add, UInt32.toNat_one]
  exact Nat.mod_eq_of_lt (by unfold UInt32.size at hlimit; omega)

theorem run_enter (hd : d.toNat ≤ config.maxDepth) : (enter config).run.run d =
    some (if d.toNat < config.maxDepth then .ok () else reject (.depthLimitExceeded config.maxDepth), d + 1) := by
  have hrange : d.toNat + 1 < UInt32.size := by omega
  unfold enter
  change (if d.toNat + 1 < UInt32.size then _ else none) = _
  rw [if_pos hrange, toNat_add_one hlimit hd]; rfl

theorem run_leave (hd : d.toNat ≤ config.maxDepth) : leave.run (d + 1) = some ((), d) := by
  have hne : d + 1 ≠ 0 := by
    intro h
    have hzero := congrArg UInt32.toNat h
    rw [toNat_add_one hlimit hd, UInt32.toNat_zero] at hzero
    omega
  change (if d + 1 = 0 then none else some ((), d + 1 - 1)) = _
  rw [if_neg hne, UInt32.add_sub_cancel]

/-- At the limit a node fails before anything in it is looked at. -/
theorem follows_node_limit (hd : d.toNat = config.maxDepth) (inner : Counted α) :
    Follows d (node config inner) (reject (.depthLimitExceeded config.maxDepth)) := by
  change ((enter config).run.run d >>= fun r => _) = _
  rw [run_enter hlimit (by omega), if_neg (by omega)]; rfl

/-- Below the limit the node is as deep as what is in it, less one. -/
theorem follows_node {inner : Counted α} {y : Checked α} (hd : d.toNat < config.maxDepth)
    (h : Follows (d + 1) inner y) : Follows d (node config inner) y := by
  change ((enter config).run.run d >>= fun r => _) = _
  rw [run_enter hlimit (by omega), if_pos hd]
  change (inner.run.run (d + 1) >>= fun r => leave.run r.2 >>= fun r' => some (r.1, r'.2)) = _
  rw [h]
  change (leave.run (if y.tooDeep then d + 1 + 1 else d + 1) >>= fun r => some (y, r.2)) = _
  cases y.tooDeep with
  | false =>
    rw [if_neg Bool.false_ne_true, run_leave hlimit (by omega)]; rfl
  | true =>
    have hnext : (d + 1).toNat ≤ config.maxDepth := by rw [toNat_add_one hlimit (by omega)]; exact hd
    rw [if_pos rfl, run_leave hlimit hnext]; rfl

end Node

/-- The counter has no value after its last one, and none before zero. -/
example (config : Config) : (enter config).run.run 0xFFFFFFFF = none ∧ leave.run 0 = none := ⟨rfl, rfl⟩

/-! ## Counting up and counting down -/

/-- Wherever the counter and the room left make up the limit, the two checks agree on the term. -/
def Counts (config : Config) (t : Term) : Prop := ∀ (d : UInt32) (room : Nat) (env : Env),
  d.toNat + room = config.maxDepth → Follows d (term config env t) (Check.term config room env t)

variable {config : Config}

theorem follows_components {room : Nat} (hd : d.toNat + room = config.maxDepth) {env : Env} {ceiling : Effect}
    {step : Nat → Step} {ts : List Term} (hts : ∀ t ∈ ts, Counts config t) (i : Nat) (tys : List Ty) :
    Follows d (components config env ceiling step i ts tys)
      (Check.components config room env ceiling step i ts tys) := by
  induction ts generalizing i tys with
  | nil => simp only [Check.components]; exact follows_pure ()
  | cons t ts ih =>
    obtain ⟨ht, hts⟩ := List.forall_mem_cons.1 hts
    cases tys with
    | nil => simp only [Check.components]; exact follows_pure ()
    | cons ty tys =>
      simp only [Check.components]
      refine Follows.bind ((ht d room env hd).within _) fun part => ?_
      refine .after (FailsOnly.within (Check.expectComponent_failsOnly Failure.rules_tooDeep _ _ _)) fun _ => ?_
      exact ih hts (i + 1) tys

theorem follows_cases {room : Nat} (hd : d.toNat + room = config.maxDepth) {env : Env} {valueTy ty : Ty}
    {ceiling : Effect} {branches : List (Pattern × Term)} (hbranches : ∀ b ∈ branches, Counts config b.2) (i : Nat) :
    Follows d (cases config env valueTy ty ceiling i branches)
      (Check.cases config room env valueTy ty ceiling i branches) := by
  induction branches generalizing i with
  | nil => simp only [Check.cases]; exact follows_pure ()
  | cons branch rest ih =>
    obtain ⟨pattern, body⟩ := branch
    obtain ⟨hbody, hrest⟩ := List.forall_mem_cons.1 hbranches
    simp only [Check.cases]
    refine Follows.after (FailsOnly.within (pattern.check_tooDeep valueTy)) fun bindings => ?_
    refine ((hbody d room _ hd).within _).bind fun part => ?_
    refine .after (FailsOnly.within (Check.expectComponent_failsOnly Failure.rules_tooDeep _ _ _)) fun _ => ?_
    exact ih hrest (i + 1)

/-- A node uses up one level of room, and what is in it is checked one level further down. -/
theorem counts_of_room (hlimit : config.maxDepth < UInt32.size - 1) {t : Term} {inner : Env → Counted (Ty × Effect)}
    (hterm : ∀ env, term config env t = node config (inner env))
    (h : ∀ (d : UInt32) (room : Nat) (env : Env), d.toNat + room = config.maxDepth →
      Follows d (inner env) (Check.term config (room + 1) env t)) : Counts config t := by
  intro d room env hd
  rw [hterm]
  cases room with
  | zero => rw [Check.term_zero]; exact follows_node_limit hlimit hd _
  | succ room =>
    refine follows_node hlimit (by omega) (h (d + 1) room env ?_)
    rw [toNat_add_one hlimit (by omega)]; omega

theorem counts (hlimit : config.maxDepth < UInt32.size - 1) (t : Term) : Counts config t := by
  have hrules := Failure.rules_tooDeep
  induction t using Term.induct <;> refine counts_of_room hlimit (fun env => rfl) fun d room env hd => ?_
  case lit l => exact follows_pure _
  case var ty name =>
    cases hfound : env.get? name with
    | none =>
      rw [Check.term_var_unknown config room env hfound]
      exact follows_ofChecked (failsOnly_reject rfl)
    | some found =>
      rw [Check.term_var_found config room env hfound]
      exact .after (Check.expectInstance_failsOnly hrules _ _) fun _ => follows_pure _
  case list ty elems eff ih =>
    by_cases hty : ∃ elem, ty = .list elem
    · obtain ⟨elem, rfl⟩ := hty
      rw [Check.term_list]
      exact (follows_components hd ih 0 _).bind fun _ => follows_pure _
    · rw [Check.term_not_list config room env elems eff (not_exists.1 hty)]
      cases ty with
      | list elem => exact absurd ⟨elem, rfl⟩ hty
      | _ => exact follows_ofChecked (failsOnly_reject rfl)
  case ctor ty tag args eff ih =>
    rw [Check.term_ctor]
    refine .after (constructorFields_failsOnly hrules _ _ _) fun fields => ?_
    exact (follows_components hd ih 0 fields).bind fun _ => follows_pure _
  case cases ty scrutinee branches eff ih ihs =>
    rw [Check.term_cases]
    split
    · exact follows_ofChecked (failsOnly_reject rfl)
    · refine ((ih d room env hd).within _).bind fun value => ?_
      refine .after (FailsOnly.within (Check.expectWithin_failsOnly hrules _ _)) fun _ => ?_
      exact (follows_cases hd ihs 0).bind fun _ => follows_pure _
  case lambda ty param paramTy body ih =>
    rw [Check.term_lambda]
    refine ((ih d room _ hd).within _).bind fun result => ?_
    exact .after (Check.expectInstance_failsOnly hrules _ _) fun _ => follows_pure _
  case apply ty fn argTy arg eff ihfn iharg =>
    rw [Check.term_apply]
    refine ((ihfn d room env hd).within _).bind fun fnPart => ?_
    refine ((iharg d room env hd).within _).bind fun argPart => ?_
    exact follows_ofChecked (Check.applyParts_failsOnly hrules hrules hrules _ _ _ _ _)
  case letIn name boundTy bound body ty eff ihbound ihbody =>
    rw [Check.term_letIn]
    refine ((ihbound d room env hd).within _).bind fun boundPart => ?_
    refine .after (FailsOnly.within (Check.expectInstance_failsOnly hrules _ _)) fun _ => ?_
    refine ((ihbody d room _ hd).within _).bind fun bodyPart => ?_
    refine .after (Check.expectInstance_failsOnly hrules _ _) fun _ => ?_
    exact .after (Check.expectWithin_failsOnly hrules _ _) fun _ => follows_pure _
  case cond ty test thenBranch elseBranch eff ih ihthen ihelse =>
    rw [Check.term_cond]
    refine ((ih d room env hd).within _).bind fun testPart => ?_
    refine .after (FailsOnly.within (Check.expectBool_failsOnly hrules _)) fun _ => ?_
    refine .after (FailsOnly.within (Check.expectWithin_failsOnly hrules _ _)) fun _ => ?_
    refine ((ihthen d room env hd).within _).bind fun thenPart => ?_
    refine ((ihelse d room env hd).within _).bind fun elsePart => ?_
    exact follows_ofChecked (Check.condParts_failsOnly hrules hrules hrules _ _ _ _ _)

end Counted

/-! ## A checker used again and again -/

namespace Term

variable {config : Config} {env : Env} {t : Term} {path : Path} {limit : Nat}
  (h : t.check config env = .error ⟨path, .rejected (.depthLimitExceeded limit)⟩)
include h

theorem check_atLimit :
    limit = config.maxDepth ∧ path.steps.length = config.maxDepth ∧ ∃ u, t.at? path.steps = some u :=
  (Failure.AtLimit.coversTerms config).failsOnly t config.maxDepth env _ h limit rfl

theorem lt_depth_of_check : config.maxDepth < t.depth := by
  obtain ⟨-, hlength, u, hu⟩ := check_atLimit h
  have hdepth := Term.length_add_depth_le_of_at? hu
  have hpos := u.depth_pos
  omega

end Term

namespace Checker

variable (checker : Checker) (hlimit : checker.config.maxDepth < UInt32.size - 1)
include hlimit

/-- A check has the outcome that counting the room down has, and leaves the counter at zero, or at one after a failure
for the depth. -/
theorem check_eq (env : Env) (t : Term) : checker.check env t = some (t.check checker.config env,
    { checker with depth := if (t.check checker.config env).tooDeep then 1 else 0 }) := by
  have hcounts : Counted.Follows 0 (Counted.term checker.config env t) (t.check checker.config env) :=
    Counted.counts hlimit t 0 checker.config.maxDepth env (by rw [UInt32.toNat_zero, Nat.zero_add])
  unfold check
  rw [hcounts]; rfl

/-- A run gives every term the outcome it has by itself, and keeps the configuration. -/
theorem checkAll_eq (terms : List (Env × Term)) : ∃ depth, checker.checkAll terms =
    some (terms.map fun job => job.2.check checker.config job.1, { checker with depth }) := by
  induction terms generalizing checker with
  | nil => exact ⟨checker.depth, rfl⟩
  | cons job rest ih =>
    obtain ⟨env, t⟩ := job
    obtain ⟨depth, hrest⟩ :=
      ih { checker with depth := if (t.check checker.config env).tooDeep then 1 else 0 } hlimit
    refine ⟨depth, ?_⟩
    change (checker.check env t >>= fun first => first.2.checkAll rest >>= fun others => _) = _
    rw [checker.check_eq hlimit env t]
    change (checkAll _ rest >>= fun others => _) = _
    rw [hrest]; rfl

/-- A checker with a limit below the largest word, in whatever state, checks any terms one after the other and then
another one, and the counter stays in its range. The outcome does not depend on the terms before. If the term is
accepted, it is no deeper than the limit; if it is no deeper than the limit, it does not fail for its depth; and if it
does, the failure names the limit and is as many steps below the root, at a subterm. -/
theorem check_depth_exact (earlier : List (Env × Term)) (env : Env) (t : Term) :
    ∃ outcomes left outcome after, checker.checkAll earlier = some (outcomes, left) ∧
      left.check env t = some (outcome, after) ∧ after.config = checker.config ∧
      outcome = t.check checker.config env ∧
      (∀ result, outcome = .ok result → t.depth ≤ checker.config.maxDepth) ∧
      (t.depth ≤ checker.config.maxDepth →
        ∀ path limit, outcome ≠ .error ⟨path, .rejected (.depthLimitExceeded limit)⟩) ∧
      ∀ path limit, outcome = .error ⟨path, .rejected (.depthLimitExceeded limit)⟩ →
        limit = checker.config.maxDepth ∧ path.steps.length = checker.config.maxDepth ∧
        (∀ step ∈ path.steps, step.isPattern = false) ∧ ∃ u, t.at? path.steps = some u := by
  obtain ⟨depth, hearlier⟩ := checker.checkAll_eq hlimit earlier
  refine ⟨_, _, _, _, hearlier, check_eq { checker with depth } hlimit env t, rfl, rfl, ?_, ?_, ?_⟩
  · rintro ⟨ty, eff⟩ h
    exact ((Check.adequate checker.config t checker.config.maxDepth env ty eff).1 h).1
  · intro hdepth path limit h
    exact absurd hdepth (Nat.not_le.2 (Term.lt_depth_of_check h))
  · intro path limit h
    obtain ⟨hfound, hlength, u, hu⟩ := Term.check_atLimit h
    exact ⟨hfound, hlength, Term.isPattern_of_at? hu, u, hu⟩

end Checker

/-- A list in a list, which is three levels deep. -/
def nestedList : Term :=
  .list (.list (.list (.base .unit))) [.list (.list (.base .unit)) [.lit .unit] .pure] .pure

/-- With room for two levels and an odd value in its counter, a checker rejects the list twice at the same place, and
then accepts what is in it. -/
theorem nestedList_depth_exact :
    ∃ outcomes left after, (⟨⟨2, true⟩, 7⟩ : Checker).checkAll [(.empty, nestedList)] = some (outcomes, left) ∧
      left.check .empty nestedList =
        some (.error ⟨⟨[.listElem 0, .listElem 0]⟩, .rejected (.depthLimitExceeded 2)⟩, after) ∧
      nestedList.at? [.listElem 0, .listElem 0] = some (.lit .unit) ∧
      ∃ outcomes' left' after', (⟨⟨2, true⟩, 7⟩ : Checker).checkAll [(.empty, nestedList), (.empty, nestedList)] =
          some (outcomes', left') ∧
        left'.check .empty (.list (.list (.base .unit)) [.lit .unit] .pure) =
          some (.ok (.list (.base .unit), .pure), after') := by
  have hroom : (⟨⟨2, true⟩, 7⟩ : Checker).config.maxDepth < UInt32.size - 1 := by decide
  obtain ⟨outcomes, left, outcome, after, hearlier, hcheck, -, houtcome, -⟩ :=
    Checker.check_depth_exact ⟨⟨2, true⟩, 7⟩ hroom [(.empty, nestedList)] .empty nestedList
  obtain ⟨outcomes', left', outcome', after', hearlier', hcheck', -, houtcome', -⟩ :=
    Checker.check_depth_exact ⟨⟨2, true⟩, 7⟩ hroom [(.empty, nestedList), (.empty, nestedList)] .empty
      (.list (.list (.base .unit)) [.lit .unit] .pure)
  refine ⟨outcomes, left, after, hearlier, ?_, rfl, outcomes', left', after', hearlier', ?_⟩
  · rw [hcheck, houtcome]; rfl
  · rw [hcheck', houtcome']; rfl

end EffectTyping
