/-
How the checker fails: for want of room, for want of a variable, by a rule on the node, in a subterm or in the pattern of
a branch. A property of failures, taken with the room left and the term, that covers these five (`CoversTerms`) is one
of all failures of the checker, by induction on the term.
-/
import EffectTyping.Proofs.Term
import EffectTyping.Proofs.Typing.Rules

namespace EffectTyping

open Checked

/-- The property holds wherever a check of a term can fail. -/
structure CoversTerms (config : Config) (P : Nat → Term → Failure → Prop) : Prop where
  /-- There is no room for the term. -/
  room : ∀ t, P 0 t ⟨.root, .rejected (.depthLimitExceeded config.maxDepth)⟩
  /-- The variable is not in scope. -/
  unknown : ∀ (room : Nat) (ty : Ty) (name : String), P room (.var ty name) ⟨.root, .rejected (.unknownVariable name)⟩
  rules : ∀ (room : Nat) (t : Term), CoversRules (P room t)
  part : ∀ {room : Nat} {t u : Term} {step : Step} {f : Failure}, t.child? step = some u → P room u f →
    P (room + 1) t (f.within step)
  pattern : ∀ {room : Nat} {ty valueTy : Ty} {scrutinee : Term} {branches : List (Pattern × Term)} {eff : Effect}
    {i : Nat} {p : Pattern} {body : Term} {f : Failure}, branches[i]? = some (p, body) → p.check valueTy = .error f →
    P (room + 1) (.cases ty scrutinee branches eff) (f.within (.branchPattern i))

namespace CoversTerms

variable {config : Config} {P : Nat → Term → Failure → Prop} (h : CoversTerms config P)
include h

/-- What fails in a subterm fails in the term, one step further down. -/
theorem failsOnly_part {room : Nat} {t u : Term} {step : Step} {α : Type} {x : Checked α}
    (hchild : t.child? step = some u) (hx : FailsOnly (P room u) x) :
    FailsOnly (P (room + 1) t) (Checked.within step x) :=
  FailsOnly.within fun f hf => h.part hchild (hx f hf)

theorem rules_part {t u : Term} {step : Step} (room : Nat) (hchild : t.child? step = some u) :
    CoversRules fun f => P (room + 1) t (f.within step) :=
  fun reason hreason => h.part hchild (h.rules room u reason hreason)

/-- The remaining parts `ts` of a term `t`, of which the first is reached by `step i`. -/
theorem components {t : Term} {room : Nat} {env : Env} {ceiling : Effect} {step : Nat → Step} {ts : List Term}
    (hts : ∀ u ∈ ts, FailsOnly (P room u) (Check.term config room env u)) (i : Nat) (tys : List Ty)
    (hchild : ∀ j u, ts[j]? = some u → t.child? (step (i + j)) = some u) :
    FailsOnly (P (room + 1) t) (Check.components config room env ceiling step i ts tys) := by
  induction ts generalizing i tys with
  | nil =>
    rw [Check.components]
    · exact failsOnly_ok ()
    · simp
  | cons u ts ih =>
    obtain ⟨hu, hts⟩ := List.forall_mem_cons.1 hts
    cases tys with
    | nil =>
      rw [Check.components]
      · exact failsOnly_ok ()
      · simp
    | cons ty tys =>
      have hhere : t.child? (step i) = some u := hchild 0 u rfl
      rw [Check.components]
      refine FailsOnly.bind (h.failsOnly_part hhere hu) fun part => ?_
      refine FailsOnly.bind (FailsOnly.within (Check.expectComponent_failsOnly (h.rules_part room hhere) _ _ _)) fun _ => ?_
      refine ih hts (i + 1) tys fun j v hv => ?_
      rw [Nat.add_right_comm, Nat.add_assoc]
      exact hchild (j + 1) v hv

/-- The remaining branches `rest` of a match, of which the first has the number `i`. -/
theorem cases {room : Nat} {env : Env} {ty ty' valueTy : Ty} {scrutinee : Term} {eff ceiling : Effect}
    {branches rest : List (Pattern × Term)}
    (hrest : ∀ b ∈ rest, ∀ env, FailsOnly (P room b.2) (Check.term config room env b.2)) (i : Nat)
    (hbranch : ∀ j b, rest[j]? = some b → branches[i + j]? = some b) :
    FailsOnly (P (room + 1) (.cases ty' scrutinee branches eff))
      (Check.cases config room env valueTy ty ceiling i rest) := by
  induction rest generalizing i with
  | nil => rw [Check.cases]; exact failsOnly_ok ()
  | cons branch rest ih =>
    obtain ⟨p, body⟩ := branch
    obtain ⟨hbody, hrest⟩ := List.forall_mem_cons.1 hrest
    have hhere : branches[i]? = some (p, body) := hbranch 0 (p, body) rfl
    have hchild : (Term.cases ty' scrutinee branches eff).child? (.branchBody i) = some body := by
      rw [Term.child?, hhere]; rfl
    rw [Check.cases]
    refine FailsOnly.bind (FailsOnly.within fun f hf => h.pattern hhere hf) fun bindings => ?_
    refine FailsOnly.bind (h.failsOnly_part hchild (hbody _)) fun part => ?_
    refine FailsOnly.bind (FailsOnly.within (Check.expectComponent_failsOnly (h.rules_part room hchild) _ _ _)) fun _ => ?_
    refine ih hrest (i + 1) fun j b hb => ?_
    rw [Nat.add_right_comm, Nat.add_assoc]
    exact hbranch (j + 1) b hb

theorem failsOnly_of_room {t : Term}
    (ht : ∀ room env, FailsOnly (P (room + 1) t) (Check.term config (room + 1) env t)) (room : Nat) (env : Env) :
    FailsOnly (P room t) (Check.term config room env t) := by
  cases room with
  | zero => rw [Check.term_zero]; exact failsOnly_reject (h.room t)
  | succ room => exact ht room env

/-- All failures of the checker on a term have the property. -/
theorem failsOnly (t : Term) :
    ∀ (room : Nat) (env : Env), FailsOnly (P room t) (Check.term config room env t) := by
  induction t using Term.induct <;> refine h.failsOnly_of_room fun room env => ?_
  case lit l => rw [Check.term_lit]; exact failsOnly_ok _
  case var ty name =>
    cases hfound : env.get? name with
    | none => rw [Check.term_var_unknown config room env hfound]; exact failsOnly_reject (h.unknown _ _ _)
    | some found =>
      rw [Check.term_var_found config room env hfound]
      exact FailsOnly.bind (Check.expectInstance_failsOnly (h.rules _ _) _ _) fun _ => failsOnly_ok _
  case list ty elems eff ih =>
    by_cases hty : ∃ elem, ty = .list elem
    · obtain ⟨elem, rfl⟩ := hty
      rw [Check.term_list]
      refine FailsOnly.bind (h.components (fun u hu => ih u hu room env) 0 _ fun j u hu => ?_) fun _ => failsOnly_ok _
      rw [Term.child?, Nat.zero_add]; exact hu
    · rw [Check.term_not_list config room env elems eff (not_exists.1 hty)]
      exact failsOnly_reject (h.rules _ _ _ (by simp))
  case ctor ty tag args eff ih =>
    rw [Check.term_ctor]
    refine FailsOnly.bind (constructorFields_failsOnly (h.rules _ _) _ _ _) fun fields => ?_
    refine FailsOnly.bind (h.components (fun u hu => ih u hu room env) 0 _ fun j u hu => ?_) fun _ => failsOnly_ok _
    rw [Term.child?, Nat.zero_add]; exact hu
  case cases ty scrutinee branches eff ih ihs =>
    rw [Check.term_cases]
    split
    · exact failsOnly_reject (h.rules _ _ _ (by simp))
    · refine FailsOnly.bind (h.failsOnly_part rfl (ih room env)) fun value => ?_
      refine FailsOnly.bind (FailsOnly.within (Check.expectWithin_failsOnly (h.rules_part room rfl) _ _)) fun _ => ?_
      refine FailsOnly.bind (h.cases (fun b hb => ihs b hb room) 0 fun j b hb => ?_) fun _ => failsOnly_ok _
      rw [Nat.zero_add]; exact hb
  case lambda ty param paramTy body ih =>
    rw [Check.term_lambda]
    refine FailsOnly.bind (h.failsOnly_part rfl (ih room _)) fun result => ?_
    exact FailsOnly.bind (Check.expectInstance_failsOnly (h.rules _ _) _ _) fun _ => failsOnly_ok _
  case apply ty fn argTy arg eff ihfn iharg =>
    rw [Check.term_apply]
    refine FailsOnly.bind (h.failsOnly_part rfl (ihfn room env)) fun fnPart => ?_
    refine FailsOnly.bind (h.failsOnly_part rfl (iharg room env)) fun argPart => ?_
    exact Check.applyParts_failsOnly (h.rules _ _) (h.rules_part room rfl) (h.rules_part room rfl) _ _ _ _ _
  case letIn name boundTy bound body ty eff ihbound ihbody =>
    rw [Check.term_letIn]
    refine FailsOnly.bind (h.failsOnly_part rfl (ihbound room env)) fun boundPart => ?_
    refine FailsOnly.bind (FailsOnly.within (Check.expectInstance_failsOnly (h.rules_part room rfl) _ _)) fun _ => ?_
    refine FailsOnly.bind (h.failsOnly_part rfl (ihbody room _)) fun bodyPart => ?_
    refine FailsOnly.bind (Check.expectInstance_failsOnly (h.rules _ _) _ _) fun _ => ?_
    exact FailsOnly.bind (Check.expectWithin_failsOnly (h.rules _ _) _ _) fun _ => failsOnly_ok _
  case cond ty test thenBranch elseBranch eff ih ihthen ihelse =>
    rw [Check.term_cond]
    refine FailsOnly.bind (h.failsOnly_part rfl (ih room env)) fun testPart => ?_
    refine FailsOnly.bind (FailsOnly.within (Check.expectBool_failsOnly (h.rules_part room rfl) _)) fun _ => ?_
    refine FailsOnly.bind (FailsOnly.within (Check.expectWithin_failsOnly (h.rules_part room rfl) _ _)) fun _ => ?_
    refine FailsOnly.bind (h.failsOnly_part rfl (ihthen room env)) fun thenPart => ?_
    refine FailsOnly.bind (h.failsOnly_part rfl (ihelse room env)) fun elsePart => ?_
    exact Check.condParts_failsOnly (h.rules _ _) (h.rules_part room rfl) (h.rules_part room rfl) _ _ _ _ _

end CoversTerms

end EffectTyping
