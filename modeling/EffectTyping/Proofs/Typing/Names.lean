/-
Variable names carry no meaning. With an injective map applied to the names of a term, those of its patterns included,
and to the keys of its scope, the check ends as before: with the same type and effect, or in the same place for the same
reason, with the names in it changed. The exception is a name bound twice. Bindings are searched for one in the order of
names, which a map need not keep, so that another name may be reported; it is one that the pattern at the place of the
failure binds twice.

Both checks are run side by side (`Checked.Matches`) without regard to which of the names bound twice is reported. That
the reported name is bound twice where it is said to be is a fact about every check (`Term.binds_twice_of_check`), and is
used for the check of the renamed term.
-/
import EffectTyping.Proofs.Typing.Components
import EffectTyping.Proofs.Typing.Verdict
import Mathlib.Logic.Equiv.Basic
import Mathlib.Data.List.Count

namespace EffectTyping

open Checked

/-! ## Names bound twice -/

namespace Pattern

/-- A list of parts fails where it stands or in one of the parts. -/
theorem checkAll_eq_error {ps : List Pattern} {i : Nat} {env : Env} {ts : List Ty} {f : Failure}
    (h : checkAll i env ps ts = .error f) : f.path = .root ∨ ∃ (j : Nat) (q : Pattern) (t : Ty) (g : Failure),
      ps[j]? = some q ∧ q.check t = .error g ∧ f = g.within (.subpattern (i + j)) := by
  induction ps generalizing i env ts with
  | nil =>
    rw [checkAll] at h
    · cases h
    · simp
  | cons p ps ih =>
    cases ts with
    | nil =>
      rw [checkAll] at h
      · cases h
      · simp
    | cons t ts =>
      rw [checkAll] at h
      rcases bind_eq_error_iff.1 h with h | ⟨bindings, -, h⟩
      · obtain ⟨g, hg, rfl⟩ := within_eq_error_iff.1 h
        exact .inr ⟨0, p, t, g, rfl, hg, rfl⟩
      · rcases bind_eq_error_iff.1 h with h | ⟨env', -, h⟩
        · exact .inl (merge_failsOnly (P := fun f => f.path = .root) (fun _ => rfl) _ _ f h)
        · rcases ih h with hroot | ⟨j, q, u, g, hq, hg, rfl⟩
          · exact .inl hroot
          · refine .inr ⟨j + 1, q, u, g, hq, hg, ?_⟩
            rw [Nat.add_right_comm, Nat.add_assoc]

/-- So does a pattern. -/
theorem check_eq_error {p : Pattern} {expected : Ty} {f : Failure} (h : p.check expected = .error f) :
    f.path = .root ∨ ∃ step q t g, p.child? step = some q ∧ q.check t = .error g ∧ f = g.within step := by
  have hroot : CoversRules fun f => f.path = .root := fun _ _ => rfl
  cases p with
  | var name => rw [check] at h; cases h
  | ctor ty tag args =>
    rw [check] at h
    rcases bind_eq_error_iff.1 h with h | ⟨fields, -, h⟩
    · exact .inl (constructorFields_failsOnly hroot _ _ _ f h)
    · split at h
      · cases h; exact .inl rfl
      · rcases checkAll_eq_error h with h | ⟨j, q, t, g, hq, hg, rfl⟩
        · exact .inl h
        · refine .inr ⟨_, q, t, g, ?_, hg, rfl⟩
          rw [child?, Nat.zero_add]; exact hq

/-- A name reported as bound twice is bound twice by the part of the pattern at the place of the failure. -/
theorem binds_twice_of_check {p : Pattern} {expected : Ty} {path : Path} {name : String}
    (h : p.check expected = .error ⟨path, .rejected (.duplicateBinding name)⟩) :
    ∃ q, p.at? path.steps = some q ∧ 2 ≤ q.names.count name := by
  obtain ⟨steps⟩ := path
  induction steps generalizing p expected with
  | nil => exact ⟨p, rfl, two_le_count_of_check p expected h rfl⟩
  | cons step steps ih =>
    rcases check_eq_error h with hroot | ⟨step', q, t, ⟨⟨steps'⟩, cause⟩, hq, hg, heq⟩
    · cases hroot
    · cases heq
      obtain ⟨part, hpart, hcount⟩ := ih hg
      refine ⟨part, ?_, hcount⟩
      show p.at? (step :: _) = some part
      rw [at?_cons, hq]; exact hpart

end Pattern

namespace Term

/-- The part of the pattern of a branch that the steps lead to. -/
def patternAt? : Term → List Step → Option Pattern
  | _, [] => none
  | t, .branchPattern i :: steps => (t.branchPattern? i).bind (·.at? steps)
  | t, step :: steps => (t.child? step).bind (patternAt? · steps)

theorem patternAt?_cons {step : Step} (h : ∀ i, step ≠ .branchPattern i) (t : Term) (steps : List Step) :
    t.patternAt? (step :: steps) = (t.child? step).bind (·.patternAt? steps) := by
  rw [patternAt?]
  exact h

/-- The pattern at the place of a failure for a name bound twice binds it twice. -/
theorem binds_twice_coversTerms (config : Config) (name : String) :
    CoversTerms config fun _ t f => f.cause = .rejected (.duplicateBinding name) →
      ∃ p, t.patternAt? f.path.steps = some p ∧ 2 ≤ p.names.count name where
  room t hcause := by cases hcause
  unknown _ ty x hcause := by cases hcause
  rules _ t reason hreason hcause := absurd (Cause.rejected.inj hcause) (hreason.2.2 name)
  part {room t u step f} hchild hf hcause := by
    have hstep : ∀ i, step ≠ .branchPattern i := by
      rintro i rfl
      cases isPattern_of_child? hchild
    obtain ⟨p, hp, hcount⟩ := hf hcause
    refine ⟨p, ?_, hcount⟩
    show t.patternAt? (step :: f.path.steps) = some p
    rw [patternAt?_cons hstep, hchild]; exact hp
  pattern {room ty valueTy scrutinee branches eff i p body f} hbranch hf hcause := by
    obtain ⟨path, cause⟩ := f
    cases hcause
    obtain ⟨q, hq, hcount⟩ := Pattern.binds_twice_of_check hf
    refine ⟨q, ?_, hcount⟩
    show ((Term.cases ty scrutinee branches eff).branchPattern? i).bind (·.at? path.steps) = some q
    rw [branchPattern?, hbranch]; exact hq

theorem binds_twice_of_check {config : Config} {env : Env} {t : Term} {path : Path} {name : String}
    (h : t.check config env = .error ⟨path, .rejected (.duplicateBinding name)⟩) :
    ∃ p, t.patternAt? path.steps = some p ∧ 2 ≤ p.names.count name :=
  (binds_twice_coversTerms config name).failsOnly t config.maxDepth env _ h rfl

end Term

/-! ## Renamed patterns, terms and scopes -/

namespace Pattern

variable (f : String → String)

mutual

/-- The pattern with the names it binds changed. -/
def renameNames : Pattern → Pattern
  | .var name => .var (f name)
  | .ctor ty tag args => .ctor ty tag (renameNamesAll args)

def renameNamesAll : List Pattern → List Pattern
  | [] => []
  | p :: ps => renameNames p :: renameNamesAll ps

end

theorem renameNamesAll_eq_map (ps : List Pattern) : renameNamesAll f ps = ps.map (renameNames f) := by
  induction ps with
  | nil => rfl
  | cons p ps ih => rw [renameNamesAll, ih, List.map_cons]

mutual

theorem names_renameNames : ∀ p : Pattern, (p.renameNames f).names = p.names.map f
  | .var name => rfl
  | .ctor ty tag args => by rw [renameNames, names, names, namesAll_renameNamesAll args]

theorem namesAll_renameNamesAll : ∀ ps : List Pattern, namesAll (renameNamesAll f ps) = (namesAll ps).map f
  | [] => rfl
  | p :: ps => by
    rw [renameNamesAll, namesAll, namesAll, List.map_append, names_renameNames p, namesAll_renameNamesAll ps]

end

theorem child?_renameNames (p : Pattern) (step : Step) :
    (p.renameNames f).child? step = (p.child? step).map (renameNames f) := by
  cases p with
  | var name => rfl
  | ctor ty tag args =>
    cases step with
    | subpattern i =>
      show (renameNamesAll f args)[i]? = _
      rw [renameNamesAll_eq_map, List.getElem?_map]; rfl
    | _ => rfl

theorem at?_renameNames (p : Pattern) (steps : List Step) :
    (p.renameNames f).at? steps = (p.at? steps).map (renameNames f) := by
  induction steps generalizing p with
  | nil => rfl
  | cons step steps ih =>
    rw [at?_cons, at?_cons, child?_renameNames]
    cases p.child? step with
    | none => rfl
    | some q => exact ih q

end Pattern

namespace Term

variable (f : String → String)

mutual

/-- The term with the names of its variables changed, where they are bound and where they are used. -/
def renameNames : Term → Term
  | .lit l => .lit l
  | .var ty name => .var ty (f name)
  | .list ty elems eff => .list ty (renameNamesAll elems) eff
  | .ctor ty tag args eff => .ctor ty tag (renameNamesAll args) eff
  | .cases ty scrutinee branches eff => .cases ty (renameNames scrutinee) (renameNamesBranches branches) eff
  | .lambda ty param paramTy body => .lambda ty (f param) paramTy (renameNames body)
  | .apply ty fn argTy arg eff => .apply ty (renameNames fn) argTy (renameNames arg) eff
  | .letIn name boundTy bound body ty eff => .letIn (f name) boundTy (renameNames bound) (renameNames body) ty eff
  | .cond ty test thenBranch elseBranch eff =>
    .cond ty (renameNames test) (renameNames thenBranch) (renameNames elseBranch) eff

def renameNamesAll : List Term → List Term
  | [] => []
  | t :: ts => renameNames t :: renameNamesAll ts

def renameNamesBranches : List (Pattern × Term) → List (Pattern × Term)
  | [] => []
  | (p, body) :: rest => (p.renameNames f, renameNames body) :: renameNamesBranches rest

end

theorem renameNamesAll_eq_map (ts : List Term) : renameNamesAll f ts = ts.map (renameNames f) := by
  induction ts with
  | nil => rfl
  | cons t ts ih => rw [renameNamesAll, ih, List.map_cons]

theorem renameNamesBranches_eq_map (branches : List (Pattern × Term)) :
    renameNamesBranches f branches = branches.map fun b => (b.1.renameNames f, b.2.renameNames f) := by
  induction branches with
  | nil => rfl
  | cons branch rest ih => rw [renameNamesBranches, ih, List.map_cons]

theorem length_renameNamesAll (ts : List Term) : (renameNamesAll f ts).length = ts.length := by
  rw [renameNamesAll_eq_map, List.length_map]

theorem child?_renameNames (t : Term) (step : Step) :
    (t.renameNames f).child? step = (t.child? step).map (renameNames f) := by
  cases t <;> cases step <;> try rfl
  case list.listElem ty elems eff i =>
    show (renameNamesAll f elems)[i]? = _
    rw [renameNamesAll_eq_map, List.getElem?_map]; rfl
  case ctor.ctorArg ty tag args eff i =>
    show (renameNamesAll f args)[i]? = _
    rw [renameNamesAll_eq_map, List.getElem?_map]; rfl
  case cases.branchBody ty scrutinee branches eff i =>
    show (renameNamesBranches f branches)[i]?.map (·.2) = (branches[i]?.map (·.2)).map (renameNames f)
    rw [renameNamesBranches_eq_map, List.getElem?_map, Option.map_map, Option.map_map]; rfl

theorem branchPattern?_renameNames (t : Term) (i : Nat) :
    (t.renameNames f).branchPattern? i = (t.branchPattern? i).map (Pattern.renameNames f) := by
  cases t with
  | cases ty scrutinee branches eff =>
    show (renameNamesBranches f branches)[i]?.map (·.1) = (branches[i]?.map (·.1)).map (Pattern.renameNames f)
    rw [renameNamesBranches_eq_map, List.getElem?_map, Option.map_map, Option.map_map]; rfl
  | _ => rfl

/-- A place leads to the same part of the same pattern, renamed. -/
theorem patternAt?_renameNames (t : Term) (steps : List Step) :
    (t.renameNames f).patternAt? steps = (t.patternAt? steps).map (Pattern.renameNames f) := by
  induction steps generalizing t with
  | nil => rw [patternAt?, patternAt?]; rfl
  | cons step steps ih =>
    by_cases hstep : ∃ i, step = .branchPattern i
    · obtain ⟨i, rfl⟩ := hstep
      rw [patternAt?, patternAt?, branchPattern?_renameNames]
      cases t.branchPattern? i with
      | none => rfl
      | some p => exact p.at?_renameNames f steps
    · rw [patternAt?_cons (not_exists.1 hstep), patternAt?_cons (not_exists.1 hstep), child?_renameNames]
      cases t.child? step with
      | none => rfl
      | some u => exact ih u

end Term

/-- The scope with its names changed. -/
def Env.renameNames (f : String → String) (env : Env) : Env := env.mapKeys f

/-! ## Outcomes that match -/

/-- The same reason with the name of an unknown variable changed, and perhaps another name for one bound twice. -/
inductive Rejection.Renamed (f : String → String) : Rejection → Rejection → Prop
  | unknown (name : String) : Renamed f (.unknownVariable name) (.unknownVariable (f name))
  | duplicate (name other : String) : Renamed f (.duplicateBinding name) (.duplicateBinding other)
  | same {reason : Rejection} (hunknown : ∀ name, reason ≠ .unknownVariable name)
      (hduplicate : ∀ name, reason ≠ .duplicateBinding name) : Renamed f reason reason

theorem Rejection.OfRule.renamed {reason : Rejection} (h : reason.OfRule) (f : String → String) :
    reason.Renamed f reason := .same h.1 h.2.2

namespace Checked

variable {α α' β β' : Type}

/-- Two checks both succeed, and what the second finds is what the first does as `g` changes it, or both fail in the
same place for the same reason up to names. -/
inductive Matches (f : String → String) (g : α → α') : Checked α → Checked α' → Prop
  | ok (a : α) : Matches f g (.ok a) (.ok (g a))
  | error (path : Path) {reason reason' : Rejection} (h : reason.Renamed f reason') :
      Matches f g (.error ⟨path, .rejected reason⟩) (.error ⟨path, .rejected reason'⟩)

variable {f : String → String} {g : α → α'} {g' : β → β'}

theorem Matches.within {x : Checked α} {x' : Checked α'} (h : Matches f g x x') (step : Step) :
    Matches f g (Checked.within step x) (Checked.within step x') := by
  cases h with
  | ok a => exact .ok a
  | error path h => exact .error (path.within step) h

/-- Checks made one after the other match if each of them does. -/
theorem Matches.bind {x : Checked α} {x' : Checked α'} {k : α → Checked β} {k' : α' → Checked β'}
    (hx : Matches f g x x') (hk : ∀ a, Matches f g' (k a) (k' (g a))) : Matches f g' (x >>= k) (x' >>= k') := by
  cases hx with
  | ok a => exact hk a
  | error path h => exact .error path h

theorem matches_reject {reason : Rejection} (h : reason.OfRule) :
    Matches f g (reject reason) (reject reason) := .error .root (h.renamed f)

/-- The failures whose reasons have no names of variables in them. -/
def Nameless (failure : Failure) : Prop := ∃ path reason, failure = ⟨path, .rejected reason⟩ ∧ reason.OfRule

theorem nameless_rules : CoversRules Nameless := fun reason h => ⟨.root, reason, rfl, h⟩

theorem nameless_rules_within (step : Step) : CoversRules fun f => Nameless (f.within step) :=
  fun reason h => ⟨Path.root.within step, reason, rfl, h⟩

/-- A rule on types and effects matches itself. -/
theorem FailsOnly.matches {x : Checked α} (h : FailsOnly Nameless x) : Matches f id x x := by
  cases x with
  | ok a => exact .ok a
  | error failure =>
    obtain ⟨path, reason, rfl, hreason⟩ := h failure rfl
    exact .error path (hreason.renamed f)

end Checked

/-! ## Patterns -/

section Patterns

variable {f : String → String} (hf : Function.Injective f)
include hf

/-- Renamed bindings have a name in common exactly when the bindings have one. Which name is found first depends on the
order of names. -/
theorem Env.merge_matches (env other : Env) :
    Matches f (Env.renameNames f) (ofRule (env.merge other))
      (ofRule ((env.renameNames f).merge (other.renameNames f))) := by
  have hdisjoint : (env.renameNames f).Disjoint (other.renameNames f) ↔ env.Disjoint other :=
    OrderedMap.disjoint_mapKeys_iff hf
  cases h : env.merge other with
  | ok out =>
    obtain ⟨hd, rfl⟩ := Env.merge_ok_iff.1 h
    have hmerge := Env.merge_ok_iff.2 ⟨hdisjoint.2 hd, rfl⟩
    rw [hmerge, Env.renameNames, Env.renameNames, OrderedMap.mapKeys_union hf]
    exact .ok _
  | error reason =>
    obtain ⟨name, rfl, -⟩ := Env.merge_eq_error h
    cases h' : (env.renameNames f).merge (other.renameNames f) with
    | ok out =>
      have hd := hdisjoint.1 (Env.merge_ok_iff.1 h').1
      rw [Env.merge_ok_iff.2 ⟨hd, rfl⟩] at h
      cases h
    | error reason' =>
      obtain ⟨name', rfl, -⟩ := Env.merge_eq_error h'
      exact .error .root (.duplicate name name')

namespace Pattern

mutual

theorem check_matches : ∀ (p : Pattern) (expected : Ty),
    Matches f (Env.renameNames f) (p.check expected) ((p.renameNames f).check expected)
  | .var name, expected => by
    rw [renameNames, check, check, OrderedMap.mapKeys_singleton hf]
    exact .ok _
  | .ctor ty tag args, expected => by
    rw [renameNames, check, check, renameNamesAll_eq_map, List.length_map, ← renameNamesAll_eq_map]
    refine (constructorFields_failsOnly nameless_rules ty tag _).matches.bind fun fields => ?_
    cases ty.instantiation? expected with
    | none => exact matches_reject (by simp)
    | some witness => exact checkAll_matches args 0 .empty (witness.applyAll fields)

theorem checkAll_matches : ∀ (ps : List Pattern) (i : Nat) (env : Env) (ts : List Ty),
    Matches f (Env.renameNames f) (checkAll i env ps ts) (checkAll i (env.renameNames f) (renameNamesAll f ps) ts)
  | [], i, env, ts => by
    rw [renameNamesAll, checkAll, checkAll]
    · exact .ok env
    · simp
    · simp
  | p :: ps, i, env, [] => by
    rw [checkAll, checkAll]
    · exact .ok env
    · simp
    · simp
  | p :: ps, i, env, t :: ts => by
    rw [renameNamesAll, checkAll, checkAll]
    refine ((check_matches p t).within _).bind fun bindings => ?_
    exact (Env.merge_matches hf env bindings).bind fun env' => checkAll_matches ps (i + 1) env' ts

end

end Pattern

end Patterns

/-! ## Terms -/

namespace Check

/-- Wherever the term is checked, the check of the renamed term matches. -/
def Matched (f : String → String) (config : Config) (t : Term) : Prop := ∀ (room : Nat) (env : Env),
  Matches f id (term config room env t) (term config room (env.renameNames f) (t.renameNames f))

variable {f : String → String} {config : Config}

theorem matched_of_room {t : Term} (h : ∀ room env, Matches f id (term config (room + 1) env t)
    (term config (room + 1) (env.renameNames f) (t.renameNames f))) : Matched f config t := by
  intro room env
  cases room with
  | zero =>
    rw [term_zero, term_zero]
    exact .error .root (.same (by simp) (by simp))
  | succ room => exact h room env

theorem components_matches {room : Nat} {env : Env} {ceiling : Effect} {step : Nat → Step} {ts : List Term}
    (h : ∀ t ∈ ts, Matched f config t) (i : Nat) (tys : List Ty) :
    Matches f id (components config room env ceiling step i ts tys)
      (components config room (env.renameNames f) ceiling step i (Term.renameNamesAll f ts) tys) := by
  induction ts generalizing i tys with
  | nil =>
    rw [Term.renameNamesAll, components, components]
    · exact .ok ()
    · simp
    · simp
  | cons t ts ih =>
    obtain ⟨ht, hts⟩ := List.forall_mem_cons.1 h
    cases tys with
    | nil =>
      rw [components, components]
      · exact .ok ()
      · simp
      · simp
    | cons ty tys =>
      rw [Term.renameNamesAll, components, components]
      refine ((ht room env).within _).bind fun part => ?_
      refine ((expectComponent_failsOnly nameless_rules part ty ceiling).matches.within _).bind fun _ => ?_
      exact ih hts (i + 1) tys

section Terms

variable (hf : Function.Injective f)
include hf

theorem cases_matches {room : Nat} {env : Env} {valueTy ty : Ty} {ceiling : Effect} {branches : List (Pattern × Term)}
    (h : ∀ b ∈ branches, Matched f config b.2) (i : Nat) :
    Matches f id (cases config room env valueTy ty ceiling i branches)
      (cases config room (env.renameNames f) valueTy ty ceiling i (Term.renameNamesBranches f branches)) := by
  induction branches generalizing i with
  | nil => rw [Term.renameNamesBranches, cases, cases]; exact .ok ()
  | cons branch rest ih =>
    obtain ⟨pattern, body⟩ := branch
    obtain ⟨hbody, hrest⟩ := List.forall_mem_cons.1 h
    rw [Term.renameNamesBranches, cases, cases]
    refine ((pattern.check_matches hf valueTy).within _).bind fun bindings => ?_
    have hscope : (env.renameNames f).extend (bindings.renameNames f) = (env.extend bindings).renameNames f :=
      OrderedMap.mapKeys_union hf bindings env
    rw [hscope]
    refine ((hbody room _).within _).bind fun part => ?_
    refine ((expectComponent_failsOnly nameless_rules part ty ceiling).matches.within _).bind fun _ => ?_
    exact ih hrest (i + 1)

theorem var_matches (room : Nat) (env : Env) (ty : Ty) (name : String) :
    Matches f id (term config (room + 1) env (.var ty name))
      (term config (room + 1) (env.renameNames f) (Term.renameNames f (.var ty name))) := by
  have hget : (env.renameNames f).get? (f name) = env.get? name := OrderedMap.get?_mapKeys hf env name
  rw [Term.renameNames]
  cases hfound : env.get? name with
  | none =>
    rw [term_var_unknown _ _ _ hfound, term_var_unknown _ _ _ (hget.trans hfound)]
    exact .error .root (.unknown name)
  | some found =>
    rw [term_var_found _ _ _ hfound, term_var_found _ _ _ (hget.trans hfound)]
    exact (expectInstance_failsOnly nameless_rules found ty).matches.bind fun _ => .ok _

theorem insert_renameNames (env : Env) (name : String) (ty : Ty) :
    (env.renameNames f).insert (f name) ty = Env.renameNames f (env.insert name ty) :=
  OrderedMap.mapKeys_insert hf env name ty

theorem matched (t : Term) : Matched f config t := by
  induction t using Term.induct <;> refine matched_of_room fun room env => ?_
  case lit l => exact .ok _
  case var ty name => exact var_matches hf room env ty name
  case list ty elems eff ih =>
    rw [Term.renameNames]
    cases ty with
    | list elem =>
      rw [term_list, term_list, Term.length_renameNamesAll]
      exact (components_matches ih 0 _).bind fun _ => .ok _
    | var | base | option | tuple | arrow => exact matches_reject (by simp)
  case ctor ty tag args eff ih =>
    rw [Term.renameNames, term_ctor, term_ctor, Term.length_renameNamesAll]
    refine (constructorFields_failsOnly nameless_rules ty tag _).matches.bind fun fields => ?_
    exact (components_matches ih 0 fields).bind fun _ => .ok _
  case cases ty scrutinee branches eff ih ihs =>
    rw [Term.renameNames, term_cases, term_cases, Term.renameNamesBranches_eq_map, List.isEmpty_map,
      ← Term.renameNamesBranches_eq_map]
    split
    · exact matches_reject (by simp)
    · refine ((ih room env).within _).bind fun value => ?_
      refine ((expectWithin_failsOnly nameless_rules value.2 eff).matches.within _).bind fun _ => ?_
      exact (cases_matches hf ihs 0).bind fun _ => .ok _
  case lambda ty param paramTy body ih =>
    rw [Term.renameNames, term_lambda, term_lambda, insert_renameNames hf]
    refine ((ih room _).within _).bind fun result => ?_
    exact (expectInstance_failsOnly nameless_rules (.arrow paramTy result.2 result.1) ty).matches.bind fun _ => .ok _
  case apply ty fn argTy arg eff ihfn iharg =>
    rw [Term.renameNames, term_apply, term_apply]
    refine ((ihfn room env).within _).bind fun fnPart => ?_
    refine ((iharg room env).within _).bind fun argPart => ?_
    exact (applyParts_failsOnly nameless_rules (nameless_rules_within _) (nameless_rules_within _) fnPart argPart ty
      argTy eff).matches
  case letIn name boundTy bound body ty eff ihbound ihbody =>
    rw [Term.renameNames, term_letIn, term_letIn]
    refine ((ihbound room env).within _).bind fun boundPart => ?_
    refine ((expectInstance_failsOnly nameless_rules boundPart.1 boundTy).matches.within _).bind fun _ => ?_
    rw [insert_renameNames hf]
    refine ((ihbody room _).within _).bind fun bodyPart => ?_
    refine (expectInstance_failsOnly nameless_rules bodyPart.1 ty).matches.bind fun _ => ?_
    exact (expectWithin_failsOnly nameless_rules _ eff).matches.bind fun _ => .ok _
  case cond ty test thenBranch elseBranch eff ih ihthen ihelse =>
    rw [Term.renameNames, term_cond, term_cond]
    refine ((ih room env).within _).bind fun testPart => ?_
    refine ((expectBool_failsOnly nameless_rules testPart.1).matches.within _).bind fun _ => ?_
    refine ((expectWithin_failsOnly nameless_rules testPart.2 eff).matches.within _).bind fun _ => ?_
    refine ((ihthen room env).within _).bind fun thenPart => ?_
    refine ((ihelse room env).within _).bind fun elsePart => ?_
    exact (condParts_failsOnly nameless_rules (nameless_rules_within _) (nameless_rules_within _) testPart thenPart
      elsePart ty eff).matches

end Terms

end Check

/-- A name the renamed term is rejected for binding twice is the new name of one that the pattern in the same place of
the term binds twice. -/
theorem Term.binds_twice_of_check_renameNames {f : String → String} (hf : Function.Injective f) {config : Config}
    {env : Env} {t : Term} {path : Path} {name : String}
    (h : (t.renameNames f).check config env = .error ⟨path, .rejected (.duplicateBinding name)⟩) :
    ∃ p y, t.patternAt? path.steps = some p ∧ 2 ≤ p.names.count y ∧ name = f y := by
  obtain ⟨q, hq, hcount⟩ := binds_twice_of_check h
  rw [patternAt?_renameNames] at hq
  obtain ⟨p, hp, rfl⟩ := Option.map_eq_some_iff.1 hq
  rw [Pattern.names_renameNames] at hcount
  obtain ⟨y, -, rfl⟩ := List.mem_map.1 (List.count_pos_iff.1 (Nat.lt_of_lt_of_le Nat.two_pos hcount))
  rw [List.count_map_of_injective _ f hf] at hcount
  exact ⟨p, y, hp, hcount, rfl⟩

/-- With its names and those of its scope changed injectively, a term is accepted with the same type and effect, or
rejected in the same place. The reason is the same, with the new name of an unknown variable; for a name bound twice it
is the new name of one that the pattern in that place binds twice, if not the same one. -/
theorem Term.check_renamed_names (f : String → String) (hf : Function.Injective f) (config : Config) (env : Env)
    (t : Term) :
    (∀ ty eff, t.check config env = .ok (ty, eff) →
      (t.renameNames f).check config (env.renameNames f) = .ok (ty, eff)) ∧
    ∀ failure, t.check config env = .error failure → ∃ reason reason', failure.cause = .rejected reason ∧
      (t.renameNames f).check config (env.renameNames f) = .error ⟨failure.path, .rejected reason'⟩ ∧
      (∀ x, reason = .unknownVariable x → reason' = .unknownVariable (f x)) ∧
      (∀ x, reason = .duplicateBinding x → ∃ p y, t.patternAt? failure.path.steps = some p ∧
        2 ≤ p.names.count y ∧ reason' = .duplicateBinding (f y)) ∧
      ((∀ x, reason ≠ .unknownVariable x) → (∀ x, reason ≠ .duplicateBinding x) → reason' = reason) := by
  have hmatch : Matches f id (t.check config env) ((t.renameNames f).check config (env.renameNames f)) :=
    Check.matched hf t config.maxDepth env
  generalize hout : t.check config env = out, hout' : (t.renameNames f).check config (env.renameNames f) = out' at hmatch
  cases hmatch with
  | ok found =>
    refine ⟨fun ty eff h => h, fun failure h => ?_⟩
    cases h
  | @error path reason reason' hreason =>
    refine ⟨fun ty eff h => ?_, fun failure h => ?_⟩
    · cases h
    · cases h
      refine ⟨reason, reason', rfl, rfl, ?_⟩
      cases hreason with
      | unknown name =>
        refine ⟨fun x hx => ?_, fun x hx => ?_, fun hunknown _ => absurd rfl (hunknown name)⟩
        · cases hx; rfl
        · cases hx
      | duplicate name other =>
        refine ⟨fun x hx => ?_, fun x _ => ?_, fun _ hduplicate => absurd rfl (hduplicate name)⟩
        · cases hx
        · obtain ⟨p, y, hp, hcount, rfl⟩ := binds_twice_of_check_renameNames hf hout'
          exact ⟨p, y, hp, hcount, rfl⟩
      | same hunknown hduplicate =>
        exact ⟨fun x hx => absurd hx (hunknown x), fun x hx => absurd hx (hduplicate x), fun _ _ => rfl⟩

/-- Takes a pair of pairs apart and binds the same two names in both. -/
def boundTwice (x y : String) : Pattern :=
  .tuple (.tuple [.var ⟨0⟩, .var ⟨0⟩])
    [.tuple (.tuple [.var ⟨1⟩, .var ⟨2⟩]) [.var x, .var y], .tuple (.tuple [.var ⟨1⟩, .var ⟨2⟩]) [.var x, .var y]]

def boundTwiceMatch (x y : String) : Term :=
  .cases (.base .int) (.var (.tuple [.tuple [.base .int, .base .int], .tuple [.base .int, .base .int]]) "pairs")
    [(boundTwice x y, .var (.base .int) x)] .pure

/-- Two names exchanged, of which one is bound by a function in `putOff` and the other in the scope around it. Of two
names bound twice the other one is reported. -/
theorem exchanged_names_renamed :
    let f : String → String := Equiv.swap "x" "act"
    let pairs : Env := .singleton "pairs" (.tuple [.tuple [.base .int, .base .int], .tuple [.base .int, .base .int]])
    Function.Injective f ∧
    (putOff.renameNames f).check {} (sampleScope.renameNames f) = .ok (.base .int, .pure) ∧
    (actCall.renameNames f).check {} (sampleScope.renameNames f) =
      .error ⟨⟨[.applyArg]⟩, .rejected (.unknownVariable "act")⟩ ∧
    (boundTwiceMatch "x" "act").check {} pairs =
      .error ⟨⟨[.branchPattern 0]⟩, .rejected (.duplicateBinding "act")⟩ ∧
    ((boundTwiceMatch "x" "act").renameNames f).check {} (pairs.renameNames f) =
      .error ⟨⟨[.branchPattern 0]⟩, .rejected (.duplicateBinding (f "x"))⟩ ∧
    2 ≤ (boundTwice "x" "act").names.count "x" := by
  intro f pairs
  have hf : Function.Injective f := (Equiv.swap _ _).injective
  have hact : actCall.check {} sampleScope = .error ⟨⟨[.applyArg]⟩, .rejected (.unknownVariable "x")⟩ := by rfl
  have htwice : (boundTwiceMatch "x" "act").check {} pairs =
      .error ⟨⟨[.branchPattern 0]⟩, .rejected (.duplicateBinding "act")⟩ := by rfl
  have hrenamed : ((boundTwiceMatch "x" "act").renameNames f).check {} (pairs.renameNames f) =
      .error ⟨⟨[.branchPattern 0]⟩, .rejected (.duplicateBinding (f "x"))⟩ := by
    have hterm : (boundTwiceMatch "x" "act").renameNames f = boundTwiceMatch "act" "x" := by rfl
    have hscope : pairs.renameNames f = pairs := by rfl
    rw [hterm, hscope]; rfl
  obtain ⟨_, _, hreason, hact', hunknown, -⟩ := (Term.check_renamed_names f hf {} sampleScope actCall).2 _ hact
  cases hreason
  obtain ⟨_, _, hreason, hother, -, hduplicate, -⟩ :=
    (Term.check_renamed_names f hf {} pairs (boundTwiceMatch "x" "act")).2 _ htwice
  cases hreason
  obtain ⟨p, y, hp, hcount, rfl⟩ := hduplicate "act" rfl
  cases hp
  have hsame := Failure.mk.inj (Except.error.inj (hrenamed.symm.trans hother))
  obtain rfl : "x" = y := hf (Rejection.duplicateBinding.inj (Cause.rejected.inj hsame.2))
  refine ⟨hf, (Term.check_renamed_names f hf {} sampleScope putOff).1 _ _ putOff_accepted, ?_, htwice, hrenamed, hcount⟩
  rw [hact', hunknown "x" rfl]; rfl

end EffectTyping
