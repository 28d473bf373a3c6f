/-
A check depends on the scope only through the free names of the term. A check is taken as a function of the scope, and
`LooksUp` says which names it looks up: it does not tell apart scopes that agree on them, it finds all of them if it
succeeds, and a variable it reports as unknown is one of them and has no binding. Checks made one after the other look
up what each of them does, and a check under a binder what the binder leaves over; by induction on the term its check
looks up its free names.
-/
import EffectTyping.Proofs.Typing.Accepted
import EffectTyping.Proofs.Typing.Rules

namespace EffectTyping

/-! ## Free names -/

namespace Term

mutual

/-- The names a term leaves free, from left to right. A function binds its parameter in its body, a let its name in its
body and not in the bound term, a branch the names of its pattern in its body. -/
def freeNames : Term → List String
  | .lit _ => []
  | .var _ name => [name]
  | .list _ elems _ => freeNamesAll elems
  | .ctor _ _ args _ => freeNamesAll args
  | .cases _ scrutinee branches _ => freeNames scrutinee ++ freeNamesBranches branches
  | .lambda _ param _ body => (freeNames body).filter (· ≠ param)
  | .apply _ fn _ arg _ => freeNames fn ++ freeNames arg
  | .letIn name _ bound body _ _ => freeNames bound ++ (freeNames body).filter (· ≠ name)
  | .cond _ test thenBranch elseBranch _ => freeNames test ++ (freeNames thenBranch ++ freeNames elseBranch)

def freeNamesAll : List Term → List String
  | [] => []
  | t :: ts => freeNames t ++ freeNamesAll ts

def freeNamesBranches : List (Pattern × Term) → List String
  | [] => []
  | (p, body) :: rest => (freeNames body).filter (· ∉ p.names) ++ freeNamesBranches rest

end

end Term

/-! ## The names a pattern binds -/

namespace Pattern

mutual

theorem Binds.contains_iff {name : String} : ∀ {p : Pattern} {expected : Ty} {bindings : Env},
    p.Binds expected bindings → (bindings.contains name = true ↔ name ∈ p.names)
  | .var x, expected, bindings, h => by
    cases h
    rw [names, OrderedMap.contains_singleton, List.mem_singleton]
  | .ctor ty tag args, expected, bindings, h => by
    cases h with
    | ctor hty hinst hexp hargs => rw [names]; exact hargs.contains_iff

theorem BindAll.contains_iff {name : String} : ∀ {ps : List Pattern} {expected : List Ty} {bindings : Env},
    BindAll ps expected bindings → (bindings.contains name = true ↔ name ∈ namesAll ps)
  | [], expected, bindings, h => by
    cases h
    simp [namesAll, OrderedMap.contains]
  | p :: ps, expected, bindings, h => by
    cases h with
    | cons hp hps hd =>
      rw [namesAll, List.mem_append, OrderedMap.contains_union, hp.contains_iff, hps.contains_iff]

end

/-- What a pattern binds are its names. -/
theorem contains_of_check {p : Pattern} {expected : Ty} {bindings : Env} (h : p.check expected = .ok bindings)
    (name : String) : bindings.contains name = true ↔ name ∈ p.names :=
  ((check_ok_iff p expected bindings).1 h).contains_iff

end Pattern

/-! ## Checks that look nothing up -/

open Checked

/-- No failure is for want of a variable. -/
def Checked.Closed {α : Type} (x : Checked α) : Prop :=
  FailsOnly (fun f => ∀ name, f.cause ≠ .rejected (.unknownVariable name)) x

/-- Every rule but that for variables is closed, wherever it is applied. -/
theorem rules_closed : CoversRules fun f => ∀ name, f.cause ≠ .rejected (.unknownVariable name) :=
  fun _ h name heq => h.1 name (Cause.rejected.inj heq)

theorem Pattern.check_closed (p : Pattern) (expected : Ty) : Closed (p.check expected) :=
  p.check_failsOnly (fun _ => rules_closed) (by simp) (fun _ hf => hf) expected

/-! ## Checks that look names up -/

/-- A check that looks up these names in the scope it is made in. -/
structure LooksUp {α : Type} (names : List String) (x : Env → Checked α) : Prop where
  /-- Scopes that agree on the names are not told apart. -/
  congr : ∀ {env env' : Env}, (∀ n ∈ names, env.get? n = env'.get? n) → x env = x env'
  /-- If it succeeds, it has found all of the names. -/
  bound : ∀ {env : Env} {a : α}, x env = .ok a → ∀ n ∈ names, env.contains n = true
  /-- A variable it does not find is one of the names. -/
  unknown : ∀ {env : Env} {f : Failure} {n : String}, x env = .error f → f.cause = .rejected (.unknownVariable n) →
    n ∈ names ∧ env.contains n = false

namespace LooksUp

variable {α β : Type} {names others : List String} {x : Env → Checked α}

/-- A check that fails in every scope may be said to look up anything. -/
theorem of_reject {reason : Rejection} (names : List String) (h : ∀ name, reason ≠ .unknownVariable name) :
    LooksUp names fun _ => (reject reason : Checked α) where
  congr _ := rfl
  bound h := by cases h
  unknown hf hn := by
    cases hf
    exact absurd (Cause.rejected.inj hn) (h _)

theorem of_closed {x : Checked α} (hx : Closed x) : LooksUp [] fun _ => x where
  congr _ := rfl
  bound _ := List.forall_mem_nil _
  unknown hf hn := absurd hn (hx _ hf _)

theorem within (hx : LooksUp names x) (step : Step) : LooksUp names fun env => Checked.within step (x env) where
  congr h := by rw [hx.congr h]
  bound h := hx.bound (within_eq_ok_iff.1 h)
  unknown hf hn := by
    obtain ⟨g, hg, rfl⟩ := within_eq_error_iff.1 hf
    exact hx.unknown hg hn

/-- A check and then another look up the names of both. -/
theorem bind {f : Env → α → Checked β} (hx : LooksUp names x) (hf : ∀ a, LooksUp others fun env => f env a) :
    LooksUp (names ++ others) fun env => x env >>= f env where
  congr {env env'} h := by
    have hnames := hx.congr fun n hn => h n (List.mem_append_left _ hn)
    have hothers : f env = f env' := funext fun a => (hf a).congr fun n hn => h n (List.mem_append_right _ hn)
    rw [hnames, hothers]
  bound h := by
    obtain ⟨a, ha, h⟩ := bind_eq_ok_iff.1 h
    exact List.forall_mem_append.2 ⟨hx.bound ha, (hf a).bound h⟩
  unknown he hn := by
    rcases bind_eq_error_iff.1 he with he | ⟨a, -, he⟩
    · exact (hx.unknown he hn).imp_left (List.mem_append_left _)
    · exact ((hf a).unknown he hn).imp_left (List.mem_append_right _)

/-- A rule applied after a check looks up nothing more. -/
theorem andThen {f : α → Checked β} (hx : LooksUp names x) (hf : ∀ a, Closed (f a)) :
    LooksUp names fun env => x env >>= f := by
  have h := hx.bind (f := fun _ => f) fun a => of_closed (hf a)
  rwa [List.append_nil] at h

/-- Nor does one applied before it. -/
theorem after {x : Checked α} {f : Env → α → Checked β} (hx : Closed x)
    (hf : ∀ a, x = .ok a → LooksUp names fun env => f env a) : LooksUp names fun env => x >>= f env := by
  cases x with
  | ok a => exact hf a rfl
  | error f =>
    refine ⟨fun _ => rfl, fun h => ?_, fun he hn => absurd hn ?_⟩
    · cases h
    · cases he; exact hx f rfl _

/-- Under bindings of the names `ps` a check looks up only its other names in the scope around them. -/
theorem extend {ps : List String} {bindings : Env} (hx : LooksUp names x)
    (hps : ∀ n, bindings.contains n = true ↔ n ∈ ps) :
    LooksUp (names.filter (· ∉ ps)) fun env => x (env.extend bindings) := by
  have hmem : ∀ {n}, n ∈ names.filter (· ∉ ps) ↔ n ∈ names ∧ bindings.contains n = false := by
    intro n
    rw [List.mem_filter, decide_eq_true_iff, ← hps, Bool.not_eq_true]
  refine ⟨fun {env env'} h => hx.congr fun n hn => ?_, fun {env a} h n hn => ?_, fun {env f n} hf hn => ?_⟩
  · rw [Env.extend, Env.extend, OrderedMap.get?_union, OrderedMap.get?_union]
    -- a name with a binding is found there, and any other in the scope around
    cases hb : bindings.get? n with
    | some t => rfl
    | none =>
      rw [Option.none_or, Option.none_or]
      exact h n (hmem.2 ⟨hn, by rw [OrderedMap.contains, hb]; rfl⟩)
  · obtain ⟨hn, hunbound⟩ := hmem.1 hn
    have hfound := OrderedMap.contains_union.1 (hx.bound h n hn)
    rw [hunbound] at hfound
    exact hfound.resolve_left Bool.false_ne_true
  · obtain ⟨hn, hunbound⟩ := hx.unknown hf hn
    rw [← Bool.not_eq_true, Env.extend, OrderedMap.contains_union, not_or, Bool.not_eq_true, Bool.not_eq_true] at hunbound
    exact ⟨hmem.2 ⟨hn, hunbound.1⟩, hunbound.2⟩

/-- The same for one name. -/
theorem insert {name : String} {ty : Ty} (hx : LooksUp names x) :
    LooksUp (names.filter (· ≠ name)) fun env => x (env.insert name ty) := by
  have hone : ∀ env : Env, env.insert name ty = env.extend (.singleton name ty) := by
    intro env
    refine OrderedMap.ext fun k => ?_
    rw [Env.extend, OrderedMap.get?_union, OrderedMap.get?_insert, OrderedMap.get?_singleton]
    split <;> simp
  have hbinds : ∀ n, (OrderedMap.singleton name ty).contains n = true ↔ n ∈ [name] := by
    intro n
    rw [OrderedMap.contains_singleton, List.mem_singleton]
  simpa only [hone, List.mem_singleton] using hx.extend hbinds

end LooksUp

/-! ## Terms -/

namespace Check

/-- Wherever the term is checked, the check looks up its free names. -/
def LooksUpFree (config : Config) (t : Term) : Prop := ∀ room, LooksUp t.freeNames fun env => term config room env t

variable {config : Config}

theorem looksUp_components {room : Nat} {ceiling : Effect} {step : Nat → Step} {ts : List Term}
    (h : ∀ t ∈ ts, LooksUpFree config t) (i : Nat) {tys : List Ty} (hl : ts.length = tys.length) :
    LooksUp (Term.freeNamesAll ts) fun env => components config room env ceiling step i ts tys := by
  induction ts generalizing i tys with
  | nil =>
    simp only [components]
    exact .of_closed (failsOnly_ok ())
  | cons t ts ih =>
    obtain ⟨ht, hts⟩ := List.forall_mem_cons.1 h
    cases tys with
    | nil => cases hl
    | cons ty tys =>
      simp only [components]
      refine ((ht room).within _).bind fun part => ?_
      refine .after (expectComponent_failsOnly rules_closed _ _ _).within fun _ _ => ?_
      exact ih hts (i + 1) (Nat.succ.inj hl)

theorem looksUp_cases {room : Nat} {valueTy ty : Ty} {ceiling : Effect} {branches : List (Pattern × Term)}
    (h : ∀ b ∈ branches, LooksUpFree config b.2) (i : Nat) :
    LooksUp (Term.freeNamesBranches branches) fun env => cases config room env valueTy ty ceiling i branches := by
  induction branches generalizing i with
  | nil =>
    simp only [cases]
    exact .of_closed (failsOnly_ok ())
  | cons branch rest ih =>
    obtain ⟨pattern, body⟩ := branch
    obtain ⟨hbody, hrest⟩ := List.forall_mem_cons.1 h
    simp only [cases]
    have hpattern : Closed (Checked.within (.branchPattern i) (pattern.check valueTy)) :=
      FailsOnly.within (pattern.check_closed valueTy)
    refine .after hpattern fun bindings hbindings => ?_
    have hnames := Pattern.contains_of_check (within_eq_ok_iff.1 hbindings)
    refine (((hbody room).extend hnames).within _).bind fun part => ?_
    exact .after (expectComponent_failsOnly rules_closed _ _ _).within fun _ _ => ih hrest (i + 1)

theorem looksUpFree_of_room {t : Term} (h : ∀ room, LooksUp t.freeNames fun env => term config (room + 1) env t) :
    LooksUpFree config t := by
  intro room
  cases room with
  | zero =>
    simp only [term_zero]
    exact .of_reject _ (by simp)
  | succ room => exact h room

theorem looksUp_var (room : Nat) (ty : Ty) (name : String) :
    LooksUp [name] fun env => term config (room + 1) env (.var ty name) where
  congr {env env'} h := by
    have hname := List.forall_mem_singleton.1 h
    cases hfound : env.get? name with
    | none => rw [term_var_unknown _ _ _ hfound, term_var_unknown _ _ _ (hname.symm.trans hfound)]
    | some found => rw [term_var_found _ _ _ hfound, term_var_found _ _ _ (hname.symm.trans hfound)]
  bound {env a} h := by
    refine List.forall_mem_singleton.2 ?_
    cases hfound : env.get? name with
    | none => rw [term_var_unknown _ _ _ hfound] at h; cases h
    | some found => rw [OrderedMap.contains, hfound]; rfl
  unknown {env f n} hf hn := by
    cases hfound : env.get? name with
    | none =>
      rw [term_var_unknown _ _ _ hfound] at hf
      cases hf; cases hn
      exact ⟨List.mem_singleton_self name, by rw [OrderedMap.contains, hfound]; rfl⟩
    | some found =>
      rw [term_var_found _ _ _ hfound] at hf
      exact absurd hn ((expectInstance_failsOnly rules_closed found ty).bind (fun _ => failsOnly_ok _) _ hf _)

theorem looksUpFree (config : Config) (t : Term) : LooksUpFree config t := by
  induction t using Term.induct <;> refine looksUpFree_of_room fun room => ?_
  case lit l =>
    simp only [term_lit]
    exact .of_closed (failsOnly_ok _)
  case var ty name => exact looksUp_var room ty name
  case list ty elems eff ih =>
    by_cases hty : ∃ elem, ty = .list elem
    · obtain ⟨elem, rfl⟩ := hty
      simp only [term_list]
      exact (looksUp_components ih 0 (List.length_replicate ..).symm).andThen fun _ => failsOnly_ok _
    · simp only [term_not_list _ _ _ _ _ (not_exists.1 hty)]
      exact .of_reject _ (by simp)
  case ctor ty tag args eff ih =>
    simp only [term_ctor]
    refine .after (constructorFields_failsOnly rules_closed ty tag _) fun fields hfields => ?_
    -- with fewer fields than arguments some arguments, and their free names, would not be looked at
    have hl := (constructorFields_ok_iff.1 (ofRule_eq_ok_iff.1 hfields)).2
    exact (looksUp_components ih 0 hl.symm).andThen fun _ => failsOnly_ok _
  case cases ty scrutinee branches eff ih ihs =>
    simp only [term_cases]
    split
    · exact .of_reject _ (by simp)
    · refine ((ih room).within _).bind fun value => ?_
      refine .after (expectWithin_failsOnly rules_closed _ _).within fun _ _ => ?_
      exact (looksUp_cases ihs 0).andThen fun _ => failsOnly_ok _
  case lambda ty param paramTy body ih =>
    simp only [term_lambda]
    refine ((ih room).insert.within _).andThen fun result => ?_
    exact (expectInstance_failsOnly rules_closed _ _).bind fun _ => failsOnly_ok _
  case apply ty fn argTy arg eff ihfn iharg =>
    simp only [term_apply]
    refine ((ihfn room).within _).bind fun fnPart => ?_
    refine ((iharg room).within _).andThen fun argPart => ?_
    exact applyParts_failsOnly rules_closed rules_closed rules_closed _ _ _ _ _
  case letIn name boundTy bound body ty eff ihbound ihbody =>
    simp only [term_letIn]
    refine ((ihbound room).within _).bind fun boundPart => ?_
    refine .after (expectInstance_failsOnly rules_closed _ _).within fun _ _ => ?_
    refine ((ihbody room).insert.within _).andThen fun bodyPart => ?_
    refine (expectInstance_failsOnly rules_closed _ _).bind fun _ => ?_
    exact (expectWithin_failsOnly rules_closed _ _).bind fun _ => failsOnly_ok _
  case cond ty test thenBranch elseBranch eff ih ihthen ihelse =>
    simp only [term_cond]
    refine ((ih room).within _).bind fun testPart => ?_
    refine .after (expectBool_failsOnly rules_closed _).within fun _ _ => ?_
    refine .after (expectWithin_failsOnly rules_closed _ _).within fun _ _ => ?_
    refine ((ihthen room).within _).bind fun thenPart => ?_
    refine ((ihelse room).within _).andThen fun elsePart => ?_
    exact condParts_failsOnly rules_closed rules_closed rules_closed _ _ _ _ _

end Check

/-- The check of a term does not tell apart scopes that agree on its free names: it accepts it with the same type and
effect, or fails in the same place for the same reason. A term is accepted only if all of its free names are bound, and
a variable reported as unknown is a free name that is not. -/
theorem Term.check_free_names (config : Config) (t : Term) :
    (∀ env env' : Env, (∀ x ∈ t.freeNames, env.get? x = env'.get? x) → t.check config env = t.check config env') ∧
    (∀ env out, t.check config env = .ok out → ∀ x ∈ t.freeNames, env.contains x = true) ∧
    ∀ env path x, t.check config env = .error ⟨path, .rejected (.unknownVariable x)⟩ →
      x ∈ t.freeNames ∧ env.contains x = false := by
  have hlooks := Check.looksUpFree config t config.maxDepth
  refine ⟨fun env env' h => hlooks.congr h, fun env out h => hlooks.bound h, fun env path x h => ?_⟩
  exact hlooks.unknown h rfl

/-- The names a term binds may mean anything outside of it, and a name that is missing is found out. -/
theorem putOff_free_names :
    putOff.freeNames = ["act", "keep"] ∧
    putOff.check {} ((sampleScope.insert "x" (.base .bool)).insert "later" (.var ⟨3⟩)) = .ok (.base .int, .pure) ∧
    (∀ x ∈ putOff.freeNames, sampleScope.contains x = true) ∧
    keepCall.check {} .empty = .error ⟨⟨[.applyFn]⟩, .rejected (.unknownVariable "keep")⟩ ∧
    "keep" ∈ keepCall.freeNames ∧ (.empty : Env).contains "keep" = false := by
  obtain ⟨hcongr, hbound, -⟩ := Term.check_free_names {} putOff
  have hnames : putOff.freeNames = ["act", "keep"] := by decide
  have hfail : keepCall.check {} .empty = .error ⟨⟨[.applyFn]⟩, .rejected (.unknownVariable "keep")⟩ := by rfl
  refine ⟨hnames, ?_, hbound _ _ putOff_accepted, hfail, (Term.check_free_names {} keepCall).2.2 _ _ _ hfail⟩
  rw [← putOff_accepted]
  refine hcongr _ _ ?_
  rw [hnames]; decide

end EffectTyping
