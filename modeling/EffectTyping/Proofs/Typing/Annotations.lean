/-
Redundant annotations are checked and never trusted: the declared type of a variable, of a function, of a let and of
what it binds, and of a constructor pattern. Two accepted terms that differ in nothing else have one type and one
effect, by induction on the term. So their parts are checked in one scope, step by step, and the same is found for
every subterm.
-/
import EffectTyping.Proofs.Typing.Accepted

namespace EffectTyping

/-! ## Terms up to redundant annotations -/

/-- The two patterns differ at most in the types that constructor patterns declare. -/
inductive Pattern.Alike : Pattern → Pattern → Prop
  | var (name : String) : Pattern.Alike (.var name) (.var name)
  | ctor (ty ty' : Ty) (tag : Tag) {args args' : List Pattern} :
      List.Forall₂ Pattern.Alike args args' → Pattern.Alike (.ctor ty tag args) (.ctor ty' tag args')

/-- The two terms differ at most in the declared types of variables, of functions, of lets and of what they bind, and
of constructor patterns. -/
inductive Term.Alike : Term → Term → Prop
  | lit (l : Literal) : Term.Alike (.lit l) (.lit l)
  | var (ty ty' : Ty) (name : String) : Term.Alike (.var ty name) (.var ty' name)
  | list (ty : Ty) (eff : Effect) {elems elems' : List Term} :
      List.Forall₂ Term.Alike elems elems' → Term.Alike (.list ty elems eff) (.list ty elems' eff)
  | ctor (ty : Ty) (tag : Tag) (eff : Effect) {args args' : List Term} :
      List.Forall₂ Term.Alike args args' → Term.Alike (.ctor ty tag args eff) (.ctor ty tag args' eff)
  | cases (ty : Ty) (eff : Effect) {scrutinee scrutinee' : Term} {branches branches' : List (Pattern × Term)} :
      Term.Alike scrutinee scrutinee' →
      List.Forall₂ Pattern.Alike (branches.map Prod.fst) (branches'.map Prod.fst) →
      List.Forall₂ Term.Alike (branches.map Prod.snd) (branches'.map Prod.snd) →
      Term.Alike (.cases ty scrutinee branches eff) (.cases ty scrutinee' branches' eff)
  | lambda (ty ty' : Ty) (param : String) (paramTy : Ty) {body body' : Term} :
      Term.Alike body body' → Term.Alike (.lambda ty param paramTy body) (.lambda ty' param paramTy body')
  | apply (ty argTy : Ty) (eff : Effect) {fn fn' arg arg' : Term} :
      Term.Alike fn fn' → Term.Alike arg arg' → Term.Alike (.apply ty fn argTy arg eff) (.apply ty fn' argTy arg' eff)
  | letIn (name : String) (boundTy boundTy' ty ty' : Ty) (eff : Effect) {bound bound' body body' : Term} :
      Term.Alike bound bound' → Term.Alike body body' →
      Term.Alike (.letIn name boundTy bound body ty eff) (.letIn name boundTy' bound' body' ty' eff)
  | cond (ty : Ty) (eff : Effect) {test test' thenBranch thenBranch' elseBranch elseBranch' : Term} :
      Term.Alike test test' → Term.Alike thenBranch thenBranch' → Term.Alike elseBranch elseBranch' →
      Term.Alike (.cond ty test thenBranch elseBranch eff) (.cond ty test' thenBranch' elseBranch' eff)

theorem forall₂_getElem? {α : Type} {R : α → α → Prop} {xs ys : List α} (h : List.Forall₂ R xs ys) {i : Nat} {x y : α}
    (hx : xs[i]? = some x) (hy : ys[i]? = some y) : R x y := by
  obtain ⟨hi, rfl⟩ := List.getElem?_eq_some_iff.1 hx
  obtain ⟨hi', rfl⟩ := List.getElem?_eq_some_iff.1 hy
  exact h.get hi hi'

/-- A step leads from alike terms to alike parts. -/
theorem Term.Alike.child {t t' u u' : Term} {step : Step} (h : t.Alike t') (hu : t.child? step = some u)
    (hu' : t'.child? step = some u') : u.Alike u' := by
  unfold child? at hu
  split at hu
  · cases h with
    | list ty eff helems => exact forall₂_getElem? helems hu hu'
  · cases h with
    | ctor ty tag eff hargs => exact forall₂_getElem? hargs hu hu'
  · cases h with
    | cases ty eff hvalue hpatterns hbodies => cases hu; cases hu'; exact hvalue
  · cases h with
    | cases ty eff hvalue hpatterns hbodies =>
      rw [← List.getElem?_map] at hu
      rw [child?, ← List.getElem?_map] at hu'
      exact forall₂_getElem? hbodies hu hu'
  · cases h with
    | lambda ty ty' param paramTy hbody => cases hu; cases hu'; exact hbody
  · cases h with
    | apply ty argTy eff hfn harg => cases hu; cases hu'; exact hfn
  · cases h with
    | apply ty argTy eff hfn harg => cases hu; cases hu'; exact harg
  · cases h with
    | letIn name boundTy boundTy' ty ty' eff hbound hbody => cases hu; cases hu'; exact hbound
  · cases h with
    | letIn name boundTy boundTy' ty ty' eff hbound hbody => cases hu; cases hu'; exact hbody
  · cases h with
    | cond ty eff htest hthen helse => cases hu; cases hu'; exact htest
  · cases h with
    | cond ty eff htest hthen helse => cases hu; cases hu'; exact hthen
  · cases h with
    | cond ty eff htest hthen helse => cases hu; cases hu'; exact helse
  · cases hu

/-! ## One type, one effect, one scope -/

namespace Pattern

mutual

/-- Alike patterns take a value of one type apart into the same bindings, which are components of that type. -/
theorem Alike.binds_unique : ∀ {p p' : Pattern} {expected : Ty} {bindings bindings' : Env}, p.Alike p' →
    p.Binds expected bindings → p'.Binds expected bindings' → bindings = bindings'
  | .var name, p', expected, bindings, bindings', h, hb, hb' => by
    cases h; cases hb; cases hb'; rfl
  | .ctor ty tag args, p', expected, bindings, bindings', h, hb, hb' => by
    cases h with
    | ctor _ ty' _ hargs =>
      cases hb with
      | ctor hty hinst hparts hall =>
        cases hb' with
        | ctor hty' hinst' hparts' hall' =>
          -- the parts are matched with those of the expected type, not with those of the declared ones
          obtain rfl := hparts.unique hparts'
          exact bindAll_unique hargs hall hall'

theorem bindAll_unique : ∀ {ps ps' : List Pattern} {expected : List Ty} {bindings bindings' : Env},
    List.Forall₂ Alike ps ps' → BindAll ps expected bindings → BindAll ps' expected bindings' → bindings = bindings'
  | [], ps', expected, bindings, bindings', h, hb, hb' => by
    cases h; cases hb; cases hb'; rfl
  | p :: ps, ps', expected, bindings, bindings', h, hb, hb' => by
    cases h with
    | cons hp hps =>
      cases hb with
      | cons hbp hbps hd =>
        cases hb' with
        | cons hbp' hbps' hd' => rw [hp.binds_unique hbp hbp', bindAll_unique hps hbps hbps']

end

theorem Alike.check_unique {p p' : Pattern} {expected : Ty} {bindings bindings' : Env} (h : p.Alike p')
    (hb : p.check expected = .ok bindings) (hb' : p'.check expected = .ok bindings') : bindings = bindings' :=
  h.binds_unique ((check_ok_iff p expected bindings).1 hb) ((check_ok_iff p' expected bindings').1 hb')

end Pattern

/-- In one scope alike terms have one type and one effect. -/
theorem HasType.unique_of_alike {strict : Bool} {env : Env} {t t' : Term} {ty ty' : Ty} {eff eff' : Effect}
    (halike : t.Alike t') (h : HasType strict env t ty eff) (h' : HasType strict env t' ty' eff') :
    ty = ty' ∧ eff = eff' := by
  induction t using Term.induct generalizing env t' ty ty' eff eff' with
  | lit l => cases halike; cases h; cases h'; exact ⟨rfl, rfl⟩
  | var declared name =>
    cases halike with
    | var =>
      cases h with
      | var hfound hinst =>
        cases h' with
        | var hfound' hinst' => exact ⟨Option.some.inj (hfound.symm.trans hfound'), rfl⟩
  -- lists, constructors and matches are given the type and the effect they declare
  | list declared elems ceiling ih => cases halike; cases h; cases h'; exact ⟨rfl, rfl⟩
  | ctor declared tag args ceiling ih => cases halike; cases h; cases h'; exact ⟨rfl, rfl⟩
  | cases declared scrutinee branches ceiling ih ih' => cases halike; cases h; cases h'; exact ⟨rfl, rfl⟩
  | lambda declared param paramTy body ih =>
    cases halike with
    | lambda _ _ _ _ hbody =>
      cases h with
      | lambda htype hinst =>
        cases h' with
        | lambda htype' hinst' =>
          obtain ⟨rfl, rfl⟩ := ih hbody htype htype'
          exact ⟨rfl, rfl⟩
  | apply declared fn argTy arg ceiling ihfn iharg =>
    cases halike with
    | apply _ _ _ hfn harg =>
      cases h with
      | apply htype hargType hpure hs hs' harrow hother hle =>
        cases h' with
        | apply htype' hargType' hpure' ht ht' harrow' hother' hle' =>
          obtain ⟨rfl, rfl⟩ := ihfn hfn htype htype'
          obtain ⟨-, rfl⟩ := iharg harg hargType hargType'
          -- the effect of the call is read off the type found for the function, or else is the declared one
          obtain rfl := Check.latentEffect_eq_iff.2 ⟨harrow, hother⟩
          obtain rfl := Check.latentEffect_eq_iff.2 ⟨harrow', hother'⟩
          exact ⟨rfl, rfl⟩
  | letIn name boundTy bound body declared ceiling ihbound ihbody =>
    cases halike with
    | letIn _ _ _ _ _ _ hbound hbody =>
      cases h with
      | letIn htype hinst hbodyType hinst' hle =>
        cases h' with
        | letIn htype' _ hbodyType' _ _ =>
          -- the name gets the type found for the bound term, so the bodies have one scope
          obtain ⟨rfl, -⟩ := ihbound hbound htype htype'
          exact ⟨(ihbody hbody hbodyType hbodyType').1, rfl⟩
  | cond declared test thenBranch elseBranch ceiling ihtest ihthen ihelse =>
    cases halike with
    | cond _ _ htest hthen helse =>
      cases h with
      | cond htype hle hthenType helseType hθ hle' hle'' =>
        cases h' with
        | cond htype' _ hthenType' helseType' _ _ _ =>
          obtain ⟨-, rfl⟩ := ihtest htest htype htype'
          obtain ⟨-, rfl⟩ := ihthen hthen hthenType hthenType'
          obtain ⟨-, rfl⟩ := ihelse helse helseType helseType'
          exact ⟨rfl, rfl⟩

namespace Check

variable {config : Config}

theorem term_unique_of_alike {room : Nat} {env : Env} {t t' : Term} {out out' : Ty × Effect} (halike : t.Alike t')
    (h : Check.term config room env t = .ok out) (h' : Check.term config room env t' = .ok out') : out = out' := by
  obtain ⟨-, ht⟩ := (adequate config t room env out.1 out.2).1 h
  obtain ⟨-, ht'⟩ := (adequate config t' room env out'.1 out'.2).1 h'
  exact Prod.ext_iff.2 (ht.unique_of_alike halike ht')

namespace Call

/-! ## One step -/

/-- A step leads from alike terms into one scope: a let binds the type found for the bound term, and a branch the
components of the type found for the matched value. -/
theorem scope_unique {room : Nat} {env scope scope' : Env} {t t' : Term} {step : Step} (halike : t.Alike t')
    (h : scope? config room env t step = some scope) (h' : scope? config room env t' step = some scope') :
    scope = scope' := by
  cases halike with
  | lit | var | list | ctor | apply | cond => cases h; cases h'; rfl
  | lambda ty ty' param paramTy hbody => cases step <;> (cases h; cases h'; rfl)
  | letIn name boundTy boundTy' ty ty' eff hbound hbody =>
    cases step with
    | letBody =>
      obtain ⟨found, hfound, rfl⟩ := scope?_letBody_iff.1 h
      obtain ⟨found', hfound', rfl⟩ := scope?_letBody_iff.1 h'
      rw [term_unique_of_alike hbound hfound hfound']
    | _ => cases h; cases h'; rfl
  | cases ty eff hvalue hpatterns hbodies =>
    cases step with
    | branchBody i =>
      obtain ⟨value, hval, branch, hbranch, bindings, hbindings, rfl⟩ := scope?_branchBody_iff.1 h
      obtain ⟨value', hval', branch', hbranch', bindings', hbindings', rfl⟩ := scope?_branchBody_iff.1 h'
      obtain rfl := term_unique_of_alike hvalue hval hval'
      have hpattern : branch.1.Alike branch'.1 :=
        forall₂_getElem? hpatterns (by rw [List.getElem?_map, hbranch]; rfl) (by rw [List.getElem?_map, hbranch']; rfl)
      rw [hpattern.check_unique hbindings hbindings']
    | _ => cases h; cases h'; rfl

/-- The two calls check alike terms in one scope, with as many levels left. -/
structure Alike (c d : Call) : Prop where
  room : c.room = d.room
  env : c.env = d.env
  term : c.term.Alike d.term

theorem Alike.outcome_unique {c d : Call} {out out' : Ty × Effect} (h : c.Alike d) (hc : c.outcome config = .ok out)
    (hd : d.outcome config = .ok out') : out = out' := by
  rw [outcome] at hc hd
  rw [h.room, h.env] at hc
  exact term_unique_of_alike h.term hc hd

theorem Alike.part {c d c' d' : Call} {step : Step} (h : c.Alike d) (hc : c.part? config step = some c')
    (hd : d.part? config step = some d') : c'.Alike d' := by
  obtain ⟨room, env, t⟩ := c
  obtain ⟨room', env', t'⟩ := d
  obtain ⟨hroom, henv, hterm⟩ := h
  cases hroom; cases henv
  cases room with
  | zero => cases hc
  | succ room =>
    obtain ⟨u, hu, hc⟩ := Option.bind_eq_some_iff.1 hc
    obtain ⟨scope, hscope, hc⟩ := Option.bind_eq_some_iff.1 hc
    obtain ⟨u', hu', hd⟩ := Option.bind_eq_some_iff.1 hd
    obtain ⟨scope', hscope', hd⟩ := Option.bind_eq_some_iff.1 hd
    cases hc; cases hd
    exact ⟨rfl, scope_unique hterm hscope hscope', hterm.child hu hu'⟩

/-! ## Every subterm -/

theorem Alike.at {c d c' d' : Call} {steps : List Step} (h : c.Alike d) (hc : c.at? config steps = some c')
    (hd : d.at? config steps = some d') : c'.Alike d' := by
  induction steps generalizing c d with
  | nil => cases hc; cases hd; exact h
  | cons step steps ih =>
    rw [at?_cons] at hc hd
    obtain ⟨e, he, hc⟩ := Option.bind_eq_some_iff.1 hc
    obtain ⟨f, hf, hd⟩ := Option.bind_eq_some_iff.1 hd
    exact ih (h.part he hf) hc hd

end Call

end Check

/-- If two terms differ at most in redundant annotations and both are accepted in a scope, then one type and one effect
is returned for them. Within them the same type and effect is found at every place where both are accepted, also if the
whole terms are not. -/
theorem Term.check_alike (config : Config) (env : Env) (t t' : Term) (halike : t.Alike t') :
    (∀ out out', t.check config env = .ok out → t'.check config env = .ok out' → out = out') ∧
    ∀ p u u' found found', t.Finds config env p u found → t'.Finds config env p u' found' →
      u.Alike u' ∧ found = found' := by
  have hstart : (Check.Call.start config env t).Alike (Check.Call.start config env t') := ⟨rfl, rfl, halike⟩
  constructor
  · intro out out' h h'
    exact hstart.outcome_unique h h'
  · rintro p u u' found found' ⟨c, hc, rfl, hok⟩ ⟨d, hd, rfl, hok'⟩
    have hplace : c.Alike d := hstart.at hc hd
    exact ⟨hplace.term, hplace.outcome_unique hok hok'⟩

/-- Names a number, taken out of an option, and returns the function `keep`. The declared types of `keep`, of the let
and of the patterns are left open. -/
def keepBeside (keepTy optionTy : Ty) : Term :=
  .letIn "n" (.base .int)
    (.cases (.base .int) (.someOf (.option (.base .int)) (.lit (.int 1)) .pure)
      [(.someOf optionTy (.var "m"), .var (.base .int) "m"), (.noneOf optionTy, .lit (.int 0))] .pure)
    (.var keepTy "keep") keepTy .pure

theorem keepBeside_alike (keepTy keepTy' optionTy optionTy' : Ty) :
    (keepBeside keepTy optionTy).Alike (keepBeside keepTy' optionTy') := by
  have hvalue : Term.Alike (.someOf (.option (.base .int)) (.lit (.int 1)) .pure)
      (.someOf (.option (.base .int)) (.lit (.int 1)) .pure) := .ctor _ _ _ (.cons (.lit _) .nil)
  have hpatterns : List.Forall₂ Pattern.Alike [.someOf optionTy (.var "m"), .noneOf optionTy]
      [.someOf optionTy' (.var "m"), .noneOf optionTy'] :=
    .cons (.ctor _ _ _ (.cons (.var _) .nil)) (.cons (.ctor _ _ _ .nil) .nil)
  have hbodies : List.Forall₂ Term.Alike [.var (.base .int) "m", .lit (.int 0)] [.var (.base .int) "m", .lit (.int 0)] :=
    .cons (.var _ _ _) (.cons (.lit _) .nil)
  exact .letIn _ _ _ _ _ _ (.cases _ _ hvalue hpatterns hbodies) (.var _ _ _)

/-- With two sets of annotations `keepBeside` is accepted, the type returned is the one `keep` has in the scope, and one
type and effect is found for the number in the first branch. -/
theorem keepBeside_check_alike :
    let t := keepBeside (.pureArrow (.base .int) (.base .int)) (.option (.base .int))
    let t' := keepBeside (.pureArrow (.base .bool) (.base .bool)) (.option (.var ⟨0⟩))
    t.Alike t' ∧ t.check {} sampleScope = .ok (.pureArrow (.var ⟨0⟩) (.var ⟨0⟩), .pure) ∧
    (∃ out, t'.check {} sampleScope = .ok out ∧ out = (.pureArrow (.var ⟨0⟩) (.var ⟨0⟩), .pure)) ∧
    ∃ found, t.Finds {} sampleScope [.letBound, .branchBody 0] (.var (.base .int) "m") found ∧
      t'.Finds {} sampleScope [.letBound, .branchBody 0] (.var (.base .int) "m") found := by
  intro t t'
  have halike : t.Alike t' := keepBeside_alike _ _ _ _
  have hok : t.check {} sampleScope = .ok (.pureArrow (.var ⟨0⟩) (.var ⟨0⟩), .pure) := by rfl
  obtain ⟨out', hok'⟩ : ∃ out', t'.check {} sampleScope = .ok out' := ⟨_, by rfl⟩
  obtain ⟨hroot, hplaces⟩ := Term.check_alike {} sampleScope t t' halike
  have hm : t.at? [.letBound, .branchBody 0] = some (.var (.base .int) "m") := rfl
  have hm' : t'.at? [.letBound, .branchBody 0] = some (.var (.base .int) "m") := rfl
  obtain ⟨found, hfound, -⟩ := (Term.finds_root hok).below hm
  obtain ⟨found', hfound', -⟩ := (Term.finds_root hok').below hm'
  obtain ⟨-, rfl⟩ := hplaces _ _ _ _ _ hfound hfound'
  exact ⟨halike, hok, ⟨out', hok', (hroot _ _ hok hok').symm⟩, found, hfound, hfound'⟩

end EffectTyping
