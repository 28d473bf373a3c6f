/-
Terms, patterns and scopes without type variables. A substitution leaves a ground type as it is, so its only instance is
the type itself; and what a pattern of ground types binds is of ground type, so scopes stay ground.
-/
import EffectTyping.Proofs.Instance
import EffectTyping.Proofs.Ty.Variables
import EffectTyping.Proofs.Typing.Pattern

namespace EffectTyping

/-! ## Ground annotations -/

mutual

/-- Are all types that a pattern declares free of variables? -/
def Pattern.isGround : Pattern → Bool
  | .var _ => true
  | .ctor ty _ args => ty.isGround && Pattern.isGroundAll args

def Pattern.isGroundAll : List Pattern → Bool
  | [] => true
  | p :: ps => p.isGround && Pattern.isGroundAll ps

end

namespace Term

mutual

/-- Are all types that a term and the patterns in it declare free of variables? -/
def isGround : Term → Bool
  | .lit _ => true
  | .var ty _ => ty.isGround
  | .list ty elems _ => ty.isGround && isGroundAll elems
  | .ctor ty _ args _ => ty.isGround && isGroundAll args
  | .cases ty scrutinee branches _ => ty.isGround && isGround scrutinee && isGroundBranches branches
  | .lambda ty _ paramTy body => ty.isGround && paramTy.isGround && isGround body
  | .apply ty fn argTy arg _ => ty.isGround && argTy.isGround && isGround fn && isGround arg
  | .letIn _ boundTy bound body ty _ => boundTy.isGround && ty.isGround && isGround bound && isGround body
  | .cond ty test thenBranch elseBranch _ =>
    ty.isGround && isGround test && isGround thenBranch && isGround elseBranch

def isGroundAll : List Term → Bool
  | [] => true
  | t :: ts => isGround t && isGroundAll ts

def isGroundBranches : List (Pattern × Term) → Bool
  | [] => true
  | (p, t) :: bs => p.isGround && isGround t && isGroundBranches bs

end

theorem isGround_ty {t : Term} (h : t.isGround = true) : t.ty.isGround = true := by
  cases t with
  | lit l => cases l <;> rfl
  | var | list | ctor | cases | lambda | apply | letIn | cond => simp_all [isGround, ty]

end Term

/-- Are all types of a scope free of variables? -/
def Env.isGround (env : Env) : Bool := env.toList.all fun binding => binding.2.isGround

/-! ## Ground types have no other instances -/

namespace Ty

theorem apply_of_isGround {t : Ty} (h : t.isGround = true) (s : Subst) : s.apply t = t := by
  refine Subst.apply_eq_self_iff.2 fun v hv => ?_
  rw [isGround_iff_vars.1 h] at hv
  cases hv

theorem hasInstance_iff_eq {general specific : Ty} (h : general.isGround = true) :
    general.HasInstance specific ↔ general = specific := by
  constructor
  · rintro ⟨s, hs⟩
    rwa [apply_of_isGround h s] at hs
  · rintro rfl
    exact .refl _

theorem instantiation?_of_isGround {general specific : Ty} (h : general.isGround = true) :
    (∃ w, general.instantiation? specific = some w) ↔ general = specific :=
  exists_instantiation_iff.trans (hasInstance_iff_eq h)

end Ty

/-- The parts of a value of ground type are of ground type. -/
theorem Tag.Builds.isGround {tag : Tag} {ty : Ty} {fields : List Ty} (h : tag.Builds ty fields)
    (hty : ty.isGround = true) : ∀ t ∈ fields, t.isGround = true := by
  cases h with
  | tuple hl => exact Ty.isGroundAll_iff.1 hty
  | none t => exact List.forall_mem_nil _
  | some t => exact List.forall_mem_singleton.2 hty

namespace Env

theorem isGround_iff {env : Env} : env.isGround = true ↔ ∀ name ty, env.get? name = some ty → ty.isGround = true := by
  unfold isGround
  simp only [List.all_eq_true, Prod.forall, OrderedMap.mem_toList]

theorem isGround_insert {env : Env} {ty : Ty} (h : env.isGround = true) (hty : ty.isGround = true) (name : String) :
    Env.isGround (env.insert name ty) = true := by
  refine isGround_iff.2 fun other found hfound => ?_
  rw [OrderedMap.get?_insert] at hfound
  split at hfound
  · cases hfound; exact hty
  · exact isGround_iff.1 h other found hfound

theorem isGround_union {env other : Env} (h : env.isGround = true) (hother : other.isGround = true) :
    Env.isGround (env.union other) = true := by
  refine isGround_iff.2 fun name ty hty => ?_
  rw [OrderedMap.get?_union] at hty
  rcases Option.or_eq_some_iff.1 hty with hty | ⟨-, hty⟩
  · exact isGround_iff.1 h name ty hty
  · exact isGround_iff.1 hother name ty hty

end Env

namespace Pattern

mutual

/-- A pattern takes a value of ground type apart into values of ground types. -/
theorem Binds.isGround : ∀ {p : Pattern} {expected : Ty} {bindings : Env}, p.Binds expected bindings →
    expected.isGround = true → bindings.isGround = true
  | .var name, expected, _, h, hexpected => by
    cases h
    exact Env.isGround_insert rfl hexpected name
  | .ctor ty tag args, expected, bindings, h, hexpected => by
    cases h with
    | ctor hty hinst hexp hargs => exact BindAll.isGround hargs (hexp.isGround hexpected)

theorem BindAll.isGround : ∀ {ps : List Pattern} {ts : List Ty} {bindings : Env}, BindAll ps ts bindings →
    (∀ t ∈ ts, t.isGround = true) → bindings.isGround = true
  | [], _, _, h, _ => by cases h; rfl
  | p :: ps, _, _, h, hts => by
    cases h with
    | cons hp hps hd =>
      obtain ⟨ht, hts⟩ := List.forall_mem_cons.1 hts
      exact Env.isGround_union (Binds.isGround hp ht) (BindAll.isGround hps hts)

end

end Pattern

end EffectTyping
