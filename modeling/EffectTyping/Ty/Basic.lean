/-
Types: variables, base types, options, lists, tuples and arrows that carry the effect of a call. Equality of
types is decidable and counts latent effects; `eraseEffects` forgets them.
-/
import EffectTyping.Effect
import EffectTyping.OrderedMap

namespace EffectTyping

/-- A type variable, known by its number. -/
structure TypeVar where
  index : UInt32
  deriving DecidableEq, Repr, Inhabited

namespace TypeVar

instance : Ord TypeVar := ⟨compareOn index⟩

instance : Std.TransOrd TypeVar := inferInstanceAs (Std.TransCmp (compareOn index))

instance : Std.LawfulEqOrd TypeVar where
  eq_of_compare {a b} h := by
    have : a.index = b.index := Std.LawfulEqOrd.eq_of_compare h
    cases a
    cases b
    simpa using this

def name (v : TypeVar) : String := "t" ++ toString v.index.toNat

end TypeVar

/-- The types without components. -/
inductive BaseTy where
  | unit
  | int
  | float
  | bool
  | string
  deriving DecidableEq, Repr, Inhabited

inductive Ty where
  | var (v : TypeVar)
  | base (b : BaseTy)
  | option (t : Ty)
  | list (t : Ty)
  | tuple (ts : List Ty)
  /-- A function; `eff` is the effect of calling it. -/
  | arrow (arg : Ty) (eff : Effect) (res : Ty)
  deriving Repr, Inhabited

namespace Ty

/-- The function type whose calls are pure. -/
def pureArrow (arg res : Ty) : Ty := .arrow arg .pure res

/-- Induction on types, with the hypothesis for every component of a tuple. -/
@[elab_as_elim]
theorem induct {motive : Ty → Prop} (var : ∀ v, motive (.var v)) (base : ∀ b, motive (.base b))
    (option : ∀ t, motive t → motive (.option t)) (list : ∀ t, motive t → motive (.list t))
    (tuple : ∀ ts, (∀ t ∈ ts, motive t) → motive (.tuple ts))
    (arrow : ∀ a e r, motive a → motive r → motive (.arrow a e r)) (t : Ty) : motive t :=
  @Ty.rec motive (fun ts => ∀ t ∈ ts, motive t) var base option list tuple arrow
    (fun _ h => by cases h)
    (fun t ts ht hts u hu => by
      rcases List.mem_cons.mp hu with rfl | hu
      · exact ht
      · exact hts u hu) t

/-! ## Equality -/

mutual

/-- Equality of types, latent effects included. -/
def same : Ty → Ty → Bool
  | .var v, .var w => v == w
  | .base b, .base c => b == c
  | .option t, .option u => same t u
  | .list t, .list u => same t u
  | .tuple ts, .tuple us => sameAll ts us
  | .arrow a e r, .arrow b f q => e == f && same a b && same r q
  | _, _ => false

def sameAll : List Ty → List Ty → Bool
  | [], [] => true
  | t :: ts, u :: us => same t u && sameAll ts us
  | _, _ => false

end

mutual

theorem eq_of_same : ∀ {t u : Ty}, same t u = true → t = u
  | .var _, u, h => by cases u <;> simp_all [same]
  | .base _, u, h => by cases u <;> simp_all [same]
  | .option t, u, h => by
    cases u <;> simp only [same, Bool.false_eq_true] at h
    rw [eq_of_same h]
  | .list t, u, h => by
    cases u <;> simp only [same, Bool.false_eq_true] at h
    rw [eq_of_same h]
  | .tuple ts, u, h => by
    cases u <;> simp only [same, Bool.false_eq_true] at h
    rw [eq_of_sameAll h]
  | .arrow a e r, u, h => by
    cases u <;> simp only [same, Bool.false_eq_true, Bool.and_eq_true, beq_iff_eq] at h
    rw [h.1.1, eq_of_same h.1.2, eq_of_same h.2]

theorem eq_of_sameAll : ∀ {ts us : List Ty}, sameAll ts us = true → ts = us
  | [], us, h => by cases us <;> simp_all [sameAll]
  | t :: ts, us, h => by
    cases us <;> simp only [sameAll, Bool.false_eq_true, Bool.and_eq_true] at h
    rw [eq_of_same h.1, eq_of_sameAll h.2]

end

theorem sameAll_self {ts : List Ty} (h : ∀ t ∈ ts, same t t = true) : sameAll ts ts = true := by
  induction ts with
  | nil => rfl
  | cons t ts ih =>
    rw [sameAll, h t List.mem_cons_self, ih (fun u hu => h u (List.mem_cons_of_mem _ hu))]
    rfl

theorem same_self (t : Ty) : same t t = true := by
  induction t using Ty.induct with
  | var v => simp [same]
  | base b => simp [same]
  | option t ih => simpa [same] using ih
  | list t ih => simpa [same] using ih
  | tuple ts ih => simpa [same] using sameAll_self ih
  | arrow a e r iha ihr => simp [same, iha, ihr]

instance : DecidableEq Ty := fun t u =>
  if h : same t u = true then isTrue (eq_of_same h)
  else isFalse (fun e => h (e ▸ same_self t))

/-! ## Variables -/

mutual

/-- The variables from left to right, each as often as it occurs. -/
def vars : Ty → List TypeVar
  | .var v => [v]
  | .base _ => []
  | .option t => vars t
  | .list t => vars t
  | .tuple ts => varsAll ts
  | .arrow a _ r => vars a ++ vars r

def varsAll : List Ty → List TypeVar
  | [] => []
  | t :: ts => vars t ++ varsAll ts

end

/-- The variables in ascending order, each once. -/
def freeVars (t : Ty) : List TypeVar :=
  (OrderedMap.ofList (t.vars.map fun v => (v, ()))).keys

mutual

/-- Does `v` stand anywhere in the type? -/
def occurs (v : TypeVar) : Ty → Bool
  | .var w => w == v
  | .base _ => false
  | .option t => occurs v t
  | .list t => occurs v t
  | .tuple ts => occursAny v ts
  | .arrow a _ r => occurs v a || occurs v r

def occursAny (v : TypeVar) : List Ty → Bool
  | [] => false
  | t :: ts => occurs v t || occursAny v ts

end

mutual

/-- Is the type free of variables? -/
def isGround : Ty → Bool
  | .var _ => false
  | .base _ => true
  | .option t => isGround t
  | .list t => isGround t
  | .tuple ts => isGroundAll ts
  | .arrow a _ r => isGround a && isGround r

def isGroundAll : List Ty → Bool
  | [] => true
  | t :: ts => isGround t && isGroundAll ts

end

mutual

theorem occurs_iff_mem_vars (v : TypeVar) : ∀ t : Ty, occurs v t = true ↔ v ∈ vars t
  | .var w => by
    simp only [occurs, vars, beq_iff_eq, List.mem_singleton]
    exact eq_comm
  | .base _ => by simp [occurs, vars]
  | .option t => by simpa [occurs, vars] using occurs_iff_mem_vars v t
  | .list t => by simpa [occurs, vars] using occurs_iff_mem_vars v t
  | .tuple ts => by simpa [occurs, vars] using occursAny_iff_mem_varsAll v ts
  | .arrow a _ r => by
    simp only [occurs, vars, Bool.or_eq_true, List.mem_append]
    rw [occurs_iff_mem_vars v a, occurs_iff_mem_vars v r]

theorem occursAny_iff_mem_varsAll (v : TypeVar) : ∀ ts : List Ty, occursAny v ts = true ↔ v ∈ varsAll ts
  | [] => by simp [occursAny, varsAll]
  | t :: ts => by
    simp only [occursAny, varsAll, Bool.or_eq_true, List.mem_append]
    rw [occurs_iff_mem_vars v t, occursAny_iff_mem_varsAll v ts]

end

/-! ## Shape -/

/-- The result at the end of a chain of arrows; a type that is no arrow is its own. -/
def result : Ty → Ty
  | .arrow _ _ r => result r
  | t => t

/-- The number of arguments a function of this type takes one after the other. -/
def arity : Ty → Nat
  | .arrow _ _ r => 1 + arity r
  | _ => 0

mutual

/-- The number of constructors in a type. -/
def size : Ty → Nat
  | .var _ => 1
  | .base _ => 1
  | .option t => size t + 1
  | .list t => size t + 1
  | .tuple ts => sizeAll ts + 1
  | .arrow a _ r => size a + size r + 1

def sizeAll : List Ty → Nat
  | [] => 0
  | t :: ts => size t + sizeAll ts

end

theorem size_pos (t : Ty) : 0 < t.size := by
  cases t <;> simp [size]

mutual

/-- The type with every latent effect set to pure: its shape. -/
def eraseEffects : Ty → Ty
  | .var v => .var v
  | .base b => .base b
  | .option t => .option (eraseEffects t)
  | .list t => .list (eraseEffects t)
  | .tuple ts => .tuple (eraseEffectsAll ts)
  | .arrow a _ r => .arrow (eraseEffects a) .pure (eraseEffects r)

def eraseEffectsAll : List Ty → List Ty
  | [] => []
  | t :: ts => eraseEffects t :: eraseEffectsAll ts

end

end Ty

end EffectTyping
