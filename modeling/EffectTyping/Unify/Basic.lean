/-
Solving type equations. Latent effects are ignored: two arrows agree if their arguments and results do. The
pending equations are worked off from left to right; a variable bound on the way is replaced at once in the
equations still pending and in the bindings made before, so that the solution stays idempotent. A failure
leaves the bindings made up to it.
-/
import EffectTyping.Unify.Measure

namespace EffectTyping

/-- Why an equation has no solution. -/
inductive UnifyError where
  /-- The two types are built differently. -/
  | mismatch (left right : Ty)
  /-- The variable would have to be a proper part of itself. -/
  | occurs (v : TypeVar) (t : Ty)
  /-- Two tuples of different lengths. -/
  | arity (left right : Nat)
  deriving DecidableEq, Repr

def UnifyError.message : UnifyError → String
  | mismatch left right => "type mismatch: " ++ left.render ++ " vs " ++ right.render
  | occurs v t => "occurs check failed: " ++ v.name ++ " in " ++ t.render
  | arity left right => "tuple arity mismatch: " ++ toString left ++ " vs " ++ toString right

namespace Unify

/-- What one equation asks for. -/
inductive Demand where
  /-- Its parts have to be equal. -/
  | parts (eqs : List Equation)
  /-- A variable has to be bound; it does not occur in the type. -/
  | binding (v : TypeVar) (t : Ty)
  | impossible (e : UnifyError)

/-- What an equation between a variable and a type asks for. -/
def demandVar (v : TypeVar) (t : Ty) : Demand :=
  if t = .var v then .parts []
  else if t.occurs v then .impossible (.occurs v t)
  else .binding v t

/-- What an equation asks for. Of two variables the left one is bound. -/
def demand : Ty → Ty → Demand
  | .var v, t => demandVar v t
  | t, .var v => demandVar v t
  | .base b, .base c => if b = c then .parts [] else .impossible (.mismatch (.base b) (.base c))
  | .option t, .option u => .parts [(t, u)]
  | .list t, .list u => .parts [(t, u)]
  | .tuple ts, .tuple us =>
    if ts.length = us.length then .parts (ts.zip us) else .impossible (.arity ts.length us.length)
  | .arrow a _ r, .arrow b _ q => .parts [(a, b), (r, q)]
  | t, u => .impossible (.mismatch t u)

/-! ## Every step lowers the measure -/

theorem demandVar_parts {v : TypeVar} {t : Ty} {eqs : List Equation} (h : demandVar v t = .parts eqs) :
    eqs = [] := by
  unfold demandVar at h
  split at h
  · simpa using h.symm
  · split at h <;> simp at h

theorem demandVar_binding {v w : TypeVar} {t u : Ty} (h : demandVar v t = .binding w u) :
    w = v ∧ u = t ∧ v ∉ t.vars := by
  unfold demandVar at h
  split at h
  · simp at h
  · split at h
    · simp at h
    · rename_i ho
      simp only [Demand.binding.injEq] at h
      refine ⟨h.1.symm, h.2.symm, ?_⟩
      rwa [Ty.occurs_iff_mem_vars] at ho

theorem zip_parts (ts us : List Ty) :
    Equations.size (ts.zip us) ≤ Ty.sizeAll ts + Ty.sizeAll us ∧
      ∀ v ∈ Equations.vars (ts.zip us), v ∈ Ty.varsAll ts ∨ v ∈ Ty.varsAll us := by
  induction ts generalizing us with
  | nil => simp [Equations.size, Equations.vars]
  | cons t ts ih =>
    cases us with
    | nil => simp [Equations.size, Equations.vars]
    | cons u us =>
      obtain ⟨hs, hv⟩ := ih us
      constructor
      · simp only [Equations.size, Equation.size, List.zip_cons_cons, Ty.sizeAll] at hs ⊢
        omega
      · intro v h
        simp only [Equations.vars, List.zip_cons_cons, List.flatMap_cons, Equation.vars,
          List.mem_append] at h
        simp only [Ty.varsAll, List.mem_append]
        rcases h with (h | h) | h
        · exact .inl (.inl h)
        · exact .inr (.inl h)
        · rcases hv v h with h | h
          · exact .inl (.inr h)
          · exact .inr (.inr h)

/-- The parts of an equation are smaller and mention only its variables. -/
theorem demand_parts {t u : Ty} {eqs : List Equation} (h : demand t u = .parts eqs) :
    Equations.size eqs < t.size + u.size ∧ ∀ v ∈ Equations.vars eqs, v ∈ t.vars ∨ v ∈ u.vars := by
  have hnil : eqs = [] → Equations.size eqs < t.size + u.size ∧
      ∀ v ∈ Equations.vars eqs, v ∈ t.vars ∨ v ∈ u.vars := by
    rintro rfl
    have := Ty.size_pos t
    simp [Equations.size, Equations.vars]
    omega
  unfold demand at h
  split at h
  · exact hnil (demandVar_parts h)
  · exact hnil (demandVar_parts h)
  · split at h
    · exact hnil (by simpa using h.symm)
    · simp at h
  · simp only [Demand.parts.injEq] at h
    subst h
    simp [Equations.size, Equation.size, Equations.vars, Equation.vars, Ty.size, Ty.vars]
    omega
  · simp only [Demand.parts.injEq] at h
    subst h
    simp [Equations.size, Equation.size, Equations.vars, Equation.vars, Ty.size, Ty.vars]
    omega
  · rename_i ts us
    split at h
    · simp only [Demand.parts.injEq] at h
      subst h
      obtain ⟨hs, hv⟩ := zip_parts ts us
      refine ⟨?_, by simpa only [Ty.vars] using hv⟩
      simp only [Ty.size]
      omega
    · simp at h
  · simp only [Demand.parts.injEq] at h
    subst h
    constructor
    · simp [Equations.size, Equation.size, Ty.size]
      omega
    · intro v hv
      simp only [Equations.vars, Equation.vars, List.flatMap_cons, List.flatMap_nil, List.append_nil,
        List.mem_append, Ty.vars] at hv ⊢
      rcases hv with (h | h) | h | h
      · exact .inl (.inl h)
      · exact .inr (.inl h)
      · exact .inl (.inr h)
      · exact .inr (.inr h)
  · simp at h

/-- A binding an equation asks for is between one of its variables and one of its sides. -/
theorem demand_binding {t u : Ty} {v : TypeVar} {r : Ty} (h : demand t u = .binding v r) :
    ((t = .var v ∧ u = r) ∨ (u = .var v ∧ t = r)) ∧ v ∉ r.vars := by
  unfold demand at h
  split at h
  · obtain ⟨rfl, rfl, hv⟩ := demandVar_binding h
    exact ⟨.inl ⟨rfl, rfl⟩, hv⟩
  · obtain ⟨rfl, rfl, hv⟩ := demandVar_binding h
    exact ⟨.inr ⟨rfl, rfl⟩, hv⟩
  · split at h <;> simp at h
  · simp at h
  · simp at h
  · split at h <;> simp at h
  · simp at h
  · simp at h

theorem measure_parts {t u : Ty} {eqs rest : List Equation} (h : demand t u = .parts eqs) :
    Prod.Lex (· < ·) (· < ·)
      (distinctCount (Equations.vars (eqs ++ rest)), Equations.size (eqs ++ rest))
      (distinctCount (Equations.vars ((t, u) :: rest)), Equations.size ((t, u) :: rest)) := by
  obtain ⟨hs, hv⟩ := demand_parts h
  have hle : distinctCount (Equations.vars (eqs ++ rest)) ≤
      distinctCount (Equations.vars ((t, u) :: rest)) := by
    apply distinctCount_le_of_subset
    intro v hm
    rw [Equations.vars_append, List.mem_append] at hm
    simp only [Equations.vars, List.flatMap_cons, Equation.vars, List.mem_append]
    rcases hm with hm | hm
    · exact .inl (hv v hm)
    · exact .inr hm
  have hlt : Equations.size (eqs ++ rest) < Equations.size ((t, u) :: rest) := by
    rw [Equations.size_append]
    simp only [Equations.size, Equation.size] at hs ⊢
    omega
  rcases Nat.lt_or_eq_of_le hle with hlt' | heq
  · exact Prod.Lex.left _ _ hlt'
  · rw [heq]
    exact Prod.Lex.right _ hlt

theorem measure_binding {t u : Ty} {v : TypeVar} {r : Ty} {rest : List Equation}
    (h : demand t u = .binding v r) :
    Prod.Lex (· < ·) (· < ·)
      (distinctCount (Equations.vars (Equations.apply (.singleton v r) rest)),
        Equations.size (Equations.apply (.singleton v r) rest))
      (distinctCount (Equations.vars ((t, u) :: rest)), Equations.size ((t, u) :: rest)) := by
  obtain ⟨hsides, hv⟩ := demand_binding h
  apply Prod.Lex.left
  apply distinctCount_lt_of_subset (a := v)
  · intro w hw
    simp only [Equations.vars, List.flatMap_cons, Equation.vars, List.mem_append]
    rcases Equations.mem_vars_apply_singleton hw with hw | hw
    · rcases hsides with ⟨-, rfl⟩ | ⟨-, rfl⟩
      · exact .inl (.inr hw)
      · exact .inl (.inl hw)
    · exact .inr hw.2
  · simp only [Equations.vars, List.flatMap_cons, Equation.vars, List.mem_append]
    rcases hsides with ⟨rfl, -⟩ | ⟨rfl, -⟩ <;> simp [Ty.vars]
  · intro hw
    rcases Equations.mem_vars_apply_singleton hw with hw | hw
    · exact hv hw
    · exact hw.1 rfl

/-! ## The solver -/

/-- Extends the solution `s` by the pending equations, from left to right. The equations are taken as already
rewritten by `s`. -/
def solve (s : Subst) : List Equation → Except UnifyError Unit × Subst
  | [] => (.ok (), s)
  | (t, u) :: rest =>
    match _h : demand t u with
    | .parts eqs => solve s (eqs ++ rest)
    | .binding v r => solve (s.bind v r) (Equations.apply (.singleton v r) rest)
    | .impossible e => (.error e, s)
termination_by eqs => (distinctCount (Equations.vars eqs), Equations.size eqs)
decreasing_by
  · exact measure_parts _h
  · exact measure_binding _h

/-- Adds the equation `a = b` to a solution. If it has none, the bindings made before the failure stay. -/
def step (s : Subst) (a b : Ty) : Except UnifyError Unit × Subst := solve s [(s.apply a, s.apply b)]

/-- The states of a solver that starts without bindings and is given equations one after the other, going on
after failures. -/
inductive Reachable : Subst → Prop
  | start : Reachable .empty
  | step {s : Subst} (a b : Ty) : Reachable s → Reachable (step s a b).2

end Unify

/-- The most general solution of one equation. -/
def unify (a b : Ty) : Except UnifyError Subst :=
  match Unify.step .empty a b with
  | (.ok (), s) => .ok s
  | (.error e, _) => .error e

end EffectTyping
