/-
Histories of a solver: equations given one after the other, going on after failures. A later state extends an
earlier one, whatever failed in between: it absorbs the earlier bindings and binds every variable bound before.
So an equation once solved stays solved. The states mention no variable that was not in an equation.
-/
import EffectTyping.Proofs.Unify.Run

namespace EffectTyping.Unify

/-- The state after equations given one after the other to a solver in the state `s`. -/
def run (s : Subst) (eqs : List Equation) : Subst := eqs.foldl (fun s e => (step s e.1 e.2).2) s

theorem run_cons (s : Subst) (e : Equation) (eqs : List Equation) :
    run s (e :: eqs) = run (step s e.1 e.2).2 eqs := rfl

theorem run_append (s : Subst) (eqs later : List Equation) : run s (eqs ++ later) = run (run s eqs) later :=
  List.foldl_append ..

theorem run_idempotent {s : Subst} (hs : s.Idempotent) (eqs : List Equation) : (run s eqs).Idempotent := by
  induction eqs generalizing s with
  | nil => exact hs
  | cons e eqs ih => exact ih (step_idempotent hs e.1 e.2)

/-! ## Later states -/

/-- `s'` absorbs the bindings of `s` and binds every variable that `s` binds. -/
structure Extends (s s' : Subst) : Prop where
  absorbs : ∀ t, s'.apply (s.apply t) = s'.apply t
  keeps : ∀ v, s.contains v = true → s'.contains v = true

theorem Extends.refl {s : Subst} (hs : s.Idempotent) : Extends s s := ⟨hs.apply_apply, fun _ h => h⟩

theorem Extends.trans {s s' s'' : Subst} (h : Extends s s') (h' : Extends s' s'') : Extends s s'' := by
  refine ⟨fun t => ?_, fun v hv => h'.keeps v (h.keeps v hv)⟩
  calc s''.apply (s.apply t) = s''.apply (s'.apply (s.apply t)) := (h'.absorbs _).symm
    _ = s''.apply (s'.apply t) := by rw [h.absorbs]
    _ = s''.apply t := h'.absorbs t

theorem Extends.bind {s s' : Subst} (h : Extends s s') (v : TypeVar) (r : Ty) : Extends s (s'.bind v r) := by
  refine ⟨fun t => ?_, fun w hw => ?_⟩
  · rw [Subst.apply_bind, Subst.apply_bind, h.absorbs]
  · have hw' := h.keeps w hw
    simp only [OrderedMap.contains, Option.isSome_iff_ne_none, ne_eq] at hw' ⊢
    rw [Subst.get?_bind_eq_none_iff]
    exact fun hn => hw' hn.1

theorem solve_extends {s : Subst} (hs : s.Idempotent) (eqs : List Equation) : Extends s (solve s eqs).2 := by
  obtain ⟨left, h, -⟩ := solve_run (P := fun s' _ => Extends s s') (fun _ h => h) (fun _ h => h.bind _ _) s eqs
    (.refl hs)
  exact h

theorem step_extends {s : Subst} (hs : s.Idempotent) (a b : Ty) : Extends s (step s a b).2 := solve_extends hs _

theorem run_extends {s : Subst} (hs : s.Idempotent) (eqs : List Equation) : Extends s (run s eqs) := by
  induction eqs generalizing s with
  | nil => exact .refl hs
  | cons e eqs ih => exact (step_extends hs e.1 e.2).trans (ih (step_idempotent hs e.1 e.2))

/-- What an earlier state equates up to latent effects a later one does too. -/
theorem Extends.alike {s s' : Subst} (h : Extends s s') {a b : Ty}
    (hab : (s.apply a).eraseEffects = (s.apply b).eraseEffects) :
    (s'.apply a).eraseEffects = (s'.apply b).eraseEffects := by
  rw [← h.absorbs a, ← h.absorbs b]
  exact Subst.eraseEffects_apply_congr hab

/-! ## Variables of a state -/

/-- Every variable that is bound or occurs in a bound type is in `V`. -/
def Within (V : TypeVar → Prop) (s : Subst) : Prop := ∀ v t, s.get? v = some t → V v ∧ ∀ w ∈ t.vars, V w

theorem Within.mem_apply {V : TypeVar → Prop} {s : Subst} (hs : Within V s) {t : Ty} (ht : ∀ v ∈ t.vars, V v)
    {w : TypeVar} (hw : w ∈ (s.apply t).vars) : V w := by
  rcases Subst.unbound_or_bound_of_mem_apply hw with ⟨hw, -⟩ | ⟨v, u, hv, hw⟩
  · exact ht w hw
  · exact (hs v u hv).2 w hw

theorem Within.bind {V : TypeVar → Prop} {s : Subst} (hs : Within V s) {v : TypeVar} {r : Ty} (hv : V v)
    (hr : ∀ w ∈ r.vars, V w) : Within V (s.bind v r) := by
  intro x t hx
  rcases Subst.get?_bind_eq_some hx with ⟨rfl, rfl⟩ | ⟨y, hy, rfl⟩
  · exact ⟨hv, hr⟩
  · refine ⟨(hs x y hy).1, fun w hw => ?_⟩
    rcases Subst.mem_vars_apply_singleton hw with hw | ⟨-, hw⟩
    · exact hr w hw
    · exact (hs x y hy).2 w hw

/-- The bindings and the pending equations mention only variables in `V`. -/
def Pending (V : TypeVar → Prop) (s : Subst) (eqs : List Equation) : Prop :=
  Within V s ∧ ∀ v ∈ Equations.vars eqs, V v

theorem Pending.parts {V : TypeVar → Prop} {s : Subst} {t u : Ty} {eqs rest : List Equation}
    (h : demand t u = .parts eqs) (hp : Pending V s ((t, u) :: rest)) : Pending V s (eqs ++ rest) :=
  ⟨hp.1, fun v hv => hp.2 v (mem_vars_of_parts h hv)⟩

theorem Pending.binding {V : TypeVar → Prop} {s : Subst} {t u r : Ty} {v : TypeVar} {rest : List Equation}
    (h : demand t u = .binding v r) (hp : Pending V s ((t, u) :: rest)) :
    Pending V (s.bind v r) (Equations.apply (.singleton v r) rest) := by
  obtain ⟨hs, hv⟩ := hp
  have hbound : ∀ w, w = v ∨ w ∈ r.vars → V w := fun w hw => hv w (mem_vars_of_binding h hw)
  refine ⟨hs.bind (hbound v (.inl rfl)) fun w hw => hbound w (.inr hw), fun w hw => ?_⟩
  rcases Equations.mem_vars_apply_singleton hw with hw | ⟨-, hw⟩
  · exact hbound w (.inr hw)
  · exact hv w (mem_vars_cons.2 (.inr hw))

theorem step_within {V : TypeVar → Prop} {s : Subst} (hs : Within V s) {a b : Ty} (ha : ∀ v ∈ a.vars, V v)
    (hb : ∀ v ∈ b.vars, V v) : Within V (step s a b).2 := by
  have hstart : Pending V s [(s.apply a, s.apply b)] := by
    refine ⟨hs, fun v hv => ?_⟩
    rcases mem_vars_cons.1 hv with (hv | hv) | hv
    · exact hs.mem_apply ha hv
    · exact hs.mem_apply hb hv
    · cases hv
  obtain ⟨left, h, -⟩ := solve_run (P := Pending V) Pending.parts Pending.binding s _ hstart
  exact h.1

theorem run_within {V : TypeVar → Prop} {s : Subst} (hs : Within V s) {eqs : List Equation}
    (h : ∀ v ∈ Equations.vars eqs, V v) : Within V (run s eqs) := by
  induction eqs generalizing s with
  | nil => exact hs
  | cons e eqs ih =>
    have ha : ∀ v ∈ e.1.vars, V v := fun v hv => h v (mem_vars_cons.2 (.inl (.inl hv)))
    have hb : ∀ v ∈ e.2.vars, V v := fun v hv => h v (mem_vars_cons.2 (.inl (.inr hv)))
    exact ih (step_within hs ha hb) fun v hv => h v (mem_vars_cons.2 (.inr hv))

/-! ## Histories -/

/-- Whatever equations a solver that starts without bindings has been `fed`, failed ones included: its state is
idempotent and mentions only their variables; every `later` state absorbs it and binds what it binds; and every
equation that was solved on the way is solved still. -/
theorem run_history (fed later : List Equation) :
    (run .empty fed).isIdempotent = true ∧
    (∀ v t, (run .empty fed).get? v = some t → v ∈ Equations.vars fed ∧ ∀ w ∈ t.vars, w ∈ Equations.vars fed) ∧
    (∀ t, (run .empty (fed ++ later)).apply ((run .empty fed).apply t) = (run .empty (fed ++ later)).apply t) ∧
    (∀ v, (run .empty fed).contains v = true → (run .empty (fed ++ later)).contains v = true) ∧
    ∀ before a b after, fed = before ++ (a, b) :: after → (step (run .empty before) a b).1 = .ok () →
      ((run .empty fed).apply a).eraseEffects = ((run .empty fed).apply b).eraseEffects := by
  have hidem : ∀ eqs, (run .empty eqs).Idempotent := run_idempotent Subst.idempotent_empty
  have hext : Extends (run .empty fed) (run .empty (fed ++ later)) := by
    rw [run_append]; exact run_extends (hidem fed) later
  refine ⟨Subst.isIdempotent_iff.2 (hidem fed), ?_, hext.absorbs, hext.keeps, ?_⟩
  · exact run_within (V := fun v => v ∈ Equations.vars fed) (by intro v t h; cases h) fun v hv => hv
  · rintro before a b after rfl hok
    have hsolved := (step_solves (hidem before) hok).solves _ List.mem_cons_self
    rw [run_append, run_cons]
    exact (run_extends (step_idempotent (hidem before) a b) after).alike hsolved

/-- The second equation binds `t1` and then fails; the first one stays solved. -/
theorem run_history_failure_between :
    let first : Equation := (.var ⟨0⟩, .list (.var ⟨1⟩))
    let second : Equation := (.tuple [.var ⟨1⟩, .base .int], .tuple [.base .bool, .base .string])
    (step .empty first.1 first.2).1 = .ok () ∧
      (step (run .empty [first]) second.1 second.2).1 = .error (.mismatch (.base .int) (.base .string)) ∧
      (run .empty [first, second]).get? ⟨1⟩ = some (.base .bool) ∧
      ((run .empty [first, second]).apply first.1).eraseEffects =
        ((run .empty [first, second]).apply first.2).eraseEffects := by
  intro first second
  have hfirst : step .empty first.1 first.2 = (.ok (), .singleton ⟨0⟩ (.list (.var ⟨1⟩))) := by
    rw [step, Subst.apply_empty, Subst.apply_empty]
    refine (solve_of_binding rfl).trans ?_
    rw [Equations.apply, List.map_nil, solve]; rfl
  have hsecond : step (.singleton ⟨0⟩ (.list (.var ⟨1⟩))) second.1 second.2 =
      (.error (.mismatch (.base .int) (.base .string)),
        .ofList [(⟨0⟩, .list (.base .bool)), (⟨1⟩, .base .bool)]) := by
    refine (solve_of_parts rfl).trans ?_
    exact (solve_of_binding rfl).trans (solve_of_impossible rfl)
  have hok : (step .empty first.1 first.2).1 = .ok () := congrArg Prod.fst hfirst
  have hrun : run .empty [first] = .singleton ⟨0⟩ (.list (.var ⟨1⟩)) := congrArg Prod.snd hfirst
  refine ⟨hok, ?_, ?_, (run_history [first, second] []).2.2.2.2 [] first.1 first.2 [second] rfl hok⟩
  · rw [hrun, hsecond]
  · rw [run_cons, hfirst, run_cons, hsecond]; rfl

end EffectTyping.Unify
