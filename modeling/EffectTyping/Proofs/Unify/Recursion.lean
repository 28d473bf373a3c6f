/-
The solver as a recursion: a call rewrites its two types by the bindings there are, and makes a call for each pair of
parts that have to be equal, in the state that the calls before it have left. A binding made on the way may blow the
types of the later calls up. But it binds a variable that was open in the outer call, and no variable becomes open on
the way; where nothing is bound, the parts are smaller than the whole. So along every nested call the number of open
variables and the size of the rewritten types go down, the first before the second; every call returns, and with what
`step` says.
-/
import EffectTyping.Proofs.Unify.Sequence
import Mathlib.Logic.Relation

namespace EffectTyping.Unify

/-! ## States along calls -/

/-- A call whose equation is taken apart is a call for each of the parts, up to the first failure. -/
theorem step_of_parts {s : Subst} (hs : s.Idempotent) {a b : Ty} {eqs : List Equation}
    (h : demand (s.apply a) (s.apply b) = .parts eqs) : step s a b = stepAll s eqs := by
  have hsettled : Settled s (eqs ++ []) := (settled_step hs a b).parts h
  rw [List.append_nil] at hsettled
  rw [step, solve_of_parts h, List.append_nil, stepAll_eq_solve hs, hsettled.apply_eq_self]

theorem stepAll_eq_run {s s' : Subst} {eqs : List Equation} (h : stepAll s eqs = (.ok (), s')) : s' = run s eqs := by
  induction eqs generalizing s with
  | nil => cases h; rfl
  | cons e eqs ih =>
    obtain ⟨a, b⟩ := e
    rw [stepAll] at h
    rw [run_cons]
    rcases hstep : step s a b with ⟨_ | _, next⟩
    · rw [hstep] at h; cases h
    · rw [hstep] at h; exact ih h

theorem reachable_run {s : Subst} (hs : Reachable s) (eqs : List Equation) : Reachable (run s eqs) := by
  induction eqs generalizing s with
  | nil => exact hs
  | cons e eqs ih => exact ih (.step e.1 e.2 hs)

/-- A later state that binds no other variables is the same. -/
theorem Extends.eq_of_unbound {s s' : Subst} (h : Extends s s') (hs : s.Idempotent)
    (hunbound : ∀ v, s.get? v = none → s'.get? v = none) : s' = s := by
  refine OrderedMap.ext fun v => ?_
  cases hv : s.get? v with
  | none => exact hunbound v hv
  | some t =>
    have hfixed : s'.apply t = t := Subst.apply_eq_self_iff.2 fun w hw =>
      Subst.image_of_get?_none (hunbound w (hs v t hv w hw))
    have himage : s'.image v = t := by
      have habs := h.absorbs (.var v)
      rwa [Subst.apply, Subst.image_of_get? hv, hfixed, Subst.apply, eq_comm] at habs
    have hbound : (s'.get? v).isSome := h.keeps v (by rw [OrderedMap.contains, hv]; rfl)
    obtain ⟨u, hu⟩ := Option.isSome_iff_exists.1 hbound
    rw [Subst.image_of_get? hu] at himage
    rw [hu, himage]

/-! ## Calls -/

/-- A call of the solver in a state. -/
structure Call where
  state : Subst
  left : Ty
  right : Ty

namespace Call

/-- What the equation asks for once the bindings are put in. -/
def demand (c : Call) : Demand := Unify.demand (c.state.apply c.left) (c.state.apply c.right)

mutual

/-- A call returns this result. -/
inductive Returns : Call → Except UnifyError Unit × Subst → Prop
  | parts {c : Call} {eqs : List Equation} {result : Except UnifyError Unit × Subst} :
      c.demand = .parts eqs → ReturnsAll c.state eqs result → Returns c result
  | binding {c : Call} {v : TypeVar} {t : Ty} : c.demand = .binding v t → Returns c (.ok (), c.state.bind v t)
  | impossible {c : Call} {e : UnifyError} : c.demand = .impossible e → Returns c (.error e, c.state)

/-- Calls for equations one after the other, each in the state that the one before has left, return this result. -/
inductive ReturnsAll : Subst → List Equation → Except UnifyError Unit × Subst → Prop
  | nil (s : Subst) : ReturnsAll s [] (.ok (), s)
  | cons {s s' : Subst} {a b : Ty} {eqs : List Equation} {result : Except UnifyError Unit × Subst} :
      Returns ⟨s, a, b⟩ (.ok (), s') → ReturnsAll s' eqs result → ReturnsAll s ((a, b) :: eqs) result
  | stop {s s' : Subst} {a b : Ty} {eqs : List Equation} {e : UnifyError} :
      Returns ⟨s, a, b⟩ (.error e, s') → ReturnsAll s ((a, b) :: eqs) (.error e, s')

end

/-- A call makes a nested one for a part of its equation, when those for the parts before have returned with success. -/
inductive Makes : Call → Call → Prop
  | part {c : Call} {before after : List Equation} {a b : Ty} {s : Subst} :
      c.demand = .parts (before ++ (a, b) :: after) → ReturnsAll c.state before (.ok (), s) → Makes c ⟨s, a, b⟩

/-- The variables of the types and of the bound types that are not bound yet. -/
def openVars (c : Call) : List TypeVar :=
  (c.left.vars ++ c.right.vars ++ c.state.toList.flatMap (·.2.vars)).filter (!c.state.contains ·)

/-- How many variables are open, and how large the types are once the bindings are put in. -/
def rank (c : Call) : Nat × Nat :=
  (distinctCount c.openVars, (c.state.apply c.left).size + (c.state.apply c.right).size)

/-! ## What calls return -/

mutual

theorem Returns.eq_step : ∀ {c : Call} {result : Except UnifyError Unit × Subst}, c.Returns result →
    c.state.Idempotent → result = step c.state c.left c.right
  | _, _, .parts h hall, hs => by rw [step_of_parts hs h]; exact hall.eq_stepAll hs
  | _, _, .binding h, _ => by rw [step, solve_of_binding h]; exact (solve_nil _).symm
  | _, _, .impossible h, _ => by rw [step, solve_of_impossible h]

theorem ReturnsAll.eq_stepAll : ∀ {s : Subst} {eqs : List Equation} {result : Except UnifyError Unit × Subst},
    ReturnsAll s eqs result → s.Idempotent → result = stepAll s eqs
  | _, _, _, .nil s, _ => by rw [stepAll]
  | _, _, _, @ReturnsAll.cons s s' a b _ _ hcall hrest, hs => by
    have hstep : (.ok (), s') = step s a b := hcall.eq_step hs
    have hs' : s'.Idempotent := by
      have hnext := step_idempotent hs a b
      rwa [← hstep] at hnext
    rw [stepAll, ← hstep]; exact hrest.eq_stepAll hs'
  | _, _, _, .stop hcall, hs => by rw [stepAll, ← hcall.eq_step hs]; rfl

end

theorem ReturnsAll.eq_run {s s' : Subst} {eqs : List Equation} (h : ReturnsAll s eqs (.ok (), s'))
    (hs : s.Idempotent) : s' = run s eqs :=
  stepAll_eq_run (h.eq_stepAll hs).symm

/-- One more call after others that have succeeded. -/
theorem ReturnsAll.snoc : ∀ {s s' s'' : Subst} {eqs : List Equation} {a b : Ty}, ReturnsAll s eqs (.ok (), s') →
    Returns ⟨s', a, b⟩ (.ok (), s'') → ReturnsAll s (eqs ++ [(a, b)]) (.ok (), s'')
  | _, _, _, _, _, _, .nil _, hcall => .cons hcall (.nil _)
  | _, _, _, _, _, _, .cons hfirst hrest, hcall => .cons hfirst (hrest.snoc hcall)

/-! ## Open variables -/

theorem mem_openVars {c : Call} {w : TypeVar} : w ∈ c.openVars ↔
    c.state.get? w = none ∧ (w ∈ c.left.vars ∨ w ∈ c.right.vars ∨ ∃ v t, c.state.get? v = some t ∧ w ∈ t.vars) := by
  simp only [openVars, List.mem_filter, List.mem_append, List.mem_flatMap, Prod.exists, OrderedMap.mem_toList,
    OrderedMap.contains, Bool.not_eq_true', Option.isSome_eq_false_iff, Option.isNone_iff_eq_none, or_assoc]
  exact and_comm

section

variable {c : Call} (hs : c.state.Idempotent)
include hs

theorem mem_openVars_of_bound {v w : TypeVar} {t : Ty} (hv : c.state.get? v = some t) (hw : w ∈ t.vars) :
    w ∈ c.openVars :=
  mem_openVars.2 ⟨hs v t hv w hw, .inr (.inr ⟨v, t, hv, hw⟩)⟩

/-- What is left of the types once the bindings are put in are open variables. -/
theorem mem_openVars_of_apply {w : TypeVar}
    (hw : w ∈ (c.state.apply c.left).vars ∨ w ∈ (c.state.apply c.right).vars) : w ∈ c.openVars := by
  have hside : ∀ {t : Ty}, w ∈ (c.state.apply t).vars → c.state.get? w = none ∧
      (w ∈ t.vars ∨ ∃ v u, c.state.get? v = some u ∧ w ∈ u.vars) := fun h =>
    ⟨hs.get?_of_mem_apply h, (Subst.unbound_or_bound_of_mem_apply h).imp_left And.left⟩
  rw [mem_openVars]
  rcases hw with hw | hw
  · exact (hside hw).imp_right (Or.imp_right .inr)
  · exact (hside hw).imp_right .inr

/-- Calls for parts of the equation bind none but open variables, and bring in no others. -/
theorem within_run {eqs : List Equation} (h : ∀ w ∈ Equations.vars eqs, w ∈ c.openVars) :
    Within (fun w => c.state.contains w = true ∨ w ∈ c.openVars) (run c.state eqs) := by
  have hstart : Within (fun w => c.state.contains w = true ∨ w ∈ c.openVars) c.state := by
    refine fun v t hv => ⟨.inl ?_, fun w hw => .inr (mem_openVars_of_bound hs hv hw)⟩
    rw [OrderedMap.contains, hv]; rfl
  exact run_within hstart fun w hw => .inr (h w hw)

/-! ## Nested calls -/

section

variable {before after : List Equation} {a b : Ty} (h : c.demand = .parts (before ++ (a, b) :: after))
include h

theorem mem_openVars_of_before {w : TypeVar} (hw : w ∈ Equations.vars before) : w ∈ c.openVars := by
  refine mem_openVars_of_apply hs ((demand_parts h).2 w ?_)
  rw [Equations.vars_append]; exact List.mem_append_left _ hw

theorem mem_openVars_of_part {w : TypeVar} (hw : w ∈ a.vars ∨ w ∈ b.vars) : w ∈ c.openVars := by
  refine mem_openVars_of_apply hs ((demand_parts h).2 w ?_)
  rw [Equations.vars_append]; exact List.mem_append_right _ (mem_vars_cons.2 (.inl hw))

/-- No variable is open in a nested call that was not open before. -/
theorem openVars_nested_subset : (Call.mk (run c.state before) a b).openVars ⊆ c.openVars := by
  intro w hw
  obtain ⟨hunbound, hw⟩ := mem_openVars.1 hw
  rcases hw with hw | hw | ⟨v, t, hv, hw⟩
  · exact mem_openVars_of_part hs h (.inl hw)
  · exact mem_openVars_of_part hs h (.inr hw)
  · rcases (within_run hs (fun x => mem_openVars_of_before hs h) v t hv).2 w hw with hbound | hopen
    · -- what the outer call has bound stays bound
      have hstill := (run_extends hs before).keeps w hbound
      rw [OrderedMap.contains, hunbound] at hstill; cases hstill
    · exact hopen

/-- Where the calls before have bound nothing, the rewritten types are smaller. -/
theorem size_nested_lt :
    (c.state.apply a).size + (c.state.apply b).size < (c.state.apply c.left).size + (c.state.apply c.right).size := by
  have hself : ∀ t : Ty, (∀ w ∈ t.vars, w ∈ a.vars ∨ w ∈ b.vars) → c.state.apply t = t := fun t ht =>
    Subst.apply_eq_self_iff.2 fun w hw =>
      Subst.image_of_get?_none (mem_openVars.1 (mem_openVars_of_part hs h (ht w hw))).1
  have hsize := (demand_parts h).1
  simp only [Equations.size_append, Equations.size, Equation.size] at hsize
  rw [hself a fun w hw => .inl hw, hself b fun w hw => .inr hw]
  omega

/-- Where they have bound something, fewer variables are open. -/
theorem distinctCount_nested_lt (hne : run c.state before ≠ c.state) :
    distinctCount (Call.mk (run c.state before) a b).openVars < distinctCount c.openVars := by
  obtain ⟨v, hfree, hbound⟩ : ∃ v, c.state.get? v = none ∧ (run c.state before).get? v ≠ none := by
    by_contra hall
    refine hne ((run_extends hs before).eq_of_unbound hs fun v hv => ?_)
    by_contra hv'
    exact hall ⟨v, hv, hv'⟩
  obtain ⟨t, ht⟩ := Option.ne_none_iff_exists'.1 hbound
  have hopen : v ∈ c.openVars := by
    rcases (within_run hs (fun x => mem_openVars_of_before hs h) v t ht).1 with hv | hv
    · rw [OrderedMap.contains, hfree] at hv; cases hv
    · exact hv
  refine distinctCount_lt_of_subset (openVars_nested_subset hs h) hopen fun hv => ?_
  rw [(mem_openVars.1 hv).1] at ht; cases ht

end

/-- Along a nested call fewer variables are open, or as many and the rewritten types are smaller. -/
theorem Makes.rank_lt {inner : Call} (h : c.Makes inner) : Prod.Lex (· < ·) (· < ·) inner.rank c.rank := by
  cases h with
  | @part before after a b s' hparts hbefore =>
    obtain rfl := hbefore.eq_run hs
    by_cases hsame : run c.state before = c.state
    · have hle := distinctCount_le_of_subset (openVars_nested_subset hs hparts)
      have hlt := size_nested_lt hs hparts
      rw [hsame] at hle ⊢
      rcases Nat.lt_or_eq_of_le hle with hfewer | hequal
      · exact .left _ _ hfewer
      · rw [rank, rank, hequal]; exact .right _ hlt
    · exact .left _ _ (distinctCount_nested_lt hs hparts hsame)

end

/-! ## Every call returns -/

theorem Makes.reachable {c inner : Call} (hs : Reachable c.state) (h : c.Makes inner) : Reachable inner.state := by
  cases h with
  | part _ hbefore => rw [hbefore.eq_run (reachable_idempotent hs)]; exact reachable_run hs _

/-- Nested calls do not go on for ever. -/
theorem acc_makes {c : Call} (hs : Reachable c.state) : Acc (fun inner outer => Makes outer inner) c := by
  have hwf : WellFounded (InvImage (Prod.Lex (· < ·) (· < ·)) rank) :=
    InvImage.wf rank (Prod.lex Nat.lt_wfRel Nat.lt_wfRel).wf
  induction c using hwf.induction with
  | _ c ih => exact ⟨c, fun inner h => ih inner (h.rank_lt (reachable_idempotent hs)) (h.reachable hs)⟩

/-- Where every nested call returns, so do the calls for the parts that are left. -/
theorem returnsAll_stepAll {c : Call} {eqs : List Equation} (h : c.demand = .parts eqs)
    (hnested : ∀ inner, c.Makes inner → inner.Returns (step inner.state inner.left inner.right))
    (rest : List Equation) :
    ∀ (before : List Equation) (s : Subst), eqs = before ++ rest → ReturnsAll c.state before (.ok (), s) →
      ReturnsAll s rest (stepAll s rest) := by
  -- along the parts: `before` are those whose calls have returned, and `s` is the state they have left
  induction rest with
  | nil => intro before s _ _; exact .nil s
  | cons e rest ih =>
    intro before s heqs hbefore
    obtain ⟨a, b⟩ := e
    rw [heqs] at h
    have hcall : Returns ⟨s, a, b⟩ (step s a b) := hnested _ (.part h hbefore)
    rw [stepAll]
    rcases hstep : step s a b with ⟨_ | _, s'⟩
    · rw [hstep] at hcall; exact .stop hcall
    · rw [hstep] at hcall
      refine .cons hcall (ih (before ++ [(a, b)]) s' ?_ (hbefore.snoc hcall))
      rw [heqs, List.append_assoc]; rfl

theorem returns_step {c : Call} (hs : Reachable c.state) : c.Returns (step c.state c.left c.right) := by
  induction acc_makes hs with
  | intro c _ ih =>
    cases hd : c.demand with
    | parts eqs =>
      rw [step_of_parts (reachable_idempotent hs) hd]
      exact .parts hd (returnsAll_stepAll hd (fun inner h => ih inner h (h.reachable hs)) eqs [] c.state rfl (.nil _))
    | binding v t =>
      rw [step, solve_of_binding hd, Equations.apply, List.map_nil, solve_nil]; exact .binding hd
    | impossible e =>
      rw [step, solve_of_impossible hd]; exact .impossible hd

end Call

/-- In every reachable state the recursion of a call comes to an end: it returns exactly one result, that of `step`, and
there is no endless chain of nested calls. Every nested call, at any depth, starts in a reachable state, and along it
the number of open variables and the size of the rewritten types go down, the first before the second. -/
theorem call_terminates {s : Subst} (hs : Reachable s) (a b : Ty) :
    (∀ result, Call.Returns ⟨s, a, b⟩ result ↔ result = step s a b) ∧
    Acc (fun inner outer => Call.Makes outer inner) ⟨s, a, b⟩ ∧
    ∀ outer inner, Relation.ReflTransGen Call.Makes ⟨s, a, b⟩ outer → outer.Makes inner →
      Reachable inner.state ∧ Prod.Lex (· < ·) (· < ·) inner.rank outer.rank := by
  have hreach : ∀ outer, Relation.ReflTransGen Call.Makes ⟨s, a, b⟩ outer → Reachable outer.state := by
    intro outer h
    induction h with
    | refl => exact hs
    | tail _ hmakes ih => exact hmakes.reachable ih
  refine ⟨fun result => ⟨fun h => h.eq_step (reachable_idempotent hs), ?_⟩, Call.acc_makes hs, ?_⟩
  · rintro rfl
    exact Call.returns_step hs
  · intro outer inner h hmakes
    have houter := hreach outer h
    exact ⟨hmakes.reachable houter, hmakes.rank_lt (reachable_idempotent houter)⟩

/-- In the state `t2 := (t0 * t0 * t0)` the call for `(t0 * t2) = ((int * int * int) * t1)` binds `t0` first. The types
of its second nested call are larger than its own, but only `t1` is open then. -/
theorem call_terminates_growing :
    let s := (step .empty (.var ⟨2⟩) (.tuple [.var ⟨0⟩, .var ⟨0⟩, .var ⟨0⟩])).2
    let outer : Call := ⟨s, .tuple [.var ⟨0⟩, .var ⟨2⟩],
      .tuple [.tuple [.base .int, .base .int, .base .int], .var ⟨1⟩]⟩
    Reachable s ∧ ∃ inner, outer.Makes inner ∧ outer.rank = (2, 12) ∧ inner.rank = (1, 14) ∧
      Prod.Lex (· < ·) (· < ·) inner.rank outer.rank := by
  intro s outer
  have hreach : Reachable s := .step _ _ .start
  have hbound : step .empty (.var ⟨2⟩) (.tuple [.var ⟨0⟩, .var ⟨0⟩, .var ⟨0⟩]) =
      (.ok (), .singleton ⟨2⟩ (.tuple [.var ⟨0⟩, .var ⟨0⟩, .var ⟨0⟩])) := (solve_of_binding rfl).trans (solve_nil _)
  have hs : s = .singleton ⟨2⟩ (.tuple [.var ⟨0⟩, .var ⟨0⟩, .var ⟨0⟩]) := congrArg Prod.snd hbound
  have hdemand : outer.demand = .parts ([(.var ⟨0⟩, .tuple [.base .int, .base .int, .base .int])] ++
      [(.tuple [.var ⟨0⟩, .var ⟨0⟩, .var ⟨0⟩], .var ⟨1⟩)]) := by simp only [outer, hs]; rfl
  have hfirst : Call.ReturnsAll s [(.var ⟨0⟩, .tuple [.base .int, .base .int, .base .int])]
      (.ok (), s.bind ⟨0⟩ (.tuple [.base .int, .base .int, .base .int])) := by
    refine .cons (.binding ?_) (.nil _)
    simp only [hs]; rfl
  have hmakes := Call.Makes.part hdemand hfirst
  refine ⟨hreach, _, hmakes, ?_, ?_, ((call_terminates hreach _ _).2.2 _ _ .refl hmakes).2⟩
  · simp only [outer, hs]; rfl
  · simp only [hs]; rfl

end EffectTyping.Unify
