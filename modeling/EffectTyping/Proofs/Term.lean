/-
Induction on patterns, with the hypothesis for every argument of a constructor, and on terms, with the hypothesis for
every element of a list, every argument of a constructor and the body of every branch. Following steps into a term: one
after the other, none of them into a pattern, and each to a subterm of smaller depth.
-/
import EffectTyping.Term.Path

namespace EffectTyping

@[elab_as_elim]
theorem Pattern.induct {motive : Pattern → Prop} (var : ∀ name, motive (.var name))
    (ctor : ∀ ty tag args, (∀ p ∈ args, motive p) → motive (.ctor ty tag args)) (p : Pattern) : motive p :=
  @Pattern.rec motive (fun ps => ∀ p ∈ ps, motive p) var ctor
    (List.forall_mem_nil _) (fun _ _ hp hps => List.forall_mem_cons.2 ⟨hp, hps⟩) p

namespace Term

@[elab_as_elim]
theorem induct {motive : Term → Prop} (lit : ∀ l, motive (.lit l)) (var : ∀ ty name, motive (.var ty name))
    (list : ∀ ty elems eff, (∀ t ∈ elems, motive t) → motive (.list ty elems eff))
    (ctor : ∀ ty tag args eff, (∀ t ∈ args, motive t) → motive (.ctor ty tag args eff))
    (cases : ∀ ty scrutinee branches eff, motive scrutinee → (∀ b ∈ branches, motive b.2) →
      motive (.cases ty scrutinee branches eff))
    (lambda : ∀ ty param paramTy body, motive body → motive (.lambda ty param paramTy body))
    (apply : ∀ ty fn argTy arg eff, motive fn → motive arg → motive (.apply ty fn argTy arg eff))
    (letIn : ∀ name boundTy bound body ty eff, motive bound → motive body →
      motive (.letIn name boundTy bound body ty eff))
    (cond : ∀ ty test thenBranch elseBranch eff, motive test → motive thenBranch → motive elseBranch →
      motive (.cond ty test thenBranch elseBranch eff)) (t : Term) : motive t :=
  @Term.rec motive (fun ts => ∀ t ∈ ts, motive t) (fun bs => ∀ b ∈ bs, motive b.2) (fun b => motive b.2)
    lit var list ctor cases lambda apply letIn cond
    (List.forall_mem_nil _) (fun _ _ ht hts => List.forall_mem_cons.2 ⟨ht, hts⟩)
    (List.forall_mem_nil _) (fun _ _ hb hbs => List.forall_mem_cons.2 ⟨hb, hbs⟩)
    (fun _ _ ht => ht) t

theorem depth_pos (t : Term) : 0 < t.depth := by
  cases t <;> rw [depth] <;> omega

/-! ## Steps -/

theorem at?_cons (t : Term) (step : Step) (steps : List Step) :
    t.at? (step :: steps) = (t.child? step).bind (·.at? steps) := rfl

theorem at?_append (t : Term) (p q : List Step) : t.at? (p ++ q) = (t.at? p).bind (·.at? q) :=
  List.foldlM_append

theorem isPattern_of_child? {t u : Term} {step : Step} (h : t.child? step = some u) : step.isPattern = false := by
  cases hpattern : step.isPattern with
  | false => rfl
  | true => cases step <;> cases hpattern <;> cases t <;> cases h

/-- Steps into patterns lead to no term. -/
theorem isPattern_of_at? {t u : Term} {steps : List Step} (h : t.at? steps = some u) :
    ∀ step ∈ steps, step.isPattern = false := by
  induction steps generalizing t with
  | nil => exact List.forall_mem_nil _
  | cons step steps ih =>
    rw [at?_cons] at h
    obtain ⟨v, hv, h⟩ := Option.bind_eq_some_iff.1 h
    exact List.forall_mem_cons.2 ⟨isPattern_of_child? hv, ih h⟩

theorem depth_le_depthAll {ts : List Term} {i : Nat} {u : Term} (h : ts[i]? = some u) : u.depth ≤ depthAll ts := by
  induction ts generalizing i with
  | nil => cases h
  | cons t ts ih =>
    rw [depthAll]
    cases i with
    | zero => cases h; omega
    | succ i =>
      have := ih h
      omega

theorem depth_le_depthBranches {branches : List (Pattern × Term)} {i : Nat} {b : Pattern × Term}
    (h : branches[i]? = some b) : b.2.depth ≤ depthBranches branches := by
  induction branches generalizing i with
  | nil => cases h
  | cons branch rest ih =>
    obtain ⟨pattern, body⟩ := branch
    rw [depthBranches]
    cases i with
    | zero => cases h; exact Nat.le_max_left _ _
    | succ i =>
      have := ih h
      omega

theorem depth_lt_of_child? {t u : Term} {step : Step} (h : t.child? step = some u) : u.depth < t.depth := by
  unfold child? at h
  split at h
  · have := depth_le_depthAll h
    rw [depth]; omega
  · have := depth_le_depthAll h
    rw [depth]; omega
  · cases h; rw [depth]; omega
  · obtain ⟨b, hb, rfl⟩ := Option.map_eq_some_iff.1 h
    have := depth_le_depthBranches hb
    rw [depth]; omega
  -- the other forms have single parts
  all_goals cases h
  all_goals rw [depth]; omega

/-- Every step leaves a term that is less deep. -/
theorem length_add_depth_le_of_at? {t u : Term} {steps : List Step} (h : t.at? steps = some u) :
    steps.length + u.depth ≤ t.depth := by
  induction steps generalizing t with
  | nil => cases h; simp
  | cons step steps ih =>
    rw [at?_cons] at h
    obtain ⟨v, hv, h⟩ := Option.bind_eq_some_iff.1 h
    have hlt := depth_lt_of_child? hv
    have hle := ih h
    rw [List.length_cons]; omega

end Term

end EffectTyping
