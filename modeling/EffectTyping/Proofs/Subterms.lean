/-
The subterms of a term and the ways to them. The steps that fit a node, from left to right, lead to its immediate
subterms in the order in which it lists them, and to nothing else. So the number of nodes of a term is the number of
ways from the root that lead to a subterm, and its depth is that of the node at the end of the longest one.
-/
import EffectTyping.Proofs.Term
import Mathlib.Data.Set.Card
import Mathlib.Data.List.Forall2
import Mathlib.Order.Bounds.Basic

namespace EffectTyping

/-- The subterm the first step leads to stands before the one the second leads to, in the same node. -/
inductive Step.Before : Step → Step → Prop
  | elems {i j : Nat} : i < j → Before (.listElem i) (.listElem j)
  | args {i j : Nat} : i < j → Before (.ctorArg i) (.ctorArg j)
  | branch (i : Nat) : Before .scrutinee (.branchBody i)
  | branches {i j : Nat} : i < j → Before (.branchBody i) (.branchBody j)
  | arg : Before .applyFn .applyArg
  | body : Before .letBound .letBody
  | testThen : Before .condTest .condThen
  | testElse : Before .condTest .condElse
  | thenElse : Before .condThen .condElse

theorem Step.Before.ne {step next : Step} (h : Before step next) : step ≠ next := by
  rintro rfl
  cases h with
  | elems h => exact Nat.lt_irrefl _ h
  | args h => exact Nat.lt_irrefl _ h
  | branches h => exact Nat.lt_irrefl _ h

namespace Term

/-! ## The steps that fit a node -/

/-- The steps that fit the node, from left to right. -/
def steps : Term → List Step
  | .lit _ | .var _ _ => []
  | .list _ elems _ => (List.range elems.length).map .listElem
  | .ctor _ _ args _ => (List.range args.length).map .ctorArg
  | .cases _ _ branches _ => .scrutinee :: (List.range branches.length).map .branchBody
  | .lambda _ _ _ _ => [.lambdaBody]
  | .apply _ _ _ _ _ => [.applyFn, .applyArg]
  | .letIn _ _ _ _ _ _ => [.letBound, .letBody]
  | .cond _ _ _ _ _ => [.condTest, .condThen, .condElse]

theorem numbered_pairwise {number : Nat → Step} (h : ∀ {i j}, i < j → Step.Before (number i) (number j)) (n : Nat) :
    ((List.range n).map number).Pairwise Step.Before :=
  List.pairwise_map.2 (List.pairwise_lt_range.imp h)

theorem steps_pairwise (t : Term) : t.steps.Pairwise Step.Before := by
  cases t with
  | lit l => exact .nil
  | var ty name => exact .nil
  | list ty elems eff => exact numbered_pairwise .elems _
  | ctor ty tag args eff => exact numbered_pairwise .args _
  | cases ty scrutinee branches eff =>
    refine List.pairwise_cons.2 ⟨fun step hstep => ?_, numbered_pairwise .branches _⟩
    obtain ⟨i, -, rfl⟩ := List.mem_map.1 hstep
    exact .branch i
  | lambda ty param paramTy body => exact List.pairwise_singleton _ _
  | apply ty fn argTy arg eff => exact List.pairwise_pair.2 .arg
  | letIn name boundTy bound body ty eff => exact List.pairwise_pair.2 .body
  | cond ty test thenBranch elseBranch eff =>
    refine List.pairwise_cons.2 ⟨?_, List.pairwise_pair.2 .thenElse⟩
    simp [Step.Before.testThen, Step.Before.testElse]

theorem nodup_steps (t : Term) : t.steps.Nodup := t.steps_pairwise.imp Step.Before.ne

theorem mem_steps_iff {t : Term} {step : Step} : step ∈ t.steps ↔ (t.child? step).isSome := by
  cases t <;> cases step <;> simp [steps, child?]

theorem map_range_getElem? {α : Type} (l : List α) : (List.range l.length).map (l[·]?) = l.map some := by
  refine List.ext_getElem (by simp) fun i hi _ => ?_
  simp at hi ⊢

/-- The steps lead to the immediate subterms, one after the other. -/
theorem map_child?_steps (t : Term) : t.steps.map t.child? = t.children.map some := by
  cases t with
  | list ty elems eff => exact (List.map_map ..).trans (map_range_getElem? elems)
  | ctor ty tag args eff => exact (List.map_map ..).trans (map_range_getElem? args)
  | cases ty scrutinee branches eff =>
    have hbodies := map_range_getElem? (branches.map (·.2))
    simp only [List.length_map, List.getElem?_map] at hbodies
    rw [steps, children, List.map_cons, List.map_cons, List.map_map]
    exact congrArg _ hbodies
  | _ => rfl

theorem forall₂_steps (t : Term) : List.Forall₂ (fun step u => t.child? step = some u) t.steps t.children := by
  have h : List.Forall₂ (· = ·) (t.steps.map t.child?) (t.children.map some) := by
    rw [map_child?_steps]; exact List.forall₂_refl _
  rwa [List.forall₂_map_left_iff, List.forall₂_map_right_iff] at h

theorem mem_children_iff {t u : Term} : u ∈ t.children ↔ ∃ step, t.child? step = some u := by
  have hmem : some u ∈ t.steps.map t.child? ↔ u ∈ t.children := by
    rw [map_child?_steps, List.mem_map_of_injective (Option.some_injective _)]
  rw [← hmem, List.mem_map]
  constructor
  · rintro ⟨step, -, hstep⟩
    exact ⟨step, hstep⟩
  · rintro ⟨step, hstep⟩
    exact ⟨step, mem_steps_iff.2 (Option.isSome_of_eq_some hstep), hstep⟩

/-! ## Size and depth through the immediate subterms -/

theorem sizeBranches_eq (branches : List (Pattern × Term)) : sizeBranches branches = sizeAll (branches.map (·.2)) := by
  induction branches with
  | nil => rfl
  | cons branch branches ih => rw [List.map_cons, sizeAll, ← ih, sizeBranches]

theorem depthBranches_eq (branches : List (Pattern × Term)) :
    depthBranches branches = depthAll (branches.map (·.2)) := by
  induction branches with
  | nil => rfl
  | cons branch branches ih => rw [List.map_cons, depthAll, ← ih, depthBranches]

theorem size_eq (t : Term) : t.size = 1 + sizeAll t.children := by
  cases t <;> simp [size, children, sizeAll, sizeBranches_eq]

theorem depth_eq (t : Term) : t.depth = 1 + depthAll t.children := by
  cases t <;> simp [depth, children, depthAll, depthBranches_eq]

/-- Induction on terms with the hypothesis for every immediate subterm. -/
theorem induct_children {motive : Term → Prop} (node : ∀ t, (∀ u ∈ t.children, motive u) → motive t) (t : Term) :
    motive t := by
  induction hd : t.depth using Nat.strong_induction_on generalizing t with
  | _ d ih =>
    subst hd
    refine node t fun u hu => ?_
    obtain ⟨step, hstep⟩ := mem_children_iff.1 hu
    exact ih u.depth (depth_lt_of_child? hstep) u rfl

/-! ## Counting the ways -/

/-- The ways from the root that lead to a subterm. -/
def ways (t : Term) : Set (List Step) := {p | (t.at? p).isSome}

/-- The ways that begin with one of the given steps. -/
def waysBy (t : Term) (steps : List Step) : Set (List Step) :=
  {p | ∃ step ∈ steps, ∃ rest, p = step :: rest ∧ (t.at? p).isSome}

theorem ways_eq (t : Term) : t.ways = insert [] (t.waysBy t.steps) := by
  ext p
  rw [Set.mem_insert_iff]
  cases p with
  | nil => exact ⟨fun _ => .inl rfl, fun _ => rfl⟩
  | cons step rest =>
    constructor
    · intro h
      have hstep : (t.child? step).isSome := by
        rw [ways, Set.mem_ofPred_eq, at?_cons] at h
        exact Option.isSome_of_isSome_bind h
      exact .inr ⟨step, mem_steps_iff.2 hstep, rest, rfl, h⟩
    · rintro (h | ⟨_, -, _, -, h⟩)
      · cases h
      · exact h

theorem waysBy_cons {t u : Term} {step : Step} (h : t.child? step = some u) (steps : List Step) :
    t.waysBy (step :: steps) = Set.image (step :: ·) u.ways ∪ t.waysBy steps := by
  ext p
  constructor
  · rintro ⟨first, hfirst, rest, rfl, hp⟩
    rcases List.mem_cons.1 hfirst with rfl | hfirst
    · rw [at?_cons, h] at hp
      exact .inl ⟨rest, hp, rfl⟩
    · exact .inr ⟨first, hfirst, rest, rfl, hp⟩
  · rintro (⟨rest, hrest, rfl⟩ | ⟨first, hfirst, hp⟩)
    · refine ⟨step, List.mem_cons_self, rest, rfl, ?_⟩
      rw [at?_cons, h]; exact hrest
    · exact ⟨first, List.mem_cons_of_mem _ hfirst, hp⟩

theorem encard_waysBy {t : Term} {steps : List Step} {subterms : List Term}
    (h : List.Forall₂ (fun step u => t.child? step = some u) steps subterms) (hnodup : steps.Nodup)
    (hsub : ∀ u ∈ subterms, u.ways.encard = u.size) : (t.waysBy steps).encard = sizeAll subterms := by
  induction h with
  | nil =>
    have hnone : t.waysBy [] = ∅ := by
      refine Set.eq_empty_of_forall_notMem fun p hp => ?_
      obtain ⟨_, hmem, -⟩ := hp
      cases hmem
    rw [hnone, Set.encard_empty]; rfl
  | @cons step u steps subterms hstep _ ih =>
    obtain ⟨hnew, hnodup⟩ := List.nodup_cons.1 hnodup
    obtain ⟨hu, hsub⟩ := List.forall_mem_cons.1 hsub
    -- a way begins with one step only
    have hdisjoint : Disjoint (Set.image (step :: ·) u.ways) (t.waysBy steps) := by
      rw [Set.disjoint_left]
      rintro _ ⟨rest, -, rfl⟩ ⟨first, hfirst, _, heq, -⟩
      cases heq
      exact hnew hfirst
    rw [waysBy_cons hstep, Set.encard_union_eq hdisjoint, List.cons_injective.encard_image, hu, ih hnodup hsub,
      sizeAll, Nat.cast_add]

/-- There are as many ways to subterms as there are nodes. -/
theorem encard_ways (t : Term) : t.ways.encard = t.size := by
  induction t using induct_children with
  | node t ih =>
    have hroot : [] ∉ t.waysBy t.steps := by rintro ⟨_, -, _, heq, -⟩; cases heq
    rw [ways_eq, Set.encard_insert_of_notMem hroot, encard_waysBy t.forall₂_steps t.nodup_steps ih, size_eq,
      Nat.cast_add, Nat.cast_one, add_comm]

/-! ## The longest way -/

theorem exists_depth_eq_depthAll {ts : List Term} (h : ts ≠ []) : ∃ u ∈ ts, u.depth = depthAll ts := by
  induction ts with
  | nil => exact absurd rfl h
  | cons t ts ih =>
    rw [depthAll]
    by_cases hts : ts = []
    · subst hts
      exact ⟨t, List.mem_cons_self, (Nat.max_zero _).symm⟩
    · obtain ⟨u, hu, hdepth⟩ := ih hts
      rcases Nat.le_total t.depth (depthAll ts) with hle | hle
      · exact ⟨u, List.mem_cons_of_mem _ hu, by omega⟩
      · exact ⟨t, List.mem_cons_self, by omega⟩

theorem exists_way_of_depth (t : Term) : ∃ p ∈ t.ways, t.depth = p.length + 1 := by
  induction t using induct_children with
  | node t ih =>
    rw [depth_eq]
    by_cases hleaf : t.children = []
    · exact ⟨[], rfl, by rw [hleaf]; rfl⟩
    · obtain ⟨u, hu, hdepth⟩ := exists_depth_eq_depthAll hleaf
      obtain ⟨p, hp, hlength⟩ := ih u hu
      obtain ⟨step, hstep⟩ := mem_children_iff.1 hu
      refine ⟨step :: p, ?_, by rw [List.length_cons]; omega⟩
      rw [ways, Set.mem_ofPred_eq, at?_cons, hstep]; exact hp

theorem length_lt_depth {t : Term} {p : List Step} (h : p ∈ t.ways) : p.length < t.depth := by
  obtain ⟨u, hu⟩ := Option.isSome_iff_exists.1 h
  have hle := length_add_depth_le_of_at? hu
  have hpos := u.depth_pos
  omega

/-- The size of a term is the number of ways that lead to a subterm, and its depth is one more than the length of the
longest of them. No such way has a step into a pattern, and ways may be followed in parts. The immediate subterms are
those that the single steps lead to, from left to right and without omission. -/
theorem ways_exact (t : Term) :
    Set.encard {p : List Step | (t.at? p).isSome} = t.size ∧
    IsGreatest {n | ∃ p : List Step, (t.at? p).isSome ∧ n = p.length + 1} t.depth ∧
    (∀ p : List Step, (t.at? p).isSome → ∀ step ∈ p, step.isPattern = false) ∧
    (∀ p q : List Step, t.at? (p ++ q) = (t.at? p).bind (·.at? q)) ∧
    ∃ steps : List Step, steps.Pairwise Step.Before ∧ (∀ step, step ∈ steps ↔ (t.at? [step]).isSome) ∧
      steps.map (fun step => t.at? [step]) = t.children.map some := by
  have hsingle : ∀ step, t.at? [step] = t.child? step := fun step => by
    rw [at?_cons]; exact Option.bind_fun_some _
  refine ⟨encard_ways t, ⟨exists_way_of_depth t, ?_⟩, fun p hp => ?_, at?_append t, t.steps, steps_pairwise t, ?_, ?_⟩
  · rintro n ⟨p, hp, rfl⟩
    exact length_lt_depth hp
  · obtain ⟨u, hu⟩ := Option.isSome_iff_exists.1 hp
    exact isPattern_of_at? hu
  · intro step
    rw [hsingle]; exact mem_steps_iff
  · rw [← map_child?_steps]
    exact List.map_congr_left fun step _ => hsingle step

/-- The five nodes of `let x = 1 in match x with y -> y`, of which the body of the branch is the deepest. -/
theorem ways_exact_branch :
    let t : Term := .letIn "x" (.base .int) (.lit (.int 1))
      (.cases (.base .int) (.var (.base .int) "x") [(.var "y", .var (.base .int) "y")] .pure) (.base .int) .pure
    (t.at? [.letBody, .branchBody 0]).isSome ∧ (∀ step ∈ [Step.letBody, .branchBody 0], step.isPattern = false) ∧
      Set.encard {p : List Step | (t.at? p).isSome} = (5 : Nat) ∧
      IsGreatest {n | ∃ p : List Step, (t.at? p).isSome ∧ n = p.length + 1} 3 := by
  intro t
  obtain ⟨hsize, hdepth, hpattern, -⟩ := ways_exact t
  exact ⟨rfl, hpattern _ rfl, hsize, hdepth⟩

end Term

end EffectTyping
