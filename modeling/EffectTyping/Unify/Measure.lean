/-
The measure that solving equations lowers: first the number of distinct variables in the pending equations,
then their total size. Replacing a variable by a type it does not occur in removes that variable and brings in
no new one.
-/
import EffectTyping.Subst

namespace EffectTyping

/-! ## Counting distinct members -/

/-- The number of different members of a list. -/
def distinctCount {α : Type} [DecidableEq α] : List α → Nat
  | [] => 0
  | a :: l => if a ∈ l then distinctCount l else distinctCount l + 1

theorem distinctCount_filter_ne {α : Type} [DecidableEq α] {a : α} {l : List α} (h : a ∈ l) :
    distinctCount l = distinctCount (l.filter (· ≠ a)) + 1 := by
  induction l with
  | nil => cases h
  | cons b l ih =>
    by_cases hba : b = a
    · subst hba
      by_cases hb : b ∈ l
      · simp [distinctCount, hb, ih hb]
      · have : l.filter (· ≠ b) = l := by
          rw [List.filter_eq_self]
          intro c hc
          simpa using fun e : c = b => hb (e ▸ hc)
        rw [List.filter_cons_of_neg (by simp), this]
        simp [distinctCount, hb]
    · have ha : a ∈ l := (List.mem_cons.mp h).resolve_left (fun e => hba e.symm)
      by_cases hb : b ∈ l
      · simp [distinctCount, hb, hba, ih ha]
      · simp [distinctCount, hb, hba, ih ha]

theorem distinctCount_le_of_subset {α : Type} [DecidableEq α] {l m : List α} (h : l ⊆ m) :
    distinctCount l ≤ distinctCount m := by
  induction l generalizing m with
  | nil => exact Nat.zero_le _
  | cons a l ih =>
    rw [distinctCount]
    split
    · exact ih (fun b hb => h (List.mem_cons_of_mem _ hb))
    · rename_i ha
      rw [distinctCount_filter_ne (h List.mem_cons_self)]
      apply Nat.add_le_add_right
      apply ih
      intro b hb
      have : b ≠ a := fun e => ha (e ▸ hb)
      simp [h (List.mem_cons_of_mem _ hb), this]

theorem distinctCount_lt_of_subset {α : Type} [DecidableEq α] {l m : List α} {a : α} (h : l ⊆ m)
    (ha : a ∈ m) (hn : a ∉ l) : distinctCount l < distinctCount m := by
  rw [distinctCount_filter_ne ha]
  apply Nat.lt_succ_of_le
  apply distinctCount_le_of_subset
  intro b hb
  have : b ≠ a := fun e => hn (e ▸ hb)
  simp [h hb, this]

/-! ## Equations -/

/-- Two types to be made equal. -/
abbrev Equation := Ty × Ty

namespace Equation

def vars (e : Equation) : List TypeVar := e.1.vars ++ e.2.vars

def size (e : Equation) : Nat := e.1.size + e.2.size

def apply (s : Subst) (e : Equation) : Equation := (s.apply e.1, s.apply e.2)

end Equation

namespace Equations

def vars (eqs : List Equation) : List TypeVar := eqs.flatMap Equation.vars

def size : List Equation → Nat
  | [] => 0
  | e :: eqs => e.size + size eqs

def apply (s : Subst) (eqs : List Equation) : List Equation := eqs.map (Equation.apply s)

theorem vars_append (l r : List Equation) : vars (l ++ r) = vars l ++ vars r := by
  simp [vars]

theorem size_append (l r : List Equation) : size (l ++ r) = size l + size r := by
  induction l with
  | nil => simp [size]
  | cons e l ih =>
    simp only [List.cons_append, size, ih]
    omega

end Equations

/-! ## Replacing one variable -/

namespace Subst

theorem image_singleton (v w : TypeVar) (t : Ty) :
    image (.singleton v t) w = if w = v then t else .var w := by
  rw [image, OrderedMap.get?_singleton]
  split <;> rfl

mutual

theorem mem_vars_apply_singleton {v w : TypeVar} {t : Ty} :
    ∀ {u : Ty}, w ∈ (apply (.singleton v t) u).vars → w ∈ t.vars ∨ (w ≠ v ∧ w ∈ u.vars)
  | .var x, h => by
    rw [apply, image_singleton] at h
    split at h
    · exact .inl h
    · rename_i hx
      simp only [Ty.vars, List.mem_singleton] at h
      subst h
      exact .inr ⟨hx, by simp [Ty.vars]⟩
  | .base b, h => by simp [apply, Ty.vars] at h
  | .option u, h => by
    simp only [apply, Ty.vars] at h ⊢
    exact mem_vars_apply_singleton h
  | .list u, h => by
    simp only [apply, Ty.vars] at h ⊢
    exact mem_vars_apply_singleton h
  | .tuple us, h => by
    simp only [apply, Ty.vars] at h ⊢
    exact mem_varsAll_applyAll_singleton h
  | .arrow a e r, h => by
    simp only [apply, Ty.vars, List.mem_append] at h ⊢
    rcases h with h | h
    · rcases mem_vars_apply_singleton h with h | h
      · exact .inl h
      · exact .inr ⟨h.1, .inl h.2⟩
    · rcases mem_vars_apply_singleton h with h | h
      · exact .inl h
      · exact .inr ⟨h.1, .inr h.2⟩

theorem mem_varsAll_applyAll_singleton {v w : TypeVar} {t : Ty} :
    ∀ {us : List Ty}, w ∈ Ty.varsAll (applyAll (.singleton v t) us) →
      w ∈ t.vars ∨ (w ≠ v ∧ w ∈ Ty.varsAll us)
  | [], h => by simp [applyAll, Ty.varsAll] at h
  | u :: us, h => by
    simp only [applyAll, Ty.varsAll, List.mem_append] at h ⊢
    rcases h with h | h
    · rcases mem_vars_apply_singleton h with h | h
      · exact .inl h
      · exact .inr ⟨h.1, .inl h.2⟩
    · rcases mem_varsAll_applyAll_singleton h with h | h
      · exact .inl h
      · exact .inr ⟨h.1, .inr h.2⟩

end

end Subst

theorem Equations.mem_vars_apply_singleton {v w : TypeVar} {t : Ty} {eqs : List Equation}
    (h : w ∈ vars (apply (.singleton v t) eqs)) :
    w ∈ t.vars ∨ (w ≠ v ∧ w ∈ vars eqs) := by
  simp only [vars, apply, List.mem_flatMap, List.mem_map] at h ⊢
  obtain ⟨-, ⟨e, he, rfl⟩, hw⟩ := h
  simp only [Equation.apply, Equation.vars, List.mem_append] at hw
  rcases hw with hw | hw
  · rcases Subst.mem_vars_apply_singleton hw with h | h
    · exact .inl h
    · exact .inr ⟨h.1, e, he, by simp [Equation.vars, h.2]⟩
  · rcases Subst.mem_vars_apply_singleton hw with h | h
    · exact .inl h
    · exact .inr ⟨h.1, e, he, by simp [Equation.vars, h.2]⟩

end EffectTyping
