/-
Effects are a join semilattice, `join` being the least upper bound in the order that effect ceilings are compared by,
with `pure` below everything.
-/
import EffectTyping.Effect
import Mathlib.Order.BoundedOrder.Basic
import Mathlib.Order.Lattice

namespace EffectTyping.Effect

theorem join_comm (a b : Effect) : a.join b = b.join a := by
  cases a <;> cases b <;> rfl

theorem join_assoc (a b c : Effect) : (a.join b).join c = a.join (b.join c) := by
  cases a <;> cases b <;> cases c <;> rfl

theorem join_self (a : Effect) : a.join a = a := by
  cases a <;> rfl

instance : SemilatticeSup Effect where
  sup := join
  le_refl := join_self
  le_trans a b c hab hbc := calc
    a.join c = a.join (b.join c) := by rw [hbc]
    _ = (a.join b).join c := (join_assoc a b c).symm
    _ = b.join c := by rw [hab]
    _ = c := hbc
  le_antisymm a b hab hba := calc
    a = b.join a := hba.symm
    _ = a.join b := join_comm b a
    _ = b := hab
  le_sup_left a b := show a.join (a.join b) = a.join b by rw [← join_assoc, join_self]
  le_sup_right a b := show b.join (a.join b) = a.join b by rw [join_comm a, ← join_assoc, join_self]
  sup_le a b c hac hbc := show (a.join b).join c = c by rw [join_assoc, hbc, hac]

instance : OrderBot Effect where
  bot := pure
  bot_le _ := rfl

theorem join_le_iff {a b c : Effect} : a.join b ≤ c ↔ a ≤ c ∧ b ≤ c :=
  (sup_le_iff : a ⊔ b ≤ c ↔ a ≤ c ∧ b ≤ c)

/-- The join of three effects, as the checker forms it for the parts of a term, is above each of them. -/
theorem le_join_join (a b c : Effect) : a ≤ (a.join b).join c ∧ b ≤ (a.join b).join c ∧ c ≤ (a.join b).join c := by
  obtain ⟨hab, hc⟩ := join_le_iff.1 (le_refl ((a.join b).join c))
  obtain ⟨ha, hb⟩ := join_le_iff.1 hab
  exact ⟨ha, hb, hc⟩

theorem le_pure_iff {a : Effect} : a ≤ pure ↔ a = pure :=
  (le_bot_iff : a ≤ ⊥ ↔ a = ⊥)

end EffectTyping.Effect
