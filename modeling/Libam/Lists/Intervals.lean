import Mathlib.Algebra.Ring.Nat
import Mathlib.Data.Finset.Card
import Mathlib.Order.Interval.Finset.Nat

/-! Intervals of natural numbers that share nothing fit into what contains them all. -/

namespace Libam.Intervals

variable {ι : Type*} {first length : ι → ℕ}

/-- As many points as the intervals are long together, each of them in some interval. -/
theorem exists_points {l : List ι}
    (apart : l.Pairwise fun a b => first a + length a ≤ first b ∨ first b + length b ≤ first a) :
    ∃ points : Finset ℕ, points.card = (l.map length).sum ∧
      ∀ x ∈ points, ∃ a ∈ l, first a ≤ x ∧ x < first a + length a := by
  induction l with
  | nil => exact ⟨∅, rfl, by simp⟩
  | cons a l ih =>
      obtain ⟨beside, rest⟩ := List.pairwise_cons.mp apart
      obtain ⟨points, card, inside⟩ := ih rest
      refine ⟨Finset.Ico (first a) (first a + length a) ∪ points, ?_, fun x member => ?_⟩
      · rw [Finset.card_union_of_disjoint, Nat.card_Ico, card, List.map_cons, List.sum_cons]
        · omega
        · apply Finset.disjoint_left.mpr
          intro x here there
          obtain ⟨b, member, low, high⟩ := inside x there
          have here := Finset.mem_Ico.mp here
          have apart := beside b member
          omega
      · rcases Finset.mem_union.mp member with here | there
        · exact ⟨a, List.mem_cons_self, Finset.mem_Ico.mp here⟩
        · obtain ⟨b, member, range⟩ := inside x there
          exact ⟨b, List.mem_cons_of_mem _ member, range⟩

theorem sum_length_le (first length : ι → ℕ) (bound : ℕ) {l : List ι}
    (apart : l.Pairwise fun a b => first a + length a ≤ first b ∨ first b + length b ≤ first a)
    (inside : ∀ a ∈ l, first a + length a ≤ bound) : (l.map length).sum ≤ bound := by
  obtain ⟨points, card, covered⟩ := exists_points apart
  have contained : points ⊆ Finset.range bound := by
    intro x member
    obtain ⟨a, here, _, high⟩ := covered x member
    exact Finset.mem_range.mpr (Nat.lt_of_lt_of_le high (inside a here))
  rw [← card]
  exact (Finset.card_le_card contained).trans_eq (Finset.card_range bound)

end Libam.Intervals
