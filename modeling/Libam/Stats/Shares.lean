import Libam.Stats.Merge
import Mathlib.Algebra.BigOperators.Group.List.Basic

/-! Statistics of parts of the values, merged in any order. -/

namespace Libam.Stats

structure Tame (values : List UInt64) : Prop where
  bounded : Bounded values
  small : ∀ v ∈ values, v ≤ amstatMaxSsqVal

/-- The two statistics after `amstat_add(to, from)`, for two different ones. -/
def amstatAdded (target src : AmstatRange) : AmstatRange × AmstatRange :=
  let m := amstatAdd (fun stat => bif stat then src else target) false true
  (m false, m true)

section Order

variable {xs ys : List UInt64} {stat : AmstatRange}

theorem squares_perm (same : xs.Perm ys) : squares xs = squares ys :=
  ((same.filter _).map _).sum_eq

theorem Bounded.perm (bounded : Bounded xs) (same : xs.Perm ys) : Bounded ys := by
  obtain ⟨sum, length, sq⟩ := bounded
  rw [(same.map _).sum_eq] at sum
  rw [same.length_eq] at length
  rw [squares_perm same] at sq
  exact ⟨sum, length, sq⟩

theorem Tame.perm (tame : Tame xs) (same : xs.Perm ys) : Tame ys :=
  ⟨tame.bounded.perm same, fun v inside => tame.small v (same.mem_iff.mpr inside)⟩

theorem Tame.left (tame : Tame (xs ++ ys)) : Tame xs :=
  ⟨tame.bounded.left, fun v inside => tame.small v (List.mem_append_left _ inside)⟩

theorem Tame.right (tame : Tame (xs ++ ys)) : Tame ys :=
  ⟨tame.bounded.right, fun v inside => tame.small v (List.mem_append_right _ inside)⟩

theorem Collects.perm (collects : Collects xs stat) (same : xs.Perm ys) : Collects ys stat := by
  have mem (v : UInt64) : v ∈ ys ↔ v ∈ xs := same.mem_iff.symm
  have none : ys = [] ↔ xs = [] := by
    rw [← List.length_eq_zero_iff, ← same.length_eq, List.length_eq_zero_iff]
  obtain ⟨le_max, max_mem, min_le, min_mem, sum, num, saturated, ssq, avg⟩ := collects
  constructor
  · simpa only [mem] using le_max
  · simpa only [mem, none] using max_mem
  · simpa only [mem] using min_le
  · simpa only [mem, none] using min_mem
  · rw [sum, (same.map _).sum_eq]
  · rw [num, same.length_eq]
  · simpa only [mem] using saturated
  · simpa only [mem, ← squares_perm same] using ssq
  · exact avg

end Order

section Parts

variable {xs ys : List UInt64} {target src : AmstatRange}

theorem Collects.added (first : Collects xs target) (second : Collects ys src)
    (tame : Tame (xs ++ ys)) : Collects (xs ++ ys) (amstatAdded target src).1 := by
  have room : target.ssq.toNat + src.ssq.toNat < 2 ^ 64 := by
    rw [first.ssq tame.left.small, second.ssq tame.right.small, ← squares_append]
    exact Nat.lt_of_lt_pred tame.bounded.squares
  have unsaturated : ¬ (target.ssq = uint64Max ∨ src.ssq = uint64Max) :=
    not_or.mpr ⟨first.ssq_ne tame.left.bounded tame.left.small,
      second.ssq_ne tame.right.bounded tame.right.small⟩
  rw [amstatAdded, amstatAdd_eq (by decide) (.inr (.inr room)), cond_false, cond_true,
    if_neg unsaturated]
  refine first.merge second tame.bounded (fun large => ?_) fun _ => rfl
  obtain ⟨v, inside, exceeds⟩ := large
  exact absurd exceeds (UInt64.not_lt.mpr (tame.small v inside))

theorem Collects.eq_build (collects : Collects xs target) (bounded : Bounded xs) :
    target = build xs :=
  collects.unique (collects_build bounded)

end Parts

end Libam.Stats
