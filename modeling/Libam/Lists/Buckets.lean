import Mathlib.Data.List.Nodup
import Mathlib.Data.List.Perm.Basic

/-! The members of the first lists of a family, together. -/

namespace Libam.Lists

variable {α : Type} {n i : ℕ} {f g : ℕ → List α} {a : α}

def collected (n : ℕ) (f : ℕ → List α) : List α := (List.range n).flatMap f

theorem collected_succ (n : ℕ) (f : ℕ → List α) : collected (n + 1) f = collected n f ++ f n := by
  simp [collected, List.range_succ]

theorem mem_collected : a ∈ collected n f ↔ ∃ i < n, a ∈ f i := by
  simp [collected]

theorem collected_congr (same : ∀ i < n, g i = f i) : collected n g = collected n f := by
  induction n with
  | zero => rfl
  | succ n ih =>
      rw [collected_succ, collected_succ, same n (Nat.lt_succ_self n), ih fun i below =>
        same i (by omega)]

theorem collected_nil (none : ∀ i < n, f i = []) : collected n f = [] := by
  rw [collected_congr (g := f) (f := fun _ => []) none]
  simp [collected]

theorem collected_cons (below : i < n) (here : (g i).Perm (a :: f i))
    (elsewhere : ∀ j < n, j ≠ i → g j = f j) : (collected n g).Perm (a :: collected n f) := by
  induction n with
  | zero => omega
  | succ n ih =>
      rw [collected_succ, collected_succ]
      by_cases last : i = n
      · subst last
        rw [collected_congr fun j below => elsewhere j (by omega) (by omega)]
        exact (here.append_left _).trans List.perm_middle
      · rw [elsewhere n (Nat.lt_succ_self n) (Ne.symm last)]
        exact (ih (by omega) fun j below => elsewhere j (by omega)).append_right _

theorem length_le_collected (below : i < n) : (f i).length ≤ (collected n f).length := by
  induction n with
  | zero => omega
  | succ n ih =>
      rw [collected_succ, List.length_append]
      rcases Nat.lt_or_ge i n with before | last
      · have few := ih before
        omega
      · have same : i = n := by omega
        subst same
        omega

end Libam.Lists
