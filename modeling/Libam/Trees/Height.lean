import Libam.Trees.Zipper
import Mathlib.Data.Nat.Fib.Basic
import Mathlib.Data.Nat.Log

/-! How high a balanced tree can be. -/

namespace Libam.Trees.SearchTree

variable {α : Type*}

theorem Avl.fib_le {t : SearchTree α} (avl : t.Avl) :
    Nat.fib (t.height + 2) ≤ t.toList.length + 1 := by
  induction t with
  | leaf => simp [height, toList]
  | node l x b r ihl ihr =>
      obtain ⟨avlL, avlR, balance, low, high⟩ := avl
      have left := ihl avlL
      have right := ihr avlR
      simp only [height, toList, List.length_append, List.length_cons]
      have recurrence (h : ℕ) : Nat.fib (h + 1 + 2) = Nat.fib (h + 1) + Nat.fib (h + 2) :=
        Nat.fib_add_two
      rcases Nat.le_total l.height r.height with less | less
      · have near : Nat.fib (r.height + 1) ≤ Nat.fib (l.height + 2) := Nat.fib_mono (by omega)
        rw [max_eq_right less, recurrence]
        omega
      · have near : Nat.fib (l.height + 1) ≤ Nat.fib (r.height + 2) := Nat.fib_mono (by omega)
        rw [max_eq_left less, recurrence]
        omega

theorem five_mul_two_pow_le_fib (k : ℕ) : 5 * 2 ^ k ≤ Nat.fib (2 * k + 5) := by
  induction k with
  | zero => decide
  | succ k ih =>
      have step : Nat.fib (2 * k + 7) = Nat.fib (2 * k + 5) + Nat.fib (2 * k + 6) := Nat.fib_add_two
      have grows : Nat.fib (2 * k + 5) ≤ Nat.fib (2 * k + 6) := Nat.fib_mono (Nat.le_succ _)
      rw [show 2 * (k + 1) + 5 = 2 * k + 7 by ring, step, pow_succ]
      omega

theorem le_log_of_fib_le {h n : ℕ} (thin : Nat.fib (h + 2) ≤ n + 1) :
    h ≤ 2 * (Nat.log 2 n + 1) := by
  by_contra high
  have more : Nat.fib (2 * Nat.log 2 n + 5) ≤ Nat.fib (h + 2) := Nat.fib_mono (by omega)
  have power := five_mul_two_pow_le_fib (Nat.log 2 n)
  have below : n < 2 ^ (Nat.log 2 n + 1) := Nat.lt_pow_succ_log_self (by decide) n
  rw [pow_succ] at below
  omega

end Libam.Trees.SearchTree
