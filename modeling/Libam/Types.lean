import Mathlib.Algebra.Ring.Nat
import Mathlib.Data.Nat.Notation
import Mathlib.Logic.Function.Basic

/-! The base types of the library and the compare-and-swap of `libam_atomic.h`. -/

namespace Libam

inductive Amrc
  | success
  | error
  deriving DecidableEq, Repr

abbrev wordSize : ℕ := 2 ^ 64

section Words

variable {a b n : UInt64}

theorem toNat_add_exact (fits : a.toNat + b.toNat < wordSize) : (a + b).toNat = a.toNat + b.toNat :=
  BitVec.toNat_add_of_lt fits

theorem toNat_succ (fits : n.toNat + 1 < wordSize) : (n + 1).toNat = n.toNat + 1 :=
  toNat_add_exact fits

theorem toNat_pred (positive : 0 < n.toNat) : (n - 1).toNat = n.toNat - 1 := by
  have least : (1 : UInt64) ≤ n := UInt64.le_iff_toNat_le.mpr positive
  exact UInt64.toNat_sub_of_le _ _ least

theorem toNat_double (fits : n.toNat * 2 < wordSize) : (n * 2).toNat = n.toNat * 2 :=
  BitVec.toNat_mul_of_lt (y := 2) fits

end Words

end Libam
