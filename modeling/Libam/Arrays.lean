import Mathlib.Algebra.Order.Ring.Nat
import Mathlib.Data.Nat.Notation

/-! Blocks of memory that hold a header and an array, with sizes in machine words. -/

namespace Libam.Arrays

def Holds (header slot bytes count : ℕ) : Prop := header + slot * count ≤ bytes

instance (header slot bytes count : ℕ) : Decidable (Holds header slot bytes count) :=
  inferInstanceAs (Decidable (header + slot * count ≤ bytes))

variable {header slot bytes count fewer : ℕ}

theorem Holds.mono (holds : Holds header slot bytes count) (few : fewer ≤ count) :
    Holds header slot bytes fewer :=
  (Nat.add_le_add_left (Nat.mul_le_mul_left slot few) header).trans holds

/-- A size that wraps at `word` is enough for the array only where it does not wrap. -/
theorem holds_wrapped_iff {word : ℕ} (positive : 0 < word) (header slot count : ℕ) :
    Holds header slot ((header + slot * count) % word) count ↔ header + slot * count < word := by
  constructor
  · intro holds
    exact Nat.lt_of_le_of_lt holds (Nat.mod_lt _ positive)
  · intro small
    rw [Holds, Nat.mod_eq_of_lt small]

end Libam.Arrays
