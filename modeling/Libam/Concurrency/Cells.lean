import Mathlib.Algebra.BigOperators.Group.Finset.Basic
import Mathlib.Algebra.BigOperators.Group.Finset.Piecewise
import Mathlib.Data.Finset.Card

/-! Arrays of cells that each hold one value or none, and how often they hold a value. -/

namespace Libam.Cells

variable {V : Type*}

def occupied (data : ℕ → Option V) (i : ℕ) : ℕ := if (data i).isSome then 1 else 0

def stored [DecidableEq V] (data : ℕ → Option V) (slots : ℕ) (v : V) : ℕ :=
  ((Finset.range slots).filter fun i => data i = some v).card

theorem occupied_fill (data : ℕ → Option V) (slot i : ℕ) (v : V) (empty : data slot = none) :
    occupied (Function.update data slot (some v)) i =
      occupied data i + (if slot = i then 1 else 0) := by
  by_cases here : i = slot
  · subst here
    simp [occupied, empty]
  · have elsewhere : slot ≠ i := fun same => here same.symm
    simp [occupied, here, elsewhere]

theorem occupied_take (data : ℕ → Option V) (slot i : ℕ) (v : V) (full : data slot = some v) :
    occupied (Function.update data slot none) i + (if slot = i then 1 else 0) =
      occupied data i := by
  by_cases here : i = slot
  · subst here
    simp [occupied, full]
  · have elsewhere : slot ≠ i := fun same => here same.symm
    simp [occupied, here, elsewhere]

variable [DecidableEq V]

theorem stored_update (data : ℕ → Option V) (slots : ℕ) (v : V) (i : ℕ) (value : Option V)
    (bound : i < slots) :
    stored (Function.update data i value) slots v + (if data i = some v then 1 else 0) =
      stored data slots v + (if value = some v then 1 else 0) := by
  have split (cells : ℕ → Option V) : stored cells slots v =
      (if cells i = some v then 1 else 0) +
        (((Finset.range slots).erase i).filter fun k => cells k = some v).card := by
    rw [stored, Finset.card_filter, Finset.card_filter,
      Finset.add_sum_erase _ (fun k => if cells k = some v then 1 else 0)
        (Finset.mem_range.mpr bound)]
  have others : (((Finset.range slots).erase i).filter fun k =>
        Function.update data i value k = some v) =
      ((Finset.range slots).erase i).filter fun k => data k = some v :=
    Finset.filter_congr fun k member => by
      rw [Function.update_of_ne (Finset.ne_of_mem_erase member)]
  rw [split (Function.update data i value), split data, others, Function.update_self]
  omega

theorem stored_fill (data : ℕ → Option V) (slots slot : ℕ) (v w : V) (empty : data slot = none)
    (bound : slot < slots) :
    stored (Function.update data slot (some w)) slots v =
      stored data slots v + (if w = v then 1 else 0) := by
  have moved := stored_update data slots v slot (some w) bound
  simpa [empty] using moved

theorem stored_take (data : ℕ → Option V) (slots slot : ℕ) (v w : V) (full : data slot = some w)
    (bound : slot < slots) :
    stored (Function.update data slot none) slots v + (if w = v then 1 else 0) =
      stored data slots v := by
  have moved := stored_update data slots v slot none bound
  simpa [full] using moved

end Libam.Cells
