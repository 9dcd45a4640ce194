import Libam.Pool.Model
import Mathlib.Data.Nat.Bitwise

/-! What the sizes of a chunk are, and which bytes of it the pool marks. -/

namespace Libam.Pool

section Sizes

def maxSize : UInt32 := 0xFFFFFFF0

theorem and_not_mask (n : ℕ) (bound : n < 2 ^ 32) : n &&& 0xFFFFFFF0 = 2 ^ 4 * (n / 2 ^ 4) := by
  have mask : 0xFFFFFFF0 = 2 ^ 4 * (2 ^ 28 - 1) := by decide
  rw [mask]
  apply Nat.eq_of_testBit_eq
  intro i
  rw [Nat.testBit_and, Nat.testBit_two_pow_mul, Nat.testBit_two_pow_mul,
    Nat.testBit_two_pow_sub_one, Nat.testBit_div_two_pow]
  by_cases low : i < 4
  · simp [show ¬ i ≥ 4 by omega]
  · have shifted : i - 4 + 4 = i := by omega
    by_cases high : i < 32
    · simp [show i - 4 < 28 by omega, shifted, Bool.and_comm]
    · have zero : n.testBit i = false :=
        Nat.testBit_eq_false_of_lt
          (lt_of_lt_of_le bound (Nat.pow_le_pow_right (by decide) (by omega)))
      simp [zero, shifted]

theorem alignSize_toNat {size : UInt32} (bound : size ≤ maxSize) :
    (alignSize size).toNat = (size.toNat + 15) / 16 * 16 := by
  have limit : size.toNat ≤ 0xFFFFFFF0 := UInt32.le_iff_toNat_le.mp bound
  have sum : (size + ampoolAlign - 1).toNat = size.toNat + 15 := by
    have plain : size + ampoolAlign - 1 = size + 15 := by
      rw [ampoolAlign]
      grind
    rw [plain, UInt32.toNat_add, show (15 : UInt32).toNat = 15 from rfl]
    omega
  rw [alignSize, UInt32.toNat_and, sum, show (~~~(ampoolAlign - 1)).toNat = 0xFFFFFFF0 from rfl,
    and_not_mask _ (by omega)]
  omega

structure Fits (b : BucketId) (size allocationSize : UInt32) : Prop where
  bucket : ampoolGetBucket (alignSize size) = .ok b
  sizeMalloc : sizeMalloc (bucketSize b) size = allocationSize
  fit : sizesFit (bucketSize b) allocationSize size = true
  positive : 0 < size.toNat
  bound : size ≤ maxSize

theorem bucketSize_step (i : Fin 32) : (bucketSize (.step i)).toNat = (i + 1) * 16 := by
  revert i
  decide

theorem bucketSize_eq_zero {b : BucketId} : bucketSize b = 0 ↔ b = .oversized := by
  cases b with
  | step i =>
      have size := bucketSize_step i
      simp only [reduceCtorEq, iff_false]
      intro zero
      rw [zero, UInt64.toNat_zero] at size
      omega
  | oversized => simp [bucketSize]

theorem alignSize_whole {size : UInt32} (bound : size ≤ maxSize) :
    alignSize size &&& (ampoolAlign - 1) = 0 := by
  rw [← UInt32.toNat_inj, UInt32.toNat_and, alignSize_toNat bound,
    show (ampoolAlign - 1).toNat = 2 ^ 4 - 1 from rfl, Nat.and_two_pow_sub_one_eq_mod]
  simp

theorem stepIndex_toNat {size : UInt32} (positive : 0 < size.toNat) (bound : size ≤ maxSize) :
    (alignSize size >>> 4 - 1).toNat = (size.toNat + 15) / 16 - 1 := by
  have shifted : (alignSize size >>> 4).toNat = (size.toNat + 15) / 16 := by
    rw [UInt32.toNat_shiftRight, alignSize_toNat bound, show (4 : UInt32).toNat % 32 = 4 from rfl,
      Nat.shiftRight_eq_div_pow]
    omega
  have one : (1 : UInt32) ≤ alignSize size >>> 4 := by
    rw [UInt32.le_iff_toNat_le, shifted, show (1 : UInt32).toNat = 1 from rfl]
    omega
  rw [UInt32.toNat_sub_of_le _ _ one, shifted]
  rfl

theorem rounded_fits {size malloc : UInt32} (positive : 0 < size.toNat)
    (rounded : malloc.toNat = (size.toNat + 15) / 16 * 16) :
    size ≤ malloc ∧ malloc - ampoolAlign < size := by
  constructor
  · rw [UInt32.le_iff_toNat_le, rounded]
    omega
  · rw [UInt32.lt_iff_toNat_lt, UInt32.toNat_sub_of_le, rounded,
      show ampoolAlign.toNat = 16 from rfl]
    · omega
    · rw [UInt32.le_iff_toNat_le, rounded, show ampoolAlign.toNat = 16 from rfl]
      omega

theorem fits_step {size : UInt32} (positive : 0 < size.toNat) (bound : size ≤ maxSize)
    (stepped : alignSize size ≤ ampoolMaxStepped) :
    ∃ i, Fits (.step i) size (sizeMalloc (bucketSize (.step i)) size) := by
  have least : (size.toNat + 15) / 16 * 16 ≤ 512 := by
    rw [← alignSize_toNat bound]
    exact UInt32.le_iff_toNat_le.mp stepped
  have index := stepIndex_toNat positive bound
  have inside : (alignSize size >>> 4 - 1).toNat < 32 := by omega
  obtain ⟨i, defi⟩ : ∃ i : Fin 32, i = ⟨_, inside⟩ := ⟨_, rfl⟩
  have number : i.val = (size.toNat + 15) / 16 - 1 := by rw [defi, ← index]
  have element : (bucketSize (.step i)).toNat = (size.toNat + 15) / 16 * 16 := by
    rw [bucketSize_step, number]
    omega
  have nonzero : bucketSize (.step i) ≠ 0 := by simp [bucketSize_eq_zero]
  have malloc : (sizeMalloc (bucketSize (.step i)) size).toNat = (size.toNat + 15) / 16 * 16 := by
    rw [sizeMalloc, if_neg nonzero, UInt64.toNat_toUInt32, element]
    omega
  refine ⟨i, ?_, rfl, ?_, positive, bound⟩
  · simp [ampoolGetBucket, alignSize_whole bound, stepped, inside, defi]
  · simp only [sizesFit, Bool.and_eq_true, Bool.or_eq_true, decide_eq_true_eq, beq_iff_eq]
    refine ⟨⟨rounded_fits positive malloc, .inr ?_⟩, .inl ?_⟩
    · rw [UInt32.le_iff_toNat_le, show ampoolMaxStepped.toNat = 512 from rfl]
      omega
    · rw [UInt64.lt_iff_toNat_lt, element, UInt64.toNat_zero]
      omega

theorem fits_oversized {size : UInt32} (positive : 0 < size.toNat) (bound : size ≤ maxSize)
    (large : ¬ alignSize size ≤ ampoolMaxStepped) :
    Fits .oversized size (sizeMalloc (bucketSize .oversized) size) := by
  have most : 512 < (size.toNat + 15) / 16 * 16 := by
    rw [← alignSize_toNat bound]
    exact Nat.lt_of_not_le fun below => large (UInt32.le_iff_toNat_le.mpr below)
  refine ⟨?_, rfl, ?_, positive, bound⟩
  · simp [ampoolGetBucket, alignSize_whole bound, large]
  · simp only [sizesFit, sizeMalloc, bucketSize, Bool.and_eq_true, Bool.or_eq_true,
      decide_eq_true_eq, beq_iff_eq, if_true]
    refine ⟨⟨rounded_fits positive (alignSize_toNat bound), .inl trivial⟩, .inr ?_⟩
    rw [UInt32.lt_iff_toNat_lt, show ampoolMaxStepped.toNat = 512 from rfl]
    omega

theorem exists_fits {size : UInt32} (positive : 0 < size.toNat) (bound : size ≤ maxSize) :
    ∃ b, Fits b size (sizeMalloc (bucketSize b) size) := by
  by_cases stepped : alignSize size ≤ ampoolMaxStepped
  · obtain ⟨i, fits⟩ := fits_step positive bound stepped
    exact ⟨.step i, fits⟩
  · exact ⟨.oversized, fits_oversized positive bound stepped⟩

theorem Fits.size_le {b : BucketId} {size allocationSize : UInt32}
    (fits : Fits b size allocationSize) : size.toNat ≤ allocationSize.toNat := by
  have fit := fits.fit
  simp only [sizesFit, Bool.and_eq_true, decide_eq_true_eq] at fit
  exact UInt32.le_iff_toNat_le.mp fit.1.1.1

theorem validatedLen_toNat {size : UInt32} (bound : size ≤ maxSize) :
    (validatedLen size).toNat = min 32 ((size.toNat + 1) / 2) := by
  have limit : size.toNat ≤ 0xFFFFFFF0 := UInt32.le_iff_toNat_le.mp bound
  have half : ((size + 1) / 2).toNat = (size.toNat + 1) / 2 := by
    rw [UInt32.toNat_div, UInt32.toNat_add, show (1 : UInt32).toNat = 1 from rfl,
      show (2 : UInt32).toNat = 2 from rfl]
    omega
  rw [validatedLen, min32]
  split
  · rename_i less
    rw [UInt32.lt_iff_toNat_lt, half, show ampoolMaxValidateHalf.toNat = 32 from rfl] at less
    omega
  · rename_i most
    rw [UInt32.lt_iff_toNat_lt, half, show ampoolMaxValidateHalf.toNat = 32 from rfl] at most
    rw [show ampoolMaxValidateHalf.toNat = 32 from rfl]
    omega

theorem Fits.validatedLen_le {b : BucketId} {size allocationSize : UInt32}
    (fits : Fits b size allocationSize) : (validatedLen size).toNat ≤ size.toNat := by
  have positive := fits.positive
  rw [validatedLen_toNat fits.bound]
  omega

end Sizes

end Libam.Pool
