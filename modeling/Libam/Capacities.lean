import Libam.CQueue.Capacity
import Libam.Stack.Capacity
import Libam.Strhash.Capacity

/-! The four sizes that the library computes from a capacity before it allocates. -/

namespace Libam

open Libam.Interleaving

section Sizes

variable (V Tid : Type) [DecidableEq V] [DecidableEq Tid]

/-- Where `malloc` succeeds, the memory is large enough for the capacity that is stored, no modulus
is zero and every index lies inside, exactly when the size that is asked for does not wrap. -/
theorem capacities_covered_iff (malloc : UInt64 → Bool) (capacity : UInt64)
    (flags : Strhash.StrhashFlags) (attr : Option Strhash.AmstrhashAttr)
    (handle lockReady array : Bool) (strings : Strhash.Pointer → Option Strhash.CString) :
    ((∀ cq : CQueue.Amcqueue V, CQueue.amcqueueAlloc malloc capacity = some cq →
      CQueue.Covered Tid capacity cq) ↔
      (malloc (CQueue.amcqueueSize capacity) = true → CQueue.Exact capacity)) ∧
    ((∀ stk : Stack.Amstack V, Stack.amstackAlloc malloc capacity = some stk →
      Stack.Covered Tid capacity stk) ↔
      (malloc (Stack.amstackSize capacity) = true → Stack.Exact capacity)) ∧
    (Strhash.InitCovers capacity flags attr handle lockReady array strings V ↔
      ((handle && lockReady && array) = true → Strhash.Exact capacity.toNat)) ∧
    ∀ (start hash : Strhash.Amstrhash V) calls,
      Strhash.amstrhashInit capacity flags attr handle lockReady array strings = .ok (some start) →
      Run Strhash.stepAny Strhash.ReadyAny start calls hash → ∀ array,
        (Strhash.UpsizeCovers hash array ↔
          (array = true → Strhash.Exact (hash.capacity.toNat * 2))) := by
  refine ⟨?_, ?_, Strhash.initCovers_iff capacity flags attr handle lockReady array strings,
    fun start hash calls made run array => Strhash.upsizeCovers_iff
    (Strhash.run_held made run) array⟩
  · constructor
    · intro covered granted
      have allocated := CQueue.alloc_eq_some (V := V).mpr ⟨granted, rfl⟩
      exact (CQueue.covered_iff allocated).mp (covered _ allocated)
    · intro exact cq allocated
      exact (CQueue.covered_iff allocated).mpr (exact (CQueue.alloc_eq_some.mp allocated).1)
  · constructor
    · intro covered granted
      have allocated := Stack.alloc_eq_some (V := V).mpr ⟨granted, rfl⟩
      exact (Stack.covered_iff allocated).mp (covered _ allocated)
    · intro exact stk allocated
      exact (Stack.covered_iff allocated).mpr (exact (Stack.alloc_eq_some.mp allocated).1)

/-- A queue, a stack and a table for four, and the next array of the table. -/
theorem capacities_covered_iff_sample :
    (∃ cq : CQueue.Amcqueue ℕ, CQueue.amcqueueAlloc (fun _ => true) 4 = some cq ∧
      CQueue.Covered (Fin 2) 4 cq) ∧
    (∃ stk : Stack.Amstack ℕ, Stack.amstackAlloc (fun _ => true) 4 = some stk ∧
      Stack.Covered (Fin 2) 4 stk) ∧
    ∃ start : Strhash.Amstrhash ℕ,
      Strhash.amstrhashInit 4 ⟨false, true, false, false, false⟩ none true true true
        (fun _ => none) =
        .ok (some start) ∧ Strhash.Covered start ∧ Strhash.UpsizeCovers start true := by
  obtain ⟨queue, stack, init, upsize⟩ := capacities_covered_iff ℕ (Fin 2) (fun _ => true) 4
    ⟨false, true, false, false, false⟩ none true true true (fun _ => none)
  refine ⟨⟨_, rfl, queue.mpr (fun _ => by decide) _ rfl⟩,
    ⟨_, rfl, stack.mpr (fun _ => by decide) _ rfl⟩, _, rfl,
    init.mpr (fun _ => by decide) [] _ .nil, ?_⟩
  exact (upsize _ _ [] rfl .nil true).mpr fun _ => by decide

/-- A queue without a slot, a stack whose first slot lies outside, and two arrays
that are too short. -/
theorem capacities_wrap :
    (∃ cq : CQueue.Amcqueue ℕ, CQueue.amcqueueAlloc (fun _ => true) 0xFFFFFFFFFFFFFFFF = some cq ∧
      cq.capacity = 0 ∧ ¬ CQueue.Covered (Fin 1) 0xFFFFFFFFFFFFFFFF cq ∧
      ∃ c, Run (Config.step CQueue.next) Any (CQueue.start (Fin 1) cq) [(0, .enq (some 7))] c ∧
        c.step CQueue.next (0, .tick) = none) ∧
    (∃ stk : Stack.Amstack ℕ, Stack.amstackAlloc (fun _ => true) 0x2000000000000000 = some stk ∧
      ¬ Stack.Covered (Fin 1) 0x2000000000000000 stk ∧
      ∃ c, Run (Config.step Stack.next) Any (Stack.start (Fin 1) stk)
        [(0, .push (some 7)), (0, .tick), (0, .tick)] c ∧
        c.pc 0 = .pushFill 7 0 ∧ ¬ Stack.Contains 0x2000000000000000 1) ∧
    (Strhash.amstrhashInit 0x2000000000000000 ⟨false, true, false, false, false⟩ none true true true
      (fun _ => none) =
      (.error .bounds : Except Strhash.Fault (Option (Strhash.Amstrhash ℕ)))) ∧
    ∃ start : Strhash.Amstrhash ℕ,
      Strhash.amstrhashInit 0x800000000000000 ⟨false, true, false, false, false⟩ none true true true
        (fun _ => none) =
        .ok (some start) ∧ Strhash.amstrhashUpsize start true = .error .bounds := by
  refine ⟨⟨_, rfl, rfl, fun covered => covered.modulus rfl, _, run_any rfl, rfl⟩,
    ⟨_, rfl, fun covered => ?_, _, run_any rfl, rfl, by decide⟩, rfl, _, rfl, rfl⟩
  exact absurd covered.memory (by decide)

end Sizes

end Libam
