import Libam.CQueue.Model
import Libam.Arrays

/-! The memory of the circular queue, and the indices that its calls compute. -/

namespace Libam.CQueue

open Libam.Arrays Libam.Interleaving

variable {V : Type}

def Contains (capacity : UInt64) (slots : ℕ) : Prop :=
  Holds sizeofAmcqueue.toNat sizeofSlot.toNat (amcqueueSize capacity).toNat slots

instance (capacity : UInt64) (slots : ℕ) : Decidable (Contains capacity slots) :=
  inferInstanceAs (Decidable (Holds _ _ _ _))

def AmcqueuePc.indices : AmcqueuePc V → List ℕ
  | .enqSwap _ tail newTail => [tail, newTail]
  | .enqFill _ slot _ => [slot]
  | .deqTest _ head newHead => [head, newHead]
  | .deqSwap _ head newHead => [head, newHead]
  | .deqUnlock _ slot _ => [slot]
  | .deqLoad _ slot _ => [slot]
  | .deqTake _ slot _ _ => [slot]
  | _ => []

structure Indices (slots : ℕ) (g : Shared V) : Prop where
  capacity : g.cq.capacity = slots
  head : g.cq.head < slots
  tail : g.cq.tail < slots

theorem move_indices {slots : ℕ} {g g' : Shared V} {pc pc' : AmcqueuePc V} (move : Move g pc g' pc')
    (indices : Indices slots g) (below : ∀ i ∈ pc.indices, i < slots) :
    Indices slots g' ∧ ∀ i ∈ pc'.indices, i < slots := by
  obtain ⟨capacity, head, tail⟩ := indices
  have positive : 0 < slots := Nat.lt_of_le_of_lt (Nat.zero_le _) head
  have wrapped (i : ℕ) : i % g.cq.capacity < slots := capacity ▸ Nat.mod_lt i (capacity ▸ positive)
  cases move
  case enqRead => exact ⟨⟨capacity, head,
    tail⟩, by simpa [AmcqueuePc.indices] using ⟨tail, wrapped _⟩⟩
  case deqRead => exact ⟨⟨capacity, head,
    tail⟩, by simpa [AmcqueuePc.indices] using ⟨head, wrapped _⟩⟩
  case enqReserve data newTail =>
    exact ⟨⟨capacity, head, below newTail (by simp [AmcqueuePc.indices])⟩, by
        simpa [AmcqueuePc.indices] using tail⟩
  case deqClaim call newHead =>
    exact ⟨⟨capacity, below newHead (by simp [AmcqueuePc.indices]),
      tail⟩, by simpa [AmcqueuePc.indices] using head⟩
  case deqRelease held after =>
    cases after
    · exact ⟨⟨capacity, head, tail⟩, nofun⟩
    · exact ⟨⟨capacity, head, tail⟩, below⟩
  case deqUnheld free after =>
    cases after
    · exact ⟨⟨capacity, head, tail⟩, nofun⟩
    · exact ⟨⟨capacity, head, tail⟩, below⟩
  case enqWait | deqNonempty | deqWait | deqLoad | deqLost => exact ⟨⟨capacity, head, tail⟩, below⟩
  all_goals exact ⟨⟨capacity, head, tail⟩, nofun⟩

structure Within {Tid : Type} (capacity : UInt64) (c : Config Tid (Shared V) (AmcqueuePc V)) :
    Prop where
  modulus : c.shared.cq.capacity ≠ 0
  head : Contains capacity (c.shared.cq.head + 1)
  tail : Contains capacity (c.shared.cq.tail + 1)
  calls : ∀ t, ∀ i ∈ (c.pc t).indices, Contains capacity (i + 1)

/-- The memory is large enough for the queue that `amcqueue_alloc` returns, whatever
is done with it. -/
structure Covered [DecidableEq V] (Tid : Type) [DecidableEq Tid] (capacity : UInt64)
    (cq : Amcqueue V) : Prop where
  modulus : cq.capacity ≠ 0
  memory : Contains capacity cq.capacity
  runs : ∀ actions (c : Config Tid (Shared V) (AmcqueuePc V)),
    Run (Config.step next) Any (start Tid cq) actions c → Within capacity c

def Exact (capacity : UInt64) : Prop :=
  sizeofAmcqueue.toNat + sizeofSlot.toNat * (capacity.toNat + 1) < wordSize

instance (capacity : UInt64) : Decidable (Exact capacity) :=
  inferInstanceAs (Decidable
    (sizeofAmcqueue.toNat + sizeofSlot.toNat * (capacity.toNat + 1) < wordSize))

theorem contains_iff {capacity slots : UInt64} (isSlots : slots = capacity + 1) :
    Contains capacity slots.toNat ↔ sizeofAmcqueue.toNat + sizeofSlot.toNat * slots.toNat <
    wordSize := by
  have size : (amcqueueSize capacity).toNat =
      (sizeofAmcqueue.toNat + sizeofSlot.toNat * slots.toNat) % wordSize := by
    rw [amcqueueSize, UInt64.toNat_add, UInt64.toNat_mul, isSlots, Nat.add_mod_mod]
  rw [Contains, size]
  exact holds_wrapped_iff (by decide) _ _ _

section Runs

variable [DecidableEq V] {Tid : Type} [DecidableEq Tid] {malloc : UInt64 → Bool} {capacity : UInt64}
  {cq : Amcqueue V}

theorem run_indices {slots : ℕ} {actions : List (Tid × Act V)}
    {c : Config Tid (Shared V) (AmcqueuePc V)} (fresh : cq = ⟨0, slots, 0, 0, fun _ => none⟩)
    (positive : 0 < slots) (run : Run (Config.step next) Any (start Tid cq) actions c) :
    Indices slots c.shared ∧ ∀ t, ∀ i ∈ (c.pc t).indices, i < slots := by
  subst fresh
  refine run.threads (Indices slots) (fun pc => ∀ i ∈ pc.indices, i < slots)
    ⟨⟨rfl, positive, positive⟩, fun _ => by simp [start, AmcqueuePc.indices]⟩ ?_
  intro g l a g' l' indices below fired
  exact move_indices (next_move fired) indices below

theorem covered_iff (allocated : amcqueueAlloc malloc capacity = some cq) :
    Covered Tid capacity cq ↔ Exact capacity := by
  obtain ⟨-, fresh⟩ := alloc_eq_some.mp allocated
  have stored : cq.capacity = (capacity + 1).toNat := by rw [fresh]
  constructor
  · rintro ⟨modulus, memory, -⟩
    rw [stored] at modulus memory
    have exact := (contains_iff rfl).mp memory
    have bound := capacity.toNat_lt
    have wrapped : (capacity + 1).toNat = (capacity.toNat + 1) % 2 ^ 64 := UInt64.toNat_add _ _
    have unwrapped : (capacity + 1).toNat = capacity.toNat + 1 := by omega
    rwa [unwrapped] at exact
  · intro exact
    have small : capacity.toNat + 1 < wordSize := by
      simp only [Exact, sizeofSlot, UInt64.reduceToNat] at exact
      omega
    have slots := toNat_succ small
    have positive : 0 < (capacity + 1).toNat := slots ▸ Nat.succ_pos _
    have memory : Contains capacity (capacity + 1).toNat := (contains_iff rfl).mpr (slots ▸ exact)
    refine ⟨stored ▸ positive.ne', stored ▸ memory, fun actions c run => ?_⟩
    obtain ⟨⟨kept, head, tail⟩, below⟩ := run_indices fresh positive run
    exact ⟨kept ▸ positive.ne', memory.mono head, memory.mono tail, fun t i held =>
      memory.mono (below t i held)⟩

end Runs

end Libam.CQueue
