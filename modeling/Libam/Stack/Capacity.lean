import Libam.Stack.Invariant
import Libam.Arrays

/-! The memory of the array stack, and the indices that its calls compute. -/

namespace Libam.Stack

open Libam.Arrays Libam.Interleaving

variable {V : Type}

def Contains (capacity : UInt64) (slots : ℕ) : Prop :=
  Holds sizeofAmstack.toNat sizeofSlot.toNat (amstackSize capacity).toNat slots

instance (capacity : UInt64) (slots : ℕ) : Decidable (Contains capacity slots) :=
  inferInstanceAs (Decidable (Holds _ _ _ _))

/-- The indices that a call has computed: a pop takes the slot below the size that it has read. -/
def AmstackPc.indices : AmstackPc V → List ℕ
  | .pushSwap _ size => [size]
  | .pushFill _ slot => [slot]
  | .popSwap size => [size - 1]
  | .popLoad slot => [slot]
  | .popTake slot _ => [slot]
  | _ => []

structure Sized (slots : ℕ) (stk : Amstack V) : Prop where
  capacity : stk.capacity = slots
  size : stk.size ≤ slots

section Runs

variable [DecidableEq V] {slots : ℕ}

theorem access_indices {stk stk' : Amstack V} {pc pc' : AmstackPc V}
    (fired : amstackAccess stk pc = some (stk', pc')) (sized : Sized slots stk)
    (below : ∀ i ∈ pc.indices, i < slots) : Sized slots stk' ∧ ∀ i ∈ pc'.indices, i < slots := by
  obtain ⟨capacity, size⟩ := sized
  cases pc with
  | idle | pushDone | popDone => cases fired
  | pushRead data =>
      simp only [amstackAccess] at fired
      split at fired <;> cases fired
      · exact ⟨⟨capacity, size⟩, List.forall_mem_nil _⟩
      · exact ⟨⟨capacity, size⟩, by simp only [AmstackPc.indices, List.mem_singleton]; omega⟩
  | pushSwap data slot =>
      simp only [amstackAccess] at fired
      split at fired <;> cases fired
      · exact ⟨⟨capacity, below slot (List.mem_singleton_self slot)⟩, below⟩
      · exact ⟨⟨capacity, size⟩, List.forall_mem_nil _⟩
  | pushFill data slot =>
      simp only [amstackAccess] at fired
      split at fired <;> cases fired
      · exact ⟨⟨capacity, size⟩, List.forall_mem_nil _⟩
      · exact ⟨⟨capacity, size⟩, below⟩
  | popRead =>
      simp only [amstackAccess] at fired
      split at fired <;> cases fired
      · exact ⟨⟨capacity, size⟩, List.forall_mem_nil _⟩
      · exact ⟨⟨capacity, size⟩, by simp only [AmstackPc.indices, List.mem_singleton]; omega⟩
  | popSwap read =>
      simp only [amstackAccess] at fired
      split at fired <;> cases fired
      · exact ⟨⟨capacity, by simp only; omega⟩, below⟩
      · exact ⟨⟨capacity, size⟩, List.forall_mem_nil _⟩
  | popLoad slot =>
      simp only [amstackAccess] at fired
      split at fired <;> cases fired <;> exact ⟨⟨capacity, size⟩, below⟩
  | popTake slot ptr =>
      simp only [amstackAccess] at fired
      split at fired <;> cases fired
      · exact ⟨⟨capacity, size⟩, List.forall_mem_nil _⟩
      · exact ⟨⟨capacity, size⟩, below⟩

theorem next_indices {g g' : Shared V} {pc pc' : AmstackPc V} {a : Act V}
    (fired : next g pc a = some (g', pc')) (sized : Sized slots g.stk)
    (below : ∀ i ∈ pc.indices, i < slots) : Sized slots g'.stk ∧ ∀ i ∈ pc'.indices, i < slots := by
  rcases next_cases fired with ⟨-, rfl, ⟨data, rfl⟩ | ⟨out, rfl⟩⟩ | ⟨data, rc, -, rfl, rfl⟩ | ⟨out,
    rc, -, rfl, rfl⟩ |
    ⟨stk, accessed, rfl⟩
  · exact ⟨sized, by cases data <;> exact nofun⟩
  · exact ⟨sized, by cases out <;> exact nofun⟩
  · exact ⟨sized, nofun⟩
  · exact ⟨sized, nofun⟩
  · exact access_indices accessed sized below

/-- The memory is large enough for the stack that `amstack_alloc` returns, whatever
is done with it. -/
structure Covered (Tid : Type) [DecidableEq Tid] (capacity : UInt64) (stk : Amstack V) : Prop where
  memory : Contains capacity stk.capacity
  runs : ∀ actions (c : Config Tid (Shared V) (AmstackPc V)), Run (Config.step next) Any
    (start Tid stk) actions c →
    ∀ t, ∀ i ∈ (c.pc t).indices, Contains capacity (i + 1)

def Exact (capacity : UInt64) : Prop :=
  sizeofAmstack.toNat + sizeofSlot.toNat * capacity.toNat < wordSize

instance (capacity : UInt64) : Decidable (Exact capacity) :=
  inferInstanceAs (Decidable (sizeofAmstack.toNat + sizeofSlot.toNat * capacity.toNat < wordSize))

theorem contains_iff (capacity : UInt64) : Contains capacity capacity.toNat ↔ Exact capacity := by
  have size : (amstackSize capacity).toNat =
      (sizeofAmstack.toNat + sizeofSlot.toNat * capacity.toNat) % wordSize := by
    rw [amstackSize, UInt64.toNat_add, UInt64.toNat_mul, Nat.add_mod_mod]
  rw [Contains, size]
  exact holds_wrapped_iff (by decide) _ _ _

theorem covered_iff {Tid : Type} [DecidableEq Tid] {malloc : UInt64 → Bool} {capacity : UInt64}
    {stk : Amstack V} (allocated : amstackAlloc malloc capacity = some stk) :
    Covered Tid capacity stk ↔ Exact capacity := by
  obtain ⟨-, rfl⟩ := alloc_eq_some.mp allocated
  rw [← contains_iff]
  refine ⟨fun covered => covered.memory, fun memory => ⟨memory, fun actions c run t i held => ?_⟩⟩
  obtain ⟨-, below⟩ := run.threads (fun g => Sized capacity.toNat g.stk)
    (fun pc => ∀ i ∈ pc.indices, i < capacity.toNat)
    ⟨⟨rfl, Nat.zero_le _⟩, fun _ => by simp [start, AmstackPc.indices]⟩
    (fun _ _ _ _ _ sized below fired => next_indices fired sized below)
  exact memory.mono (below t i held)

end Runs

end Libam.Stack
