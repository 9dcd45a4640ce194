import Libam.Types
import Libam.Concurrency.Interleaving

/-! The array stack of `libam_stack.c`, one atomic access of a call at a time. -/

namespace Libam.Stack

open Libam.Interleaving

variable {V : Type}

/-- `amstack_t`. A NULL slot is `none`, and no slot at or above `capacity` is ever used. -/
structure Amstack (V : Type) where
  capacity : ℕ
  size : ℕ
  data : ℕ → Option V

/-- `sizeof(amstack_t)` and `sizeof(stk->data[0])`. -/
def sizeofAmstack : UInt64 := 16
def sizeofSlot : UInt64 := 8

/-- `amstack_alloc`: the sum wraps at 64 bits, and `malloc` may refuse any size. -/
def amstackAlloc (malloc : UInt64 → Bool) (capacity : UInt64) : Option (Amstack V) :=
  if malloc (sizeofAmstack + sizeofSlot * capacity) then
    some { capacity := capacity.toNat, size := 0, data := fun _ => none }
  else none

def amstackSize (capacity : UInt64) : UInt64 := sizeofAmstack + sizeofSlot * capacity

theorem alloc_eq_some {malloc : UInt64 → Bool} {capacity : UInt64} {stk : Amstack V} :
    amstackAlloc malloc capacity = some stk ↔
      malloc (amstackSize capacity) = true ∧ stk = ⟨capacity.toNat, 0, fun _ => none⟩ := by
  simp only [amstackAlloc, amstackSize]
  split <;> simp [*, eq_comm]

/-- The next access of a running call, with the values its local variables hold. -/
inductive AmstackPc (V : Type)
  | idle
  | pushRead (data : V)
  | pushSwap (data : V) (size : ℕ)
  | pushFill (data : V) (slot : ℕ)
  | pushDone (data : Option V) (rc : Amrc)
  | popRead
  | popSwap (size : ℕ)
  | popLoad (slot : ℕ)
  | popTake (slot : ℕ) (ptr : V)
  | popDone (out : Option V) (rc : Amrc)
  deriving DecidableEq, Repr

/-- Entry of `amstack_push`, up to its first access of the stack. -/
def amstackPush : Option V → AmstackPc V
  | none => .pushDone none .error
  | some data => .pushRead data

/-- Entry of `amstack_pop`; the argument says whether the result pointer is non-NULL. -/
def amstackPop : Bool → AmstackPc V
  | false => .popDone none .error
  | true => .popRead

/-- One access of a running call. No call runs at `idle`, nor after its last access. -/
def amstackAccess [DecidableEq V] (stk : Amstack V) :
    AmstackPc V → Option (Amstack V × AmstackPc V)
  | .idle => none
  | .pushRead data =>
      if stk.capacity ≤ stk.size then some (stk, .pushDone (some data) .error)
      else some (stk, .pushSwap data stk.size)
  | .pushSwap data size =>
      if stk.size = size then some ({ stk with size := size + 1 }, .pushFill data size)
      else some (stk, .pushRead data)
  | .pushFill data slot =>
      if stk.data slot = none then
        some ({ stk with data := Function.update stk.data slot (some data) },
          .pushDone (some data) .success)
      else some (stk, .pushFill data slot)
  | .pushDone _ _ => none
  | .popRead =>
      if stk.size = 0 then some (stk, .popDone none .error)
      else some (stk, .popSwap stk.size)
  | .popSwap size =>
      if stk.size = size then some ({ stk with size := size - 1 }, .popLoad (size - 1))
      else some (stk, .popRead)
  | .popLoad slot =>
      match stk.data slot with
      | none => some (stk, .popLoad slot)
      | some ptr => some (stk, .popTake slot ptr)
  | .popTake slot ptr =>
      if stk.data slot = some ptr then
        some ({ stk with data := Function.update stk.data slot none },
          .popDone (some ptr) .success)
      else some (stk, .popLoad slot)
  | .popDone _ _ => none

/-- The stack, and the values with which calls have returned AMRC_SUCCESS. -/
structure Shared (V : Type) where
  stk : Amstack V
  pushed : List V
  popped : List V

def succeeded : Option V → Amrc → List V
  | some data, .success => [data]
  | _, _ => []

inductive Act (V : Type)
  | push (data : Option V)
  | pop (out : Bool)
  | tick
  deriving DecidableEq, Repr

def next [DecidableEq V] (g : Shared V) (pc : AmstackPc V) :
    Act V → Option (Shared V × AmstackPc V)
  | .push data => if pc = .idle then some (g, amstackPush data) else none
  | .pop out => if pc = .idle then some (g, amstackPop out) else none
  | .tick =>
      match pc with
      | .pushDone data rc => some ({ g with pushed := succeeded data rc ++ g.pushed }, .idle)
      | .popDone out rc => some ({ g with popped := succeeded out rc ++ g.popped }, .idle)
      | _ => (amstackAccess g.stk pc).map fun r => ({ g with stk := r.1 }, r.2)

def start (Tid : Type) (stk : Amstack V) : Config Tid (Shared V) (AmstackPc V) :=
  ⟨⟨stk, [], []⟩, fun _ => .idle⟩

end Libam.Stack
