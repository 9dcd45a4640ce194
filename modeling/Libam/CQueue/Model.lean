import Libam.Types
import Libam.Concurrency.Interleaving

/-! The circular queue of `libam_cqueue.c` with its spinlock, one atomic access of a
call at a time. -/

namespace Libam.CQueue

open Libam.Interleaving

variable {V : Type}

/-- `amcqueue_t`. A NULL slot is `none`; `readLock` is `AMSPINLOCK_UNLOCKED` at 0. -/
structure Amcqueue (V : Type) where
  readLock : ℕ
  capacity : ℕ
  head : ℕ
  tail : ℕ
  data : ℕ → Option V

/-- `sizeof(amcqueue_t)` and `sizeof(cq->data[0])`. -/
def sizeofAmcqueue : UInt64 := 32
def sizeofSlot : UInt64 := 8

/-- `amcqueue_alloc`: one slot is always kept empty. The sums wrap at 64 bits, and `malloc` may
refuse any size. -/
def amcqueueAlloc (malloc : UInt64 → Bool) (capacity : UInt64) : Option (Amcqueue V) :=
  let slots := capacity + 1
  if malloc (sizeofAmcqueue + sizeofSlot * slots) then
    some { readLock := 0, capacity := slots.toNat, head := 0, tail := 0, data := fun _ => none }
  else none

def amcqueueSize (capacity : UInt64) : UInt64 := sizeofAmcqueue + sizeofSlot * (capacity + 1)

theorem alloc_eq_some {malloc : UInt64 → Bool} {capacity : UInt64} {cq : Amcqueue V} :
    amcqueueAlloc malloc capacity = some cq ↔
      malloc (amcqueueSize capacity) = true ∧
      cq = ⟨0, (capacity + 1).toNat, 0, 0, fun _ => none⟩ := by
  simp only [amcqueueAlloc, amcqueueSize]
  split <;> simp [*, eq_comm]

/-- What a client sees of the calls: an enqueue by its value, a dequeue by the place of its call
in the history. -/
inductive Event (V : Type)
  | enqCall (data : V)
  | enqRet (data : V)
  | deqCall (call : ℕ)
  | deqRet (call : ℕ) (data : V)
  deriving DecidableEq, Repr

/-- The queue and three records that no call reads: the values in the order in which calls
advanced `tail`, the dequeues in the order in which they advanced `head`, and the history. -/
structure Shared (V : Type) where
  cq : Amcqueue V
  reserved : List V
  claimed : List ℕ
  history : List (Event V)

/-- The next access of a running call, with the values its local variables hold. A `ticket` is
the call's place in `reserved` or `claimed`, a `call` its place in the history. -/
inductive AmcqueuePc (V : Type)
  | idle
  | enqRead (data : V)
  | enqSwap (data : V) (tail newTail : ℕ)
  | enqFill (data : V) (slot ticket : ℕ)
  | enqDone (data : Option V) (rc : Amrc)
  | deqLock (call : ℕ)
  | deqRead (call : ℕ)
  | deqTest (call head newHead : ℕ)
  | deqSwap (call head newHead : ℕ)
  | deqUnlockEmpty (call : ℕ)
  | deqUnlock (call slot ticket : ℕ)
  | deqLoad (call slot ticket : ℕ)
  | deqTake (call slot ticket : ℕ) (ptr : V)
  | deqDone (call : ℕ) (out : Option V) (rc : Amrc)
  deriving DecidableEq, Repr

/-- Entry of `amcqueue_enq`, up to its first access of the queue. -/
def amcqueueEnq (g : Shared V) : Option V → Shared V × AmcqueuePc V
  | none => (g, .enqDone none .error)
  | some data => ({ g with history := g.history ++ [.enqCall data] }, .enqRead data)

/-- Entry of `amcqueue_deq`, up to its first access of the queue. -/
def amcqueueDeq (g : Shared V) : Shared V × AmcqueuePc V :=
  ({ g with history := g.history ++ [.deqCall g.history.length] }, .deqLock g.history.length)

/-- The index after `i`; a modulus of zero traps. -/
def advance (cq : Amcqueue V) (i : ℕ) : Option ℕ :=
  if cq.capacity = 0 then none else some ((i + 1) % cq.capacity)

/-- One access of a running call. No call runs at `idle`, nor after its last access. -/
def amcqueueAccess [DecidableEq V] (g : Shared V) :
    AmcqueuePc V → Option (Shared V × AmcqueuePc V)
  | .idle => none
  | .enqRead data =>
      (advance g.cq g.cq.tail).map fun newTail => (g, .enqSwap data g.cq.tail newTail)
  | .enqSwap data tail newTail =>
      if g.cq.tail = tail then
        some ({ g with cq := { g.cq with tail := newTail }, reserved := g.reserved ++ [data] },
          .enqFill data tail g.reserved.length)
      else some (g, .enqRead data)
  | .enqFill data slot ticket =>
      if g.cq.data slot = none then
        some ({ g with cq := { g.cq with data := Function.update g.cq.data slot (some data) } },
          .enqDone (some data) .success)
      else some (g, .enqFill data slot ticket)
  | .enqDone _ _ => none
  | .deqLock call =>
      if g.cq.readLock = 0 then some ({ g with cq := { g.cq with readLock := 1 } }, .deqRead call)
      else some (g, .deqLock call)
  | .deqRead call =>
      (advance g.cq g.cq.head).map fun newHead => (g, .deqTest call g.cq.head newHead)
  | .deqTest call head newHead =>
      if head = g.cq.tail then some (g, .deqUnlockEmpty call)
      else some (g, .deqSwap call head newHead)
  | .deqSwap call head newHead =>
      if g.cq.head = head then
        some ({ g with cq := { g.cq with head := newHead }, claimed := g.claimed ++ [call] },
          .deqUnlock call head g.claimed.length)
      else some (g, .deqRead call)
  | .deqUnlockEmpty call =>
      if g.cq.readLock = 1 then
        some ({ g with cq := { g.cq with readLock := 0 } }, .deqDone call none .error)
      else some (g, .deqDone call none .error)
  | .deqUnlock call slot ticket =>
      if g.cq.readLock = 1 then
        some ({ g with cq := { g.cq with readLock := 0 } }, .deqLoad call slot ticket)
      else some (g, .deqLoad call slot ticket)
  | .deqLoad call slot ticket =>
      match g.cq.data slot with
      | none => some (g, .deqLoad call slot ticket)
      | some ptr => some (g, .deqTake call slot ticket ptr)
  | .deqTake call slot ticket ptr =>
      if g.cq.data slot = some ptr then
        some ({ g with cq := { g.cq with data := Function.update g.cq.data slot none } },
          .deqDone call (some ptr) .success)
      else some (g, .deqLoad call slot ticket)
  | .deqDone _ _ _ => none

def enqReturn : Option V → Amrc → List (Event V)
  | some data, .success => [.enqRet data]
  | _, _ => []

def deqReturn (call : ℕ) : Option V → Amrc → List (Event V)
  | some data, .success => [.deqRet call data]
  | _, _ => []

inductive Act (V : Type)
  | enq (data : Option V)
  | deq
  | tick
  deriving DecidableEq, Repr

def next [DecidableEq V] (g : Shared V) (pc : AmcqueuePc V) :
    Act V → Option (Shared V × AmcqueuePc V)
  | .enq data => if pc = .idle then some (amcqueueEnq g data) else none
  | .deq => if pc = .idle then some (amcqueueDeq g) else none
  | .tick =>
      match pc with
      | .enqDone data rc => some ({ g with history := g.history ++ enqReturn data rc }, .idle)
      | .deqDone call out rc =>
          some ({ g with history := g.history ++ deqReturn call out rc }, .idle)
      | _ => amcqueueAccess g pc

inductive Unlocks : AmcqueuePc V → AmcqueuePc V → Prop
  | empty (call : ℕ) : Unlocks (.deqUnlockEmpty call) (.deqDone call none .error)
  | claimed (call slot ticket : ℕ) :
      Unlocks (.deqUnlock call slot ticket) (.deqLoad call slot ticket)

inductive Move (g : Shared V) : AmcqueuePc V → Shared V → AmcqueuePc V → Prop
  | enqNull : Move g .idle g (.enqDone none .error)
  | enqCall (data : V) :
      Move g .idle { g with history := g.history ++ [.enqCall data] } (.enqRead data)
  | enqRead (data : V) (positive : g.cq.capacity ≠ 0) :
      Move g (.enqRead data) g (.enqSwap data g.cq.tail ((g.cq.tail + 1) % g.cq.capacity))
  | enqReserve (data : V) (newTail : ℕ) :
      Move g (.enqSwap data g.cq.tail newTail)
        { g with cq := { g.cq with tail := newTail }, reserved := g.reserved ++ [data] }
        (.enqFill data g.cq.tail g.reserved.length)
  | enqRetry (data : V) (tail newTail : ℕ) (stale : g.cq.tail ≠ tail) :
      Move g (.enqSwap data tail newTail) g (.enqRead data)
  | enqStore (data : V) (slot ticket : ℕ) (empty : g.cq.data slot = none) :
      Move g (.enqFill data slot ticket)
        { g with cq := { g.cq with data := Function.update g.cq.data slot (some data) } }
        (.enqDone (some data) .success)
  | enqWait (data : V) (slot ticket : ℕ) (full : g.cq.data slot ≠ none) :
      Move g (.enqFill data slot ticket) g (.enqFill data slot ticket)
  | enqReturn (data : Option V) (rc : Amrc) :
      Move g (.enqDone data rc) { g with history := g.history ++ enqReturn data rc } .idle
  | deqCall :
      Move g .idle { g with history := g.history ++ [.deqCall g.history.length] }
        (.deqLock g.history.length)
  | deqLock (call : ℕ) (free : g.cq.readLock = 0) :
      Move g (.deqLock call) { g with cq := { g.cq with readLock := 1 } } (.deqRead call)
  | deqSpin (call : ℕ) (held : g.cq.readLock ≠ 0) : Move g (.deqLock call) g (.deqLock call)
  | deqRead (call : ℕ) (positive : g.cq.capacity ≠ 0) :
      Move g (.deqRead call) g (.deqTest call g.cq.head ((g.cq.head + 1) % g.cq.capacity))
  | deqEmpty (call head newHead : ℕ) (empty : head = g.cq.tail) :
      Move g (.deqTest call head newHead) g (.deqUnlockEmpty call)
  | deqNonempty (call head newHead : ℕ) (nonempty : head ≠ g.cq.tail) :
      Move g (.deqTest call head newHead) g (.deqSwap call head newHead)
  | deqClaim (call newHead : ℕ) :
      Move g (.deqSwap call g.cq.head newHead)
        { g with cq := { g.cq with head := newHead }, claimed := g.claimed ++ [call] }
        (.deqUnlock call g.cq.head g.claimed.length)
  | deqRetry (call head newHead : ℕ) (stale : g.cq.head ≠ head) :
      Move g (.deqSwap call head newHead) g (.deqRead call)
  | deqRelease (pc pc' : AmcqueuePc V) (held : g.cq.readLock = 1) (after : Unlocks pc pc') :
      Move g pc { g with cq := { g.cq with readLock := 0 } } pc'
  | deqUnheld (pc pc' : AmcqueuePc V) (free : g.cq.readLock ≠ 1) (after : Unlocks pc pc') :
      Move g pc g pc'
  | deqWait (call slot ticket : ℕ) (empty : g.cq.data slot = none) :
      Move g (.deqLoad call slot ticket) g (.deqLoad call slot ticket)
  | deqLoad (call slot ticket : ℕ) (ptr : V) (full : g.cq.data slot = some ptr) :
      Move g (.deqLoad call slot ticket) g (.deqTake call slot ticket ptr)
  | deqTake (call slot ticket : ℕ) (ptr : V) (full : g.cq.data slot = some ptr) :
      Move g (.deqTake call slot ticket ptr)
        { g with cq := { g.cq with data := Function.update g.cq.data slot none } }
        (.deqDone call (some ptr) .success)
  | deqLost (call slot ticket : ℕ) (ptr : V) (changed : g.cq.data slot ≠ some ptr) :
      Move g (.deqTake call slot ticket ptr) g (.deqLoad call slot ticket)
  | deqReturn (call : ℕ) (out : Option V) (rc : Amrc) :
      Move g (.deqDone call out rc) { g with history := g.history ++ deqReturn call out rc } .idle

theorem access_move [DecidableEq V] {g g' : Shared V} {pc pc' : AmcqueuePc V}
    (fired : amcqueueAccess g pc = some (g', pc')) : Move g pc g' pc' := by
  cases pc <;> simp only [amcqueueAccess, advance] at fired
  case enqRead data =>
    split at fired
    · cases fired
    · rename_i positive
      cases fired
      exact .enqRead data positive
  case enqSwap data tail newTail =>
    split at fired <;> rename_i same <;> cases fired
    · subst same
      exact .enqReserve data newTail
    · exact .enqRetry data tail newTail same
  case enqFill data slot ticket =>
    split at fired <;> rename_i empty <;> cases fired
    · exact .enqStore data slot ticket empty
    · exact .enqWait data slot ticket empty
  case deqLock call =>
    split at fired <;> rename_i free <;> cases fired
    · exact .deqLock call free
    · exact .deqSpin call free
  case deqRead call =>
    split at fired
    · cases fired
    · rename_i positive
      cases fired
      exact .deqRead call positive
  case deqTest call head newHead =>
    split at fired <;> rename_i empty <;> cases fired
    · exact .deqEmpty call head newHead empty
    · exact .deqNonempty call head newHead empty
  case deqSwap call head newHead =>
    split at fired <;> rename_i same <;> cases fired
    · subst same
      exact .deqClaim call newHead
    · exact .deqRetry call head newHead same
  case deqUnlockEmpty call =>
    split at fired <;> rename_i held <;> cases fired
    · exact .deqRelease _ _ held (.empty call)
    · exact .deqUnheld _ _ held (.empty call)
  case deqUnlock call slot ticket =>
    split at fired <;> rename_i held <;> cases fired
    · exact .deqRelease _ _ held (.claimed call slot ticket)
    · exact .deqUnheld _ _ held (.claimed call slot ticket)
  case deqLoad call slot ticket =>
    split at fired <;> rename_i cell <;> cases fired
    · exact .deqWait call slot ticket cell
    · exact .deqLoad call slot ticket _ cell
  case deqTake call slot ticket ptr =>
    split at fired <;> rename_i full <;> cases fired
    · exact .deqTake call slot ticket ptr full
    · exact .deqLost call slot ticket ptr full
  all_goals cases fired

theorem next_move [DecidableEq V] {g g' : Shared V} {pc pc' : AmcqueuePc V} {a : Act V}
    (fired : next g pc a = some (g', pc')) : Move g pc g' pc' := by
  cases a with
  | enq data =>
      simp only [next] at fired
      split at fired
      · rename_i idle
        subst idle
        cases data <;> cases fired
        · exact .enqNull
        · exact .enqCall _
      · cases fired
  | deq =>
      simp only [next] at fired
      split at fired
      · rename_i idle
        subst idle
        cases fired
        exact .deqCall
      · cases fired
  | tick =>
      simp only [next] at fired
      split at fired
      · cases fired
        exact .enqReturn _ _
      · cases fired
        exact .deqReturn _ _ _
      · exact access_move fired

def start (Tid : Type) (cq : Amcqueue V) : Config Tid (Shared V) (AmcqueuePc V) :=
  ⟨⟨cq, [], [], []⟩, fun _ => .idle⟩

end Libam.CQueue
