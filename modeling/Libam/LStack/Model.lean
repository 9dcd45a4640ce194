import Libam.Types
import Libam.Concurrency.Interleaving
import Libam.Concurrency.Chain

/-! The linked stack of `libam_lstack.c` with its consumer spinlock, one atomic access of a
call at a time. -/

namespace Libam.LStack

open Libam.Interleaving Libam.Chain

variable {N : Type}

/-- `amlstack_t`. A NULL pointer is `none`; `consumerLock` is `AMSPINLOCK_UNLOCKED` at 0. -/
structure Amlstack (N : Type) where
  size : UInt64
  consumerLock : ℕ
  head : Option N

/-- `amlstack_init` leaves the lock as it is. -/
def amlstackInit (stk : Amlstack N) : Amlstack N := { stk with size := 0, head := none }

/-- The stack, the `next` fields of all nodes, and a record of the swaps of `head`, newest first,
that no call reads. -/
structure Shared (N : Type) where
  stk : Amlstack N
  next : N → Option N
  log : List (Swap N)

/-- The next access of a running call, with the values its local variables hold. -/
inductive AmlstackPc (N : Type)
  | idle
  | pushRead (node : N)
  | pushLink (node : N) (head : Option N)
  | pushSwap (node : N) (head : Option N)
  | pushInc (node : N)
  | pushDone (node : N)
  | popLock
  | popRead
  | popNext (head : N)
  | popSwap (head : N) (next : Option N)
  | popClear (head : N)
  | popDec (head : N)
  | popUnlock (out : Option N)
  | popDone (out : Option N)
  | aborted
  deriving DecidableEq, Repr

/-- One access of a running call. No call runs at `idle` or after `abort()`, nor after
its last access. -/
def amlstackAccess [DecidableEq N] (g : Shared N) :
    AmlstackPc N → Option (Shared N × AmlstackPc N)
  | .idle => none
  | .pushRead node => some (g, .pushLink node g.stk.head)
  | .pushLink node head =>
      some ({ g with next := Function.update g.next node head }, .pushSwap node head)
  | .pushSwap node head =>
      if g.stk.head = head then
        some ({ g with stk := { g.stk with head := some node }, log := .push node :: g.log },
          .pushInc node)
      else some (g, .pushRead node)
  | .pushInc node =>
      some ({ g with stk := { g.stk with size := g.stk.size + 1 } }, .pushDone node)
  | .pushDone _ => none
  | .popLock =>
      if g.stk.consumerLock = 0 then
        some ({ g with stk := { g.stk with consumerLock := 1 } }, .popRead)
      else some (g, .popLock)
  | .popRead =>
      match g.stk.head with
      | none => some (g, .popUnlock none)
      | some head => some (g, .popNext head)
  | .popNext head => some (g, .popSwap head (g.next head))
  | .popSwap head next =>
      if g.stk.head = some head then
        some ({ g with stk := { g.stk with head := next }, log := .pop head :: g.log },
          .popClear head)
      else some (g, .popRead)
  | .popClear head =>
      some ({ g with next := Function.update g.next head none }, .popDec head)
  | .popDec head =>
      some ({ g with stk := { g.stk with size := g.stk.size - 1 } },
        .popUnlock (some head))
  | .popUnlock out =>
      if g.stk.consumerLock = 1 then
        some ({ g with stk := { g.stk with consumerLock := 0 } }, .popDone out)
      else some (g, .aborted)
  | .popDone _ => none
  | .aborted => none

inductive Act (N : Type)
  | push (node : N)
  | pop
  | tick
  deriving DecidableEq, Repr

def next [DecidableEq N] (g : Shared N) (pc : AmlstackPc N) :
    Act N → Option (Shared N × AmlstackPc N)
  | .push node => if pc = .idle then some (g, .pushRead node) else none
  | .pop => if pc = .idle then some (g, .popLock) else none
  | .tick =>
      match pc with
      | .pushDone _ => some (g, .idle)
      | .popDone _ => some (g, .idle)
      | _ => amlstackAccess g pc

inductive Move [DecidableEq N] (g : Shared N) : AmlstackPc N → Act N → Shared N →
    AmlstackPc N → Prop
  | pushCall (node : N) : Move g .idle (.push node) g (.pushRead node)
  | pushRead (node : N) : Move g (.pushRead node) .tick g (.pushLink node g.stk.head)
  | pushLink (node : N) (head : Option N) :
      Move g (.pushLink node head) .tick { g with next := Function.update g.next node head }
        (.pushSwap node head)
  | pushSwap (node : N) :
      Move g (.pushSwap node g.stk.head) .tick
        { g with stk := { g.stk with head := some node }, log := .push node :: g.log }
        (.pushInc node)
  | pushRetry (node : N) (head : Option N) (stale : g.stk.head ≠ head) :
      Move g (.pushSwap node head) .tick g (.pushRead node)
  | pushInc (node : N) :
      Move g (.pushInc node) .tick
        { g with stk := { g.stk with size := g.stk.size + 1 } } (.pushDone node)
  | pushReturn (node : N) : Move g (.pushDone node) .tick g .idle
  | popCall : Move g .idle .pop g .popLock
  | popLock (free : g.stk.consumerLock = 0) :
      Move g .popLock .tick { g with stk := { g.stk with consumerLock := 1 } } .popRead
  | popSpin (held : g.stk.consumerLock ≠ 0) : Move g .popLock .tick g .popLock
  | popEmpty (empty : g.stk.head = none) : Move g .popRead .tick g (.popUnlock none)
  | popRead (head : N) (top : g.stk.head = some head) : Move g .popRead .tick g (.popNext head)
  | popNext (head : N) : Move g (.popNext head) .tick g (.popSwap head (g.next head))
  | popSwap (head : N) (next : Option N) (top : g.stk.head = some head) :
      Move g (.popSwap head next) .tick
        { g with stk := { g.stk with head := next }, log := .pop head :: g.log } (.popClear head)
  | popRetry (head : N) (next : Option N) (stale : g.stk.head ≠ some head) :
      Move g (.popSwap head next) .tick g .popRead
  | popClear (head : N) :
      Move g (.popClear head) .tick { g with next := Function.update g.next head none }
        (.popDec head)
  | popDec (head : N) :
      Move g (.popDec head) .tick
        { g with stk := { g.stk with size := g.stk.size - 1 } }
        (.popUnlock (some head))
  | popUnlock (out : Option N) (held : g.stk.consumerLock = 1) :
      Move g (.popUnlock out) .tick { g with stk := { g.stk with consumerLock := 0 } }
        (.popDone out)
  | popAbort (out : Option N) (free : g.stk.consumerLock ≠ 1) :
      Move g (.popUnlock out) .tick g .aborted
  | popReturn (out : Option N) : Move g (.popDone out) .tick g .idle

theorem access_move [DecidableEq N] {g g' : Shared N} {pc pc' : AmlstackPc N}
    (fired : amlstackAccess g pc = some (g', pc')) : Move g pc .tick g' pc' := by
  cases pc <;> simp only [amlstackAccess] at fired
  case pushRead node =>
    cases fired
    exact .pushRead node
  case pushLink node head =>
    cases fired
    exact .pushLink node head
  case pushSwap node head =>
    split at fired <;> rename_i same <;> cases fired
    · subst same
      exact .pushSwap node
    · exact .pushRetry node head same
  case pushInc node =>
    cases fired
    exact .pushInc node
  case popLock =>
    split at fired <;> rename_i free <;> cases fired
    · exact .popLock free
    · exact .popSpin free
  case popRead =>
    split at fired <;> rename_i top <;> cases fired
    · exact .popEmpty top
    · exact .popRead _ top
  case popNext head =>
    cases fired
    exact .popNext head
  case popSwap head next =>
    split at fired <;> rename_i top <;> cases fired
    · exact .popSwap head next top
    · exact .popRetry head next top
  case popClear head =>
    cases fired
    exact .popClear head
  case popDec head =>
    simp only [Option.some.injEq, Prod.mk.injEq] at fired
    obtain ⟨rfl, rfl⟩ := fired
    exact .popDec head
  case popUnlock out =>
    split at fired <;> rename_i held <;> cases fired
    · exact .popUnlock out held
    · exact .popAbort out held
  all_goals cases fired

theorem next_move [DecidableEq N] {g g' : Shared N} {pc pc' : AmlstackPc N} {a : Act N}
    (fired : next g pc a = some (g', pc')) : Move g pc a g' pc' := by
  cases a with
  | push node =>
      simp only [next] at fired
      split at fired
      · rename_i idle
        subst idle
        cases fired
        exact .pushCall node
      · cases fired
  | pop =>
      simp only [next] at fired
      split at fired
      · rename_i idle
        subst idle
        cases fired
        exact .popCall
      · cases fired
  | tick =>
      simp only [next] at fired
      split at fired
      · cases fired
        exact .pushReturn _
      · cases fired
        exact .popReturn _
      · exact access_move fired

/-- A stack just initialised, with nodes whose fields hold anything, that no thread uses yet. -/
def start (Tid : Type) (stk : Amlstack N) (next : N → Option N) :
    Config Tid (Shared N) (AmlstackPc N) :=
  ⟨⟨amlstackInit stk, next, []⟩, fun _ => .idle⟩

end Libam.LStack
