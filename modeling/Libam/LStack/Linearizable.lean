import Libam.Concurrency.Linearizable
import Libam.LStack.Invariant
import Libam.LStack.Sequential

/-! The linked stack is linearizable: every push and pop takes effect at one moment between its call
and its return, on a last-in first-out stack. A push does so at its swap of `head`, a pop at its
swap or, of an empty stack, at its read of NULL. -/

namespace Libam.LStack

open Libam.Interleaving Libam.Chain Libam.History

variable {N : Type}

inductive Result (N : Type)
  | pushed
  | popped (out : Option N)
  deriving DecidableEq, Repr

/-- The last-in first-out stack that the header promises. -/
def lifoObject : Object (List N) (Op N) (Result N) where
  init := []
  apply
    | nodes, .push node => (node :: nodes, .pushed)
    | [], .pop => ([], .popped none)
    | top :: rest, .pop => (rest, .popped (some top))

def see (_ : Shared N) : AmlstackPc N → Act N → Option (Seen (Op N) (Result N))
  | .idle, .push node => some (.call (.push node))
  | .idle, .pop => some (.call .pop)
  | .pushDone _, .tick => some (.ret .pushed)
  | .popDone out, .tick => some (.ret (.popped out))
  | _, _ => none

def AmlstackPc.status : AmlstackPc N → Status (Op N) (Result N)
  | .idle => .idle
  | .pushRead node => .called (.push node)
  | .pushLink node _ => .called (.push node)
  | .pushSwap node _ => .called (.push node)
  | .pushInc _ => .done .pushed
  | .pushDone _ => .done .pushed
  | .popLock => .called .pop
  | .popRead => .called .pop
  | .popNext _ => .called .pop
  | .popSwap _ _ => .called .pop
  | .popClear head => .done (.popped (some head))
  | .popDec head => .done (.popped (some head))
  | .popUnlock out => .done (.popped out)
  | .popDone out => .done (.popped out)
  | .aborted => .idle

variable [DecidableEq N] {Tid : Type} [Fintype Tid] [DecidableEq Tid]

structure Shows (c : Config Tid (Shared N) (AmlstackPc N)) (nodes : List N) : Prop where
  sound : Sound c
  recorded : lifo c.shared.log = some nodes

omit [DecidableEq Tid] in
theorem Shows.empty {c : Config Tid (Shared N) (AmlstackPc N)} {nodes : List N}
    (shows : Shows c nodes) (empty : c.shared.stk.head = none) : nodes = [] := by
  obtain ⟨nodes', stacked, -⟩ := shows.sound.stacked
  cases Option.some.inj (stacked.recorded.symm.trans shows.recorded)
  have linked := stacked.linked
  rw [empty] at linked
  cases nodes with
  | nil => rfl
  | cons top rest => cases linked.1

omit [DecidableEq Tid] in
theorem move_explained {c : Config Tid (Shared N) (AmlstackPc N)} {t : Tid} {a : Act N}
    {g : Shared N} {l : AmlstackPc N} {nodes nodes' : List N} (shows : Shows c nodes)
    (moved : Move c.shared (c.pc t) a g l) (recorded : lifo g.log = some nodes') :
    Explains lifoObject nodes (c.pc t).status (see c.shared (c.pc t) a) nodes' l.status := by
  have before := shows.recorded
  have live := shows.sound.live t
  have held : (c.pc t).locked = true → c.shared.stk.consumerLock = 1 := fun inside =>
    shows.sound.locked.held inside
  have empty := shows.empty
  generalize c.pc t = pc at moved live held
  have same : g.log = c.shared.log → nodes' = nodes := by
    intro kept
    rw [kept, before] at recorded
    exact (Option.some.inj recorded).symm
  cases moved with
  | pushCall node =>
      cases same rfl
      exact .call nodes (Op.push node)
  | pushSwap node =>
      rw [lifo_push] at recorded
      obtain ⟨prior, earlier, rfl⟩ := recorded
      cases Option.some.inj (before.symm.trans earlier)
      exact .effect nodes (Op.push node)
  | pushReturn node =>
      cases same rfl
      exact .ret nodes Result.pushed
  | popCall =>
      cases same rfl
      exact .call nodes Op.pop
  | popEmpty none =>
      cases same rfl
      cases empty none
      exact .effect [] Op.pop
  | popSwap head link top =>
      rw [lifo_pop] at recorded
      cases Option.some.inj (before.symm.trans recorded)
      exact .effect (head :: nodes') Op.pop
  | popAbort out free => exact absurd (held rfl) free
  | popReturn out =>
      cases same rfl
      exact .ret nodes (Result.popped out)
  | _ =>
      cases same rfl
      exact .quiet nodes _

/-- Every interleaving of pushes and pops, of nodes that are neither on the stack nor in the hands
of a call, is seen by its clients as calls on a last-in first-out stack, one after the other. -/
theorem amlstack_linearizable {stk : Amlstack N} (unlocked : stk.consumerLock = 0)
    (links : N → Option N) {actions : List (Tid × Act N)} {c : Config Tid (Shared N) (AmlstackPc N)}
    (run : Run (Config.step next) Pushable (start Tid stk links) actions c) :
    Linearizable lifoObject (history next see (start Tid stk links) actions) := by
  apply linearizable_run Shows (fun _ l => l.status) ⟨sound_start stk links unlocked, rfl⟩
    (fun _ => rfl) ?_ run
  intro c act g l nodes shows stepped pushable
  have sound' := sound_step c act _ shows.sound
    (Config.step_eq_some.mpr ⟨g, l, stepped, rfl⟩) pushable
  obtain ⟨nodes', stacked, -⟩ := sound'.stacked
  exact ⟨fun _ _ => rfl, nodes', ⟨sound', stacked.recorded⟩,
    move_explained shows (next_move stepped) stacked.recorded⟩

/-- Two pops that overlap, of which the later one to be called takes the only node. -/
theorem amlstack_linearizable_sample : Linearizable lifoObject
    [((0 : Fin 2), .call (.push 1)), (0, .ret .pushed), (0, .call .pop), (1, .call .pop),
      (1, .ret (.popped (some 1))), (0, .ret (.popped none))] := by
  have run : Run (Config.step next) Pushable
      (start (Fin 2) (⟨0, 0, none⟩ : Amlstack ℕ) fun _ => none)
      [(0, .push 1), (0, .tick), (0, .tick), (0, .tick), (0, .tick), (0, .tick),
        (0, .pop), (1, .pop),
        (1, .tick), (0, .tick), (1, .tick), (1, .tick), (1, .tick), (1, .tick),
        (1, .tick), (1, .tick), (1, .tick), (0, .tick), (0, .tick), (0, .tick), (0, .tick)] _ :=
    run_of_runs (fun c act c' => decide (Pushable c act c'))
      (fun _ _ _ checked => of_decide_eq_true checked) rfl (by decide)
  exact amlstack_linearizable rfl _ run

end Libam.LStack
