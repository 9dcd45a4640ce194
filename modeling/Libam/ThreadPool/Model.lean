import Libam.Types
import Libam.Concurrency.Interleaving

/-! The thread pool of `libam_thread_pool.c`, one access to the pool at a time. A push and a pop of
the task stack are single steps; a push may fail whenever blocks of the stack are in use. The
numbers that only feed the statistics are left out. -/

namespace Libam.ThreadPool

open Libam.Interleaving

variable {Tid Ptr : Type}

/-- `lam_thread_pool_config_t`. A NULL pointer is `none`. -/
structure PoolConfig (Ptr : Type) where
  lazyStart : Bool
  funcOverride : Bool
  defaultFunc : Option Ptr
  idleTimeout : UInt64
  maxThreads : UInt64
  minThreads : UInt64
  deriving DecidableEq, Repr

/-- What `lam_thread_pool_create` makes of a configuration. -/
def PoolConfig.withDefaults (config : PoolConfig Ptr) : PoolConfig Ptr :=
  let minThreads := if config.minThreads = 0 then 1 else config.minThreads
  let maxThreads :=
    if config.maxThreads ≠ 0 ∧ config.maxThreads < minThreads then minThreads else config.maxThreads
  { config with minThreads := minThreads, maxThreads := maxThreads }

/-- `lam_thread_pool_task_t`, told from all others by `serial`. -/
structure Task (Ptr : Type) where
  serial : ℕ
  func : Ptr
  arg : Ptr
  retPtr : Option Ptr
  deriving DecidableEq, Repr

/-- `struct lam_thread_pool`. The fields from `isOpen` on are a record that no code reads: whether
callers have the handle, whether the memory is freed, how many tasks were allocated, the tasks whose
`lam_thread_pool_run` returned AMRC_SUCCESS, the calls of their functions with what they returned,
and the writes through `ret_ptr`, all newest first. -/
structure Pool (Ptr : Type) where
  config : PoolConfig Ptr
  tasksQueue : List (Task Ptr)
  threadsCreated : ℤ
  threadsDestroyed : ℤ
  tasksCreated : ℤ
  activeThreadCount : ℤ
  idleThreadCount : ℤ
  runningId : ℕ
  drainSignal : Bool
  isOpen : Bool
  freed : Bool
  allocated : ℕ
  accepted : List (Task Ptr)
  executed : List (Task Ptr × Ptr)
  stored : List (Ptr × Ptr)

/-- The local variables of `lam_thread_pool_worker_func` in its loop. -/
structure Worker where
  threadId : ℕ
  busyTasksProcessed : ℕ
  now : UInt64
  lastWork : UInt64
  deriving DecidableEq, Repr

/-- Who calls `lam_thread_pool_start_thread`, with the local variables. -/
inductive Caller (Ptr : Type)
  | create (i : ℕ)
  | run (task : Task Ptr)
  | setMin (active : ℤ) (value : UInt64) (ret : Amrc)
  deriving DecidableEq, Repr

/-- The next access of a thread. `absent` is a thread that does not exist, `outside` one that is in
no call, and `owner` the one that has created the pool and will destroy it. -/
inductive Loc (Ptr : Type)
  -- `lam_thread_pool_worker_func`
  | absent
  | begin
  | countActive (threadId : ℕ)
  | countIdle (threadId : ℕ)
  | pop (w : Worker)
  | noTask (w : Worker)
  | readDrain (w : Worker)
  | shouldStop (w : Worker)
  | suspend (w : Worker)
  | gotTask (w : Worker) (task : Task Ptr)
  | process (w : Worker) (task : Task Ptr)
  | store (w : Worker) (task : Task Ptr) (ret : Ptr)
  | release (w : Worker)
  | fold
  | uncountIdle
  | uncountActive
  | countDestroyed
  -- `lam_thread_pool_start_thread`
  | checkDrain (k : Caller Ptr)
  | ticket (k : Caller Ptr)
  | compare (k : Caller Ptr) (created : ℤ)
  | rollback (k : Caller Ptr)
  | spawn (k : Caller Ptr)
  -- `lam_thread_pool_run`
  | outside
  | enter (func : Option Ptr) (arg : Ptr) (retPtr : Option Ptr)
  | countTask (task : Task Ptr)
  | readIdle (task : Task Ptr)
  | push (task : Task Ptr)
  | aborted
  -- `lam_thread_pool_set_min_thread_count`
  | survey (value : UInt64)
  | raise (active : ℤ) (value : UInt64) (ret : Amrc)
  -- `lam_thread_pool_create` and `lam_thread_pool_destroy`
  | createLoop (i : ℕ)
  | createDrain
  | createWait
  | createFree
  | owner
  | destroyDrain
  | destroyRead
  | destroyCompare (destroyed : ℤ)
  | destroyFree
  | ended
  deriving DecidableEq, Repr

/-- Where `lam_thread_pool_start_thread` returns to. -/
def Caller.resume : Caller Ptr → Amrc → Loc Ptr
  | .create i, .success => .createLoop (i + 1)
  | .create _, .error => .createDrain
  | .run task, .success => .push task
  | .run _, .error => .outside
  | .setMin active value ret, .success => .raise (active + 1) value ret
  | .setMin active value _, .error => .raise (active + 1) value .error

/-- What the next access needs besides the state: a reading of the clock, the value that a task's
function returns, the arguments of a call, the thread that `pthread_create` creates, or that an
allocation, a creation or a push fails. -/
inductive Act (Tid Ptr : Type)
  | tick
  | fail
  | clock (now : UInt64)
  | result (ret : Ptr)
  | created (child : Tid)
  | run (func : Option Ptr) (arg : Ptr) (retPtr : Option Ptr)
  | setMin (value : UInt64)
  | destroy
  deriving DecidableEq, Repr

/-- The function a task is run with; NULL is an error. -/
def PoolConfig.chooseFunc (config : PoolConfig Ptr) : Option Ptr → Option Ptr
  | none => config.defaultFunc
  | some func => if config.defaultFunc.isSome ∧ ¬ config.funcOverride then none else some func

def PoolConfig.shouldStop (config : PoolConfig Ptr) (w : Worker) : Bool :=
  if config.idleTimeout = 0 ∨ w.now - w.lastWork < config.idleTimeout then false
  else if w.threadId ≤ config.minThreads.toNat then false
  else true

/-- The test against `max_threads`, with the subtraction in 64 bits. -/
def Pool.full (g : Pool Ptr) (created : ℤ) : Bool :=
  0 < g.config.maxThreads ∧ g.config.maxThreads.toNat ≤ (created - g.threadsDestroyed) % 2 ^ 64

/-- One access of one thread, other than a `pthread_create` that succeeds. -/
def next (g : Pool Ptr) : Loc Ptr → Act Tid Ptr → Option (Pool Ptr × Loc Ptr)
  | .begin, .tick => some ({ g with runningId := g.runningId + 1 }, .countActive g.runningId)
  | .countActive threadId, .tick =>
      some ({ g with activeThreadCount := g.activeThreadCount + 1 }, .countIdle threadId)
  | .countIdle threadId, .clock now =>
      some ({ g with idleThreadCount := g.idleThreadCount + 1 }, .pop ⟨threadId, 0, now, now⟩)
  | .pop w, .tick =>
      match g.tasksQueue with
      | [] => some (g, .noTask w)
      | task :: rest => some ({ g with tasksQueue := rest }, .gotTask w task)
  | .noTask w, .tick =>
      if 0 < w.busyTasksProcessed then
        some ({ g with idleThreadCount := g.idleThreadCount + 1 },
          .readDrain { w with busyTasksProcessed := 0 })
      else some (g, .readDrain w)
  | .readDrain w, .tick => if g.drainSignal then some (g, .fold) else some (g, .shouldStop w)
  | .shouldStop w, .tick =>
      if g.config.shouldStop w then some (g, .fold) else some (g, .suspend w)
  | .suspend w, .clock now => some (g, .pop { w with now := now })
  | .gotTask w task, .clock now =>
      let w' := { w with now := now, busyTasksProcessed := w.busyTasksProcessed + 1 }
      if w.busyTasksProcessed = 0 then
        some ({ g with idleThreadCount := g.idleThreadCount - 1 }, .process w' task)
      else some (g, .process w' task)
  | .process w task, .result ret =>
      some ({ g with executed := (task, ret) :: g.executed }, .store w task ret)
  | .store w task ret, .tick =>
      match task.retPtr with
      | none => some (g, .release w)
      | some retPtr => some ({ g with stored := (retPtr, ret) :: g.stored }, .release w)
  | .release w, .clock now => some (g, .pop { w with now := now, lastWork := now })
  | .fold, .tick => some (g, .uncountIdle)
  | .uncountIdle, .tick =>
      some ({ g with idleThreadCount := g.idleThreadCount - 1 }, .uncountActive)
  | .uncountActive, .tick =>
      some ({ g with activeThreadCount := g.activeThreadCount - 1 }, .countDestroyed)
  | .countDestroyed, .tick =>
      some ({ g with threadsDestroyed := g.threadsDestroyed + 1 }, .absent)
  | .checkDrain k, .tick =>
      if g.drainSignal then some (g, k.resume .error) else some (g, .ticket k)
  | .ticket k, .tick =>
      some ({ g with threadsCreated := g.threadsCreated + 1 }, .compare k g.threadsCreated)
  | .compare k created, .tick =>
      if g.full created then some (g, .rollback k) else some (g, .spawn k)
  | .rollback k, .tick =>
      some ({ g with threadsCreated := g.threadsCreated - 1 }, k.resume .success)
  | .spawn k, .fail => some (g, k.resume .error)
  | .outside, .run func arg retPtr => if g.isOpen then some (g, .enter func arg retPtr) else none
  | .enter func arg retPtr, .tick =>
      if g.drainSignal then some (g, .aborted)
      else
        match g.config.chooseFunc func with
        | none => some (g, .outside)
        | some func =>
            some ({ g with allocated := g.allocated + 1 },
              .countTask ⟨g.allocated, func, arg, retPtr⟩)
  | .enter func _ _, .fail =>
      if g.drainSignal ∨ g.config.chooseFunc func = none then none else some (g, .outside)
  | .countTask task, .tick => some ({ g with tasksCreated := g.tasksCreated + 1 }, .readIdle task)
  | .readIdle task, .tick =>
      if g.idleThreadCount = 0 then some (g, .checkDrain (.run task)) else some (g, .push task)
  | .push task, .tick =>
      some ({ g with tasksQueue := task :: g.tasksQueue, accepted := task :: g.accepted }, .outside)
  | .push _, .fail => some (g, .outside)
  | .outside, .setMin value =>
      if g.isOpen then
        if value = 0 then some (g, .outside)
        else
          let g' := { g with config := { g.config with minThreads := value } }
          if g.config.lazyStart then some (g', .outside) else some (g', .survey value)
      else none
  | .survey value, .tick => some (g, .raise g.activeThreadCount value .success)
  | .raise active value ret, .tick =>
      if active < value.toNat then some (g, .checkDrain (.setMin active value ret))
      else some (g, .outside)
  | .createLoop i, .tick =>
      if ¬ g.config.lazyStart ∧ i < g.config.minThreads.toNat then some (g, .checkDrain (.create i))
      else some ({ g with isOpen := true }, .owner)
  | .createDrain, .tick => some ({ g with drainSignal := true }, .createWait)
  | .createWait, .tick =>
      if 0 < g.activeThreadCount then some (g, .createWait) else some (g, .createFree)
  | .createFree, .tick => some ({ g with freed := true }, .ended)
  | .owner, .destroy => some ({ g with isOpen := false }, .destroyDrain)
  | .destroyDrain, .tick => some ({ g with drainSignal := true }, .destroyRead)
  | .destroyRead, .tick => some (g, .destroyCompare g.threadsDestroyed)
  | .destroyCompare destroyed, .tick =>
      if destroyed < g.threadsCreated then some (g, .destroyRead) else some (g, .destroyFree)
  | .destroyFree, .tick => some ({ g with freed := true }, .ended)
  | _, _ => none

inductive Move (g : Pool Ptr) : Loc Ptr → Act Tid Ptr → Pool Ptr → Loc Ptr → Prop
  | begin : Move g .begin .tick { g with runningId := g.runningId + 1 } (.countActive g.runningId)
  | countActive (threadId : ℕ) :
      Move g (.countActive threadId) .tick { g with activeThreadCount := g.activeThreadCount + 1 }
        (.countIdle threadId)
  | countIdle (threadId : ℕ) (now : UInt64) :
      Move g (.countIdle threadId) (.clock now) { g with idleThreadCount := g.idleThreadCount + 1 }
        (.pop ⟨threadId, 0, now, now⟩)
  | popEmpty (w : Worker) (empty : g.tasksQueue = []) : Move g (.pop w) .tick g (.noTask w)
  | popTask (w : Worker) (task : Task Ptr) (rest : List (Task Ptr))
      (queued : g.tasksQueue = task :: rest) :
      Move g (.pop w) .tick { g with tasksQueue := rest } (.gotTask w task)
  | becomeIdle (w : Worker) (busy : 0 < w.busyTasksProcessed) :
      Move g (.noTask w) .tick { g with idleThreadCount := g.idleThreadCount + 1 }
        (.readDrain { w with busyTasksProcessed := 0 })
  | stayIdle (w : Worker) (idle : ¬ 0 < w.busyTasksProcessed) :
      Move g (.noTask w) .tick g (.readDrain w)
  | drained (w : Worker) (drain : g.drainSignal = true) : Move g (.readDrain w) .tick g .fold
  | notDrained (w : Worker) (calm : ¬ g.drainSignal = true) :
      Move g (.readDrain w) .tick g (.shouldStop w)
  | timedOut (w : Worker) (expired : g.config.shouldStop w = true) :
      Move g (.shouldStop w) .tick g .fold
  | stays (w : Worker) (fresh : ¬ g.config.shouldStop w = true) :
      Move g (.shouldStop w) .tick g (.suspend w)
  | suspend (w : Worker) (now : UInt64) :
      Move g (.suspend w) (.clock now) g (.pop { w with now := now })
  | becomeBusy (w : Worker) (task : Task Ptr) (now : UInt64) (idle : w.busyTasksProcessed = 0) :
      Move g (.gotTask w task) (.clock now) { g with idleThreadCount := g.idleThreadCount - 1 }
        (.process { w with now := now, busyTasksProcessed := w.busyTasksProcessed + 1 } task)
  | stayBusy (w : Worker) (task : Task Ptr) (now : UInt64) (busy : ¬ w.busyTasksProcessed = 0) :
      Move g (.gotTask w task) (.clock now) g
        (.process { w with now := now, busyTasksProcessed := w.busyTasksProcessed + 1 } task)
  | process (w : Worker) (task : Task Ptr) (ret : Ptr) :
      Move g (.process w task) (.result ret) { g with executed := (task, ret) :: g.executed }
        (.store w task ret)
  | storeNone (w : Worker) (task : Task Ptr) (ret : Ptr) (absent : task.retPtr = none) :
      Move g (.store w task ret) .tick g (.release w)
  | store (w : Worker) (task : Task Ptr) (ret retPtr : Ptr) (wanted : task.retPtr = some retPtr) :
      Move g (.store w task ret) .tick { g with stored := (retPtr, ret) :: g.stored } (.release w)
  | release (w : Worker) (now : UInt64) :
      Move g (.release w) (.clock now) g (.pop { w with now := now, lastWork := now })
  | fold : Move g .fold .tick g .uncountIdle
  | uncountIdle :
      Move g .uncountIdle .tick { g with idleThreadCount := g.idleThreadCount - 1 } .uncountActive
  | uncountActive :
      Move g .uncountActive .tick { g with activeThreadCount := g.activeThreadCount - 1 }
        .countDestroyed
  | countDestroyed :
      Move g .countDestroyed .tick { g with threadsDestroyed := g.threadsDestroyed + 1 } .absent
  | startDrained (k : Caller Ptr) (drain : g.drainSignal = true) :
      Move g (.checkDrain k) .tick g (k.resume .error)
  | startCalm (k : Caller Ptr) (calm : ¬ g.drainSignal = true) :
      Move g (.checkDrain k) .tick g (.ticket k)
  | ticket (k : Caller Ptr) :
      Move g (.ticket k) .tick { g with threadsCreated := g.threadsCreated + 1 }
        (.compare k g.threadsCreated)
  | refuse (k : Caller Ptr) (created : ℤ) (full : g.full created = true) :
      Move g (.compare k created) .tick g (.rollback k)
  | passes (k : Caller Ptr) (created : ℤ) (room : ¬ g.full created = true) :
      Move g (.compare k created) .tick g (.spawn k)
  | rollback (k : Caller Ptr) :
      Move g (.rollback k) .tick { g with threadsCreated := g.threadsCreated - 1 }
        (k.resume .success)
  | spawnFailed (k : Caller Ptr) : Move g (.spawn k) .fail g (k.resume .error)
  | run (func : Option Ptr) (arg : Ptr) (retPtr : Option Ptr) (shared : g.isOpen = true) :
      Move g .outside (.run func arg retPtr) g (.enter func arg retPtr)
  | abort (func : Option Ptr) (arg : Ptr) (retPtr : Option Ptr) (drain : g.drainSignal = true) :
      Move g (.enter func arg retPtr) .tick g .aborted
  | badFunc (func : Option Ptr) (arg : Ptr) (retPtr : Option Ptr) :
      Move g (.enter func arg retPtr) .tick g .outside
  | allocate (func : Option Ptr) (arg : Ptr) (retPtr : Option Ptr) (chosen : Ptr)
      (calm : ¬ g.drainSignal = true) :
      Move g (.enter func arg retPtr) .tick { g with allocated := g.allocated + 1 }
        (.countTask ⟨g.allocated, chosen, arg, retPtr⟩)
  | noMemory (func : Option Ptr) (arg : Ptr) (retPtr : Option Ptr) :
      Move g (.enter func arg retPtr) .fail g .outside
  | countTask (task : Task Ptr) :
      Move g (.countTask task) .tick { g with tasksCreated := g.tasksCreated + 1 } (.readIdle task)
  | noneIdle (task : Task Ptr) (none : g.idleThreadCount = 0) :
      Move g (.readIdle task) .tick g (.checkDrain (.run task))
  | someIdle (task : Task Ptr) (idle : ¬ g.idleThreadCount = 0) :
      Move g (.readIdle task) .tick g (.push task)
  | push (task : Task Ptr) :
      Move g (.push task) .tick
        { g with tasksQueue := task :: g.tasksQueue, accepted := task :: g.accepted } .outside
  | pushFailed (task : Task Ptr) : Move g (.push task) .fail g .outside
  | setMinZero (value : UInt64) (zero : value = 0) : Move g .outside (.setMin value) g .outside
  | setMinLazy (value : UInt64) (positive : ¬ value = 0) :
      Move g .outside (.setMin value) { g with config := { g.config with minThreads := value } }
        .outside
  | setMin (value : UInt64) (positive : ¬ value = 0) (shared : g.isOpen = true) :
      Move g .outside (.setMin value) { g with config := { g.config with minThreads := value } }
        (.survey value)
  | survey (value : UInt64) :
      Move g (.survey value) .tick g (.raise g.activeThreadCount value .success)
  | raise (active : ℤ) (value : UInt64) (ret : Amrc) :
      Move g (.raise active value ret) .tick g (.checkDrain (.setMin active value ret))
  | raised (active : ℤ) (value : UInt64) (ret : Amrc) :
      Move g (.raise active value ret) .tick g .outside
  | createMore (i : ℕ) : Move g (.createLoop i) .tick g (.checkDrain (.create i))
  | createDone (i : ℕ) : Move g (.createLoop i) .tick { g with isOpen := true } .owner
  | createDrain : Move g .createDrain .tick { g with drainSignal := true } .createWait
  | createPoll (working : 0 < g.activeThreadCount) : Move g .createWait .tick g .createWait
  | createLeave (quiet : ¬ 0 < g.activeThreadCount) : Move g .createWait .tick g .createFree
  | createFree : Move g .createFree .tick { g with freed := true } .ended
  | destroy : Move g .owner .destroy { g with isOpen := false } .destroyDrain
  | destroyDrain : Move g .destroyDrain .tick { g with drainSignal := true } .destroyRead
  | destroyRead : Move g .destroyRead .tick g (.destroyCompare g.threadsDestroyed)
  | destroyPoll (destroyed : ℤ) (working : destroyed < g.threadsCreated) :
      Move g (.destroyCompare destroyed) .tick g .destroyRead
  | destroyLeave (destroyed : ℤ) (quiet : ¬ destroyed < g.threadsCreated) :
      Move g (.destroyCompare destroyed) .tick g .destroyFree
  | destroyFree : Move g .destroyFree .tick { g with freed := true } .ended

theorem next_move {g g' : Pool Ptr} {l l' : Loc Ptr} {a : Act Tid Ptr}
    (fired : next g l a = some (g', l')) : Move g l a g' l' := by
  -- One case for each access, and below it one for each branch of its tests.
  unfold next at fired
  split at fired
  all_goals
    (try split at fired)
    all_goals (try split at fired)
    all_goals (try split at fired)
    all_goals cases fired <;> constructor <;> assumption

variable [DecidableEq Tid]

/-- One access of one thread. A thread that is created has not run yet. -/
def step (c : Config Tid (Pool Ptr) (Loc Ptr)) (act : Tid × Act Tid Ptr) :
    Option (Config Tid (Pool Ptr) (Loc Ptr)) :=
  match act.2, c.pc act.1 with
  | .created child, .spawn k =>
      match c.pc child with
      | .absent =>
          some ⟨c.shared, Function.update
            (Function.update c.pc act.1 (k.resume .success)) child .begin⟩
      | _ => none
  | _, _ => c.step next act

omit [DecidableEq Tid] in
/-- `lam_thread_pool_create` has allocated the pool and starts its first threads. -/
def start (config : PoolConfig Ptr) (pc : Tid → Loc Ptr) : Config Tid (Pool Ptr) (Loc Ptr) :=
  ⟨⟨config.withDefaults, [], 0, 0, 0, 0, 0, 1, false, false, false, 0, [], [], []⟩, pc⟩

/-- One thread creates the pool, the others exist and use it later or do not exist yet. -/
structure Starting (main : Tid) (pc : Tid → Loc Ptr) : Prop where
  creator : pc main = .createLoop 0
  others : ∀ t, t ≠ main → pc t = .outside ∨ pc t = .absent

omit [DecidableEq Tid] in
theorem Starting.all {main : Tid} {pc : Tid → Loc Ptr} (starting : Starting main pc)
    (p : Loc Ptr → Prop) (creating : p (.createLoop 0)) (outside : p .outside) (absent : p .absent)
    (t : Tid) : p (pc t) := by
  by_cases creator : t = main
  · rw [creator, starting.creator]
    exact creating
  · rcases starting.others t creator with point | point <;> rw [point] <;> assumption

structure Spawned (c : Config Tid (Pool Ptr) (Loc Ptr)) (t : Tid) (k : Caller Ptr) (child : Tid)
    (c' : Config Tid (Pool Ptr) (Loc Ptr)) : Prop where
  point : c.pc t = .spawn k
  absent : c.pc child = .absent
  shared : c'.shared = c.shared
  pc : c'.pc = Function.update (Function.update c.pc t (k.resume .success)) child .begin

theorem step_cases {c c' : Config Tid (Pool Ptr) (Loc Ptr)} {t : Tid} {a : Act Tid Ptr}
    (fired : step c (t, a) = some c') :
    (∃ g l, Move c.shared (c.pc t) a g l ∧ c' = ⟨g, Function.update c.pc t l⟩) ∨
    ∃ k child, Spawned c t k child c' := by
  unfold step at fired
  split at fired
  · rename_i child k created point
    split at fired
    · rename_i absent
      cases fired
      exact .inr ⟨k, child, point, absent, rfl, rfl⟩
    · cases fired
  · obtain ⟨g, l, accessed, rfl⟩ := Config.step_eq_some.mp fired
    exact .inl ⟨g, l, next_move accessed, rfl⟩

theorem Spawned.distinct {c c' : Config Tid (Pool Ptr) (Loc Ptr)} {t child : Tid} {k : Caller Ptr}
    (spawned : Spawned c t k child c') : child ≠ t := by
  rintro rfl
  cases spawned.absent.symm.trans spawned.point

theorem Spawned.cases {c c' : Config Tid (Pool Ptr) (Loc Ptr)} {t child : Tid} {k : Caller Ptr}
    (spawned : Spawned c t k child c') (u : Tid) :
    (c'.pc u = .begin ∧ u = child) ∨ (c'.pc u = k.resume .success ∧ u = t) ∨
    (c'.pc u = c.pc u ∧ u ≠ t ∧ u ≠ child) := by
  by_cases born : u = child
  · exact .inl ⟨by simp [spawned.pc, born], born⟩
  by_cases parent : u = t
  · exact .inr (.inl ⟨by simp [spawned.pc, parent, spawned.distinct.symm], parent⟩)
  · exact .inr (.inr ⟨by simp [spawned.pc, born, parent], parent, born⟩)

/-- What holds of the new thread, of the one that resumes and of every thread
before holds of all. -/
theorem Spawned.all {c c' : Config Tid (Pool Ptr) (Loc Ptr)} {t child : Tid} {k : Caller Ptr}
    (spawned : Spawned c t k child c') (p : Loc Ptr → Prop) (born : p .begin)
    (resumed : p (k.resume .success)) (others : ∀ u, p (c.pc u)) (u : Tid) : p (c'.pc u) := by
  rcases spawned.cases u with ⟨here, -⟩ | ⟨here, -⟩ | ⟨here, -, -⟩
  · rwa [here]
  · rwa [here]
  · rw [here]
    exact others u

/-- What relates the points of a thread before and after a move of it, or a `pthread_create`,
relates the points of every thread before and after a step. -/
theorem step_points {c c' : Config Tid (Pool Ptr) (Loc Ptr)} {act : Tid × Act Tid Ptr}
    (rel : Loc Ptr → Loc Ptr → Prop) (same : ∀ l, rel l l)
    (moved : ∀ {t : Tid} {a : Act Tid Ptr} {g l}, Move c.shared (c.pc t) a g l → rel (c.pc t) l)
    (born : rel .absent .begin) (resumed : ∀ k : Caller Ptr, rel (.spawn k) (k.resume .success))
    (fired : step c act = some c') (u : Tid) : rel (c.pc u) (c'.pc u) := by
  obtain ⟨t, a⟩ := act
  rcases step_cases fired with ⟨g, l, move, rfl⟩ | ⟨k, child, spawned⟩
  · exact (Function.forall_update_iff c.pc fun u l => rel (c.pc u) l).mpr
      ⟨moved move, fun u _ => same (c.pc u)⟩ u
  · rcases spawned.cases u with ⟨here, rfl⟩ | ⟨here, rfl⟩ | ⟨here, -, -⟩
    · rw [here, spawned.absent]
      exact born
    · rw [here, spawned.point]
      exact resumed k
    · rw [here]
      exact same (c.pc u)

end Libam.ThreadPool
