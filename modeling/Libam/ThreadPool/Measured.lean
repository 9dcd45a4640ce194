import Libam.Stats.Shares
import Libam.ThreadPool.Freed

/-! The thread pool with its statistics: the numbers of the tasks, what each worker collects on its
own, and `lam_thread_pool_stats_fold` under its mutex, one access at a time. -/

namespace Libam.ThreadPool

open Libam.Interleaving Libam.Stats

variable {Tid Ptr : Type}

inductive Measure
  | activeThreadCount
  | idleThreadCount
  | taskDelay
  | tasksProcessed
  | busyTaskNum
  | queueDepth
  deriving DecidableEq, Repr

def measures : List Measure :=
  [.activeThreadCount, .idleThreadCount, .taskDelay, .tasksProcessed, .busyTaskNum, .queueDepth]

/-- `lam_thread_pool_stats_init`; the two counters of it are 0 in every worker. -/
def statsInit : Measure → AmstatRange := fun _ => amstatInit

/-- The stat-related numbers of `lam_thread_pool_task_t`. -/
structure TaskNumbers where
  queueTime : UInt64
  activeThreadCount : UInt64
  idleThreadCount : UInt64
  queueDepth : UInt64
  deriving DecidableEq, Repr

/-- `lam_thread_pool_stats_t`. -/
structure PoolStats where
  threadsCreated : ℤ
  tasksCreated : ℤ
  ranges : Measure → AmstatRange

structure Taken (Ptr : Type) where
  task : Task Ptr
  numbers : TaskNumbers
  now : UInt64
  deriving DecidableEq, Repr

def Taken.values (taken : Taken Ptr) : List (Measure × UInt64) :=
  [(.taskDelay, taken.now - taken.numbers.queueTime),
    (.activeThreadCount, taken.numbers.activeThreadCount),
    (.idleThreadCount, taken.numbers.idleThreadCount),
    (.queueDepth, taken.numbers.queueDepth)]

/-- The pool with `stats`, `stats_mutex`, and the numbers of the tasks. The fields from `reported`
on are a record that no code reads: what `lam_thread_pool_destroy` has copied out, the values that
were merged into `stats`, the tasks that were taken, newest first, and how many of them were run by
workers that the drain signal has stopped. -/
structure Measured (Ptr : Type) where
  pool : Pool Ptr
  stats : Measure → AmstatRange
  locked : Bool
  numbers : ℕ → TaskNumbers
  reported : Option PoolStats
  merged : Measure → List UInt64
  taken : List (Taken Ptr)
  stopped : ℕ

/-- How far a thread has got where the pool alone makes one access: with the numbers of its task, or
with the ranges that it still has to merge. -/
inductive Stage
  | plain
  | depth (queueTime : UInt64)
  | active (queueTime queueDepth : UInt64)
  | idle (queueTime queueDepth active : UInt64)
  | load (rest : List Measure)
  | store (m : Measure) (seen : AmstatRange) (rest : List Measure)
  deriving DecidableEq, Repr

/-- A thread with `total_tasks_processed` and `local_stats`. No code reads `kept`, the values in
`local_stats` that are not merged yet. -/
structure Station (Ptr : Type) where
  loc : Loc Ptr
  stage : Stage
  total : ℕ
  stats : Measure → AmstatRange
  kept : Measure → List UInt64

inductive Reading (Tid Ptr : Type)
  | act (a : Act Tid Ptr)
  | size (queueDepth : UInt64)
  deriving DecidableEq, Repr

def Station.record (p : Station Ptr) (entry : Measure × UInt64) : Station Ptr :=
  { p with
    stats := Function.update p.stats entry.1 (amstatUpd (p.stats entry.1) entry.2)
    kept := Function.update p.kept entry.1 (p.kept entry.1 ++ [entry.2]) }

def Station.accounts (s : Measured Ptr) (p : Station Ptr) (a : Act Tid Ptr) : Station Ptr :=
  match p.loc, a with
  | .countIdle _, _ => { p with stats := statsInit, total := 0 }
  | .noTask w, _ =>
      if 0 < w.busyTasksProcessed then
        { p.record (.busyTaskNum, .ofNat w.busyTasksProcessed) with
          total := p.total + w.busyTasksProcessed }
      else p
  | .shouldStop w, _ =>
      if s.pool.config.shouldStop w then p.record (.tasksProcessed, .ofNat p.total) else p
  | .gotTask _ task,
      .clock now => (Taken.mk task (s.numbers task.serial) now).values.foldl Station.record p
  | _, _ => p

def Measured.accounts (s : Measured Ptr) (p : Station Ptr) (a : Act Tid Ptr) : Measured Ptr :=
  match p.loc, a with
  | .gotTask _ task, .clock now => { s with taken := ⟨task, s.numbers task.serial, now⟩ :: s.taken }
  | .readDrain _, _ => if s.pool.drainSignal then { s with stopped := s.stopped + p.total } else s
  | .destroyFree, _ =>
      { s with reported := some ⟨s.pool.threadsCreated, s.pool.tasksCreated, s.stats⟩ }
  | _, _ => s

def Measured.follow (s : Measured Ptr) (p : Station Ptr) (a : Act Tid Ptr) :
    Option (Measured Ptr × Station Ptr) :=
  (next s.pool p.loc a).map fun r =>
    ({ s.accounts p a with pool := r.1 }, { p.accounts s a with loc := r.2, stage := .plain })

/-- The numbers of a task, as `lam_thread_pool_run` sets them; threads may have become idle since it
has counted the active ones. -/
def TaskNumbers.set (queueTime queueDepth active idle : UInt64) : TaskNumbers :=
  { queueTime := queueTime
    activeThreadCount := if active < idle then idle else active
    idleThreadCount := idle
    queueDepth := queueDepth }

/-- The accounting in `lam_thread_pool_run`, up to the test of `idle_thread_count`. -/
def Measured.survey (s : Measured Ptr) (p : Station Ptr) (task : Task Ptr) (a : Reading Tid Ptr) :
    Option (Measured Ptr × Station Ptr) :=
  match p.stage, a with
  | .plain, .act (.clock now) => some (s, { p with stage := .depth now })
  | .depth queueTime, .size queueDepth => some (s, { p with stage := .active queueTime queueDepth })
  | .active queueTime queueDepth, .act .tick =>
      some (s, { p with stage := .idle queueTime queueDepth (.ofInt s.pool.activeThreadCount) })
  | .idle queueTime queueDepth active, .act .tick =>
      let numbers := TaskNumbers.set queueTime queueDepth active (.ofInt s.pool.idleThreadCount)
      { s with numbers := Function.update s.numbers task.serial numbers }.follow p
      (.tick : Act Tid Ptr)
  | _, _ => none

/-- `lam_thread_pool_stats_fold`: the lock, for each range a read and a write of
`tp->stats`, the unlock. -/
def Measured.fold (s : Measured Ptr) (p : Station Ptr) (a : Reading Tid Ptr) :
    Option (Measured Ptr × Station Ptr) :=
  match p.stage, a with
  | .plain, .act .tick =>
      if s.locked then none else some ({ s with locked := true },
        { p with stage := .load measures })
  | .load (m :: rest), .act .tick => some (s, { p with stage := .store m (s.stats m) rest })
  | .store m seen rest, .act .tick =>
      some ({ s with
        stats := Function.update s.stats m (amstatAdded seen (p.stats m)).1
        merged := Function.update s.merged m (s.merged m ++ p.kept m) },
      { p with
        stage := .load rest
        stats := Function.update p.stats m (amstatAdded seen (p.stats m)).2
        kept := Function.update p.kept m [] })
  | .load [], .act .tick => { s with locked := false }.follow p (.tick : Act Tid Ptr)
  | _, _ => none

/-- One access of one thread, other than a `pthread_create` that succeeds. -/
def Measured.next (s : Measured Ptr) (p : Station Ptr) (a : Reading Tid Ptr) :
    Option (Measured Ptr × Station Ptr) :=
  match p.loc with
  | .readIdle task => s.survey p task a
  | .fold => s.fold p a
  | _ =>
      match a with
      | .act a => s.follow p a
      | .size _ => none

/-- One access of one thread. A thread that is created has not run yet. -/
def measuredStep [DecidableEq Tid] (c : Config Tid (Measured Ptr) (Station Ptr))
    (act : Tid × Reading Tid Ptr) : Option (Config Tid (Measured Ptr) (Station Ptr)) :=
  match act.2, (c.pc act.1).loc with
  | .act (.created child), .spawn k =>
      match (c.pc child).loc with
      | .absent =>
          let resumed := Function.update c.pc act.1 { c.pc act.1 with loc := k.resume .success }
          some ⟨c.shared, Function.update resumed child { c.pc child with loc := .begin }⟩
      | _ => none
  | _, _ => c.step Measured.next act

def plainly (c : Config Tid (Measured Ptr) (Station Ptr)) : Config Tid (Pool Ptr) (Loc Ptr) :=
  ⟨c.shared.pool, fun t => (c.pc t).loc⟩

/-- The statistics are initialised, and nothing was measured. The numbers of tasks that do not exist
yet and the local variables of the threads are whatever the memory holds. -/
structure Unmeasured (config : PoolConfig Ptr) (pc : Tid → Loc Ptr)
    (c : Config Tid (Measured Ptr) (Station Ptr)) : Prop where
  plain : plainly c = start config pc
  stats : c.shared.stats = statsInit
  unlocked : c.shared.locked = false
  reported : c.shared.reported = none
  merged : c.shared.merged = fun _ => []
  taken : c.shared.taken = []
  stopped : c.shared.stopped = 0
  threads : ∀ t, (c.pc t).stage = .plain ∧ (c.pc t).kept = fun _ => []

def sampleUnmeasured : Config (Fin 3) (Measured ℕ) (Station ℕ) :=
  ⟨⟨(start ⟨false, false, none, 0, 0, 1⟩ ![(.createLoop 0 : Loc ℕ), .outside, .absent]).shared,
      statsInit, false,
      fun _ => ⟨0, 0, 0, 0⟩, none, fun _ => [], [], 0⟩,
    fun t => ⟨(![.createLoop 0, .outside, .absent] : Fin 3 → Loc ℕ) t, .plain, 0,
      statsInit, fun _ => []⟩⟩

def MeasuredPatient (c : Config Tid (Measured Ptr) (Station Ptr)) (act : Tid × Reading Tid Ptr)
    (c' : Config Tid (Measured Ptr) (Station Ptr)) : Prop :=
  Patient (plainly c) (act.1, (.tick : Act Tid Ptr)) (plainly c')

def Stage.locking : Stage → Bool
  | .load _ => true
  | .store _ _ _ => true
  | _ => false

/-- What one access of one thread can be, and what a `pthread_create` is for each of
the two threads. -/
inductive Measures (Tid : Type) {Ptr : Type} (s : Measured Ptr) (p : Station Ptr) : Measured Ptr →
    Station Ptr → Prop
  | reads (task : Task Ptr) (stage : Stage) (point : p.loc = .readIdle task)
      (outside : stage.locking = false) :
      Measures Tid s p s { p with stage := stage }
  | surveys (task : Task Ptr) (numbers : TaskNumbers) {g : Pool Ptr} {l : Loc Ptr}
      (point : p.loc = .readIdle task)
      (ordered : numbers.idleThreadCount ≤ numbers.activeThreadCount)
      (moved : Move s.pool (.readIdle task) (.tick : Act Tid Ptr) g l) :
      Measures Tid s p { s with
        numbers := Function.update s.numbers task.serial numbers, pool := g }
        { p with loc := l, stage := .plain }
  | locks (point : p.loc = .fold) (stage : p.stage = .plain) (free : s.locked = false) :
      Measures Tid s p { s with locked := true } { p with stage := .load measures }
  | loads (m : Measure) (rest : List Measure) (point : p.loc = .fold)
      (stage : p.stage = .load (m :: rest)) :
      Measures Tid s p s { p with stage := .store m (s.stats m) rest }
  | stores (m : Measure) (seen : AmstatRange) (rest : List Measure) (point : p.loc = .fold)
      (stage : p.stage = .store m seen rest) :
      Measures Tid s p { s with
          stats := Function.update s.stats m (amstatAdded seen (p.stats m)).1
          merged := Function.update s.merged m (s.merged m ++ p.kept m) }
        { p with
          stage := .load rest
          stats := Function.update p.stats m (amstatAdded seen (p.stats m)).2
          kept := Function.update p.kept m [] }
  | unlocks (point : p.loc = .fold) (stage : p.stage = .load []) :
      Measures Tid s p { s with locked := false } { p with loc := .uncountIdle, stage := .plain }
  | resumes (k : Caller Ptr) (point : p.loc = .spawn k) : Measures Tid s p s
      { p with loc := k.resume .success }
  | begins (point : p.loc = .absent) : Measures Tid s p s { p with loc := .begin }
  | follows (a : Act Tid Ptr) {g : Pool Ptr} {l : Loc Ptr} (folded : p.loc ≠ .fold)
      (surveyed : ∀ task, p.loc ≠ .readIdle task) (moved : Move s.pool p.loc a g l) :
      Measures Tid s p { s.accounts p a with pool := g }
      { p.accounts s a with loc := l, stage := .plain }

section Accesses

variable {s s' : Measured Ptr} {p p' : Station Ptr}

theorem TaskNumbers.set_ordered (queueTime queueDepth active idle : UInt64) :
    (TaskNumbers.set queueTime queueDepth active idle).idleThreadCount ≤
      (TaskNumbers.set queueTime queueDepth active idle).activeThreadCount := by
  simp only [TaskNumbers.set]
  split
  · exact UInt64.le_refl _
  · rename_i few
    exact UInt64.not_lt.mp few

theorem follow_eq_some {a : Act Tid Ptr} : s.follow p a = some (s', p') ↔ ∃ g l,
    next s.pool p.loc a = some (g, l) ∧
    s' = { s.accounts p a with pool := g } ∧
    p' = { p.accounts s a with loc := l, stage := .plain } := by
  simp only [Measured.follow, Option.map_eq_some_iff, Prod.exists, Prod.mk.injEq, eq_comm (a := s'),
    eq_comm (a := p')]

theorem accounts_staged {a : Act Tid Ptr}
    (staged : p.loc = .fold ∨ ∃ task, p.loc = .readIdle task) :
    s.accounts p a = s ∧ p.accounts s a = p := by
  rcases staged with point | ⟨task, point⟩ <;>
    simp only [Measured.accounts, Station.accounts, point, and_self]

theorem measures_of_next {a : Reading Tid Ptr} (fired : s.next p a = some (s', p')) :
    Measures Tid s p s' p' := by
  unfold Measured.next at fired
  split at fired
  · rename_i task point
    unfold Measured.survey at fired
    split at fired
    · cases fired
      exact .reads task _ point rfl
    · cases fired
      exact .reads task _ point rfl
    · cases fired
      exact .reads task _ point rfl
    · obtain ⟨g, l, moved, rfl, rfl⟩ := follow_eq_some.mp fired
      rw [(accounts_staged (.inr ⟨task, point⟩)).1, (accounts_staged (.inr ⟨task, point⟩)).2]
      exact .surveys task _ point (TaskNumbers.set_ordered ..) (next_move (point ▸ moved))
    · cases fired
  · rename_i point
    unfold Measured.fold at fired
    split at fired
    · rename_i stage
      split at fired
      · cases fired
      · rename_i free
        cases fired
        exact .locks point stage (by simpa using free)
    · rename_i m rest stage
      cases fired
      exact .loads m rest point stage
    · rename_i m seen rest stage
      cases fired
      exact .stores m seen rest point stage
    · rename_i stage
      obtain ⟨g, l, moved, rfl, rfl⟩ := follow_eq_some.mp fired
      rw [point] at moved
      cases moved
      rw [(accounts_staged (.inl point)).1, (accounts_staged (.inl point)).2]
      exact .unlocks point stage
    · cases fired
  · rename_i surveyed folded
    split at fired
    · obtain ⟨g, l, moved, rfl, rfl⟩ := follow_eq_some.mp fired
      exact .follows _ folded surveyed (next_move moved)
    · cases fired

end Accesses

section Steps

variable [DecidableEq Tid] {c c' : Config Tid (Measured Ptr) (Station Ptr)} {t : Tid}
  {a : Reading Tid Ptr}

structure SpawnMeasured (c : Config Tid (Measured Ptr) (Station Ptr)) (t : Tid) (k : Caller Ptr)
    (child : Tid) (c' : Config Tid (Measured Ptr) (Station Ptr)) : Prop where
  point : (c.pc t).loc = .spawn k
  absent : (c.pc child).loc = .absent
  stepped : c' = ⟨c.shared, Function.update
    (Function.update c.pc t { c.pc t with loc := k.resume .success }) child
    { c.pc child with loc := .begin }⟩

theorem measuredStep_cases (fired : measuredStep c (t, a) = some c') :
    (∃ s p, c.shared.next (c.pc t) a = some (s, p) ∧ c' = ⟨s, Function.update c.pc t p⟩) ∨
    ∃ k child, a = .act (.created child) ∧ SpawnMeasured c t k child c' := by
  unfold measuredStep at fired
  split at fired
  · rename_i child k created point
    split at fired
    · rename_i absent
      cases fired
      exact .inr ⟨k, child, created, point, absent, rfl⟩
    · cases fired
  · exact .inl (Config.step_eq_some.mp fired)

theorem measuredStep_keeps (Inv : Config Tid (Measured Ptr) (Station Ptr) → Prop)
    (Fit : Measured Ptr → Station Ptr → Prop) (fit : ∀ t, Fit c.shared (c.pc t))
    (kept : ∀ (c : Config Tid (Measured Ptr) (Station Ptr)) t s p, Inv c → Fit c.shared (c.pc t) →
      Measures Tid c.shared (c.pc t) s p → Inv ⟨s, Function.update c.pc t p⟩)
    (fired : measuredStep c (t, a) = some c') (inv : Inv c) : Inv c' := by
  rcases measuredStep_cases fired with ⟨s, p, moved, rfl⟩ | ⟨k, child, -, spawned⟩
  · exact kept c t s p inv (fit t) (measures_of_next moved)
  · obtain ⟨point, absent, rfl⟩ := spawned
    have other : child ≠ t := by
      intro same
      rw [same, point] at absent
      cases absent
    have resumed := kept c t _ _ inv (fit t) (.resumes k point)
    have born := kept _ child c.shared { c.pc child with loc := .begin } resumed
    simp only [Function.update_of_ne other] at born
    exact born (fit child) (.begins absent)

omit [DecidableEq Tid] in
theorem next_of_follow {s s' : Measured Ptr} {p p' : Station Ptr} {act : Act Tid Ptr}
    (fired : s.follow p act = some (s', p')) :
    ThreadPool.next s.pool p.loc act = some (s'.pool, p'.loc) := by
  obtain ⟨g, l, moved, rfl, rfl⟩ := follow_eq_some.mp fired
  exact moved

omit [DecidableEq Tid] in
theorem next_plainly {s s' : Measured Ptr} {p p' : Station Ptr}
    (fired : s.next p a = some (s', p')) :
    (s'.pool = s.pool ∧ p'.loc = p.loc) ∨
    ∃ act : Act Tid Ptr, a = .act act ∧
    ThreadPool.next s.pool p.loc act = some (s'.pool, p'.loc) := by
  unfold Measured.next at fired
  split at fired
  · unfold Measured.survey at fired
    split at fired
    · cases fired
      exact .inl ⟨rfl, rfl⟩
    · cases fired
      exact .inl ⟨rfl, rfl⟩
    · cases fired
      exact .inl ⟨rfl, rfl⟩
    · have moved := next_of_follow fired
      exact .inr ⟨_, rfl, moved⟩
    · cases fired
  · unfold Measured.fold at fired
    split at fired
    · split at fired
      · cases fired
      · cases fired
        exact .inl ⟨rfl, rfl⟩
    · cases fired
      exact .inl ⟨rfl, rfl⟩
    · cases fired
      exact .inl ⟨rfl, rfl⟩
    · have moved := next_of_follow fired
      exact .inr ⟨_, rfl, moved⟩
    · cases fired
  · split at fired
    · have moved := next_of_follow fired
      exact .inr ⟨_, rfl, moved⟩
    · cases fired

theorem step_of_next {c : Config Tid (Pool Ptr) (Loc Ptr)} {act : Act Tid Ptr} {g : Pool Ptr}
    {l : Loc Ptr} (fired : ThreadPool.next c.shared (c.pc t) act = some (g, l)) :
    step c (t, act) = some ⟨g, Function.update c.pc t l⟩ := by
  unfold step
  split
  · rename_i child k created point
    simp only at created point
    rw [created, point] at fired
    cases fired
  · exact Config.step_eq_some.mpr ⟨g, l, fired, rfl⟩

theorem plainly_update (c : Config Tid (Measured Ptr) (Station Ptr)) (t : Tid) (s : Measured Ptr)
    (p : Station Ptr) :
    plainly ⟨s, Function.update c.pc t p⟩ = ⟨s.pool, Function.update (plainly c).pc t p.loc⟩ := by
  simp only [plainly, Config.mk.injEq, true_and]
  exact (Function.comp_update Station.loc c.pc t p)

theorem measuredStep_plainly (fired : measuredStep c (t, a) = some c') :
    plainly c' = plainly c ∨ ∃ act, a = .act act ∧
    step (plainly c) (t, act) = some (plainly c') := by
  rcases measuredStep_cases fired with ⟨s, p, moved, rfl⟩ | ⟨k, child, created, spawned⟩
  · rw [plainly_update]
    rcases next_plainly moved with ⟨pool, loc⟩ | ⟨act, same, moved⟩
    · rw [pool, loc]
      exact .inl (congrArg (Config.mk _) (Function.update_eq_self t (plainly c).pc))
    · exact .inr ⟨act, same, step_of_next moved⟩
  · obtain ⟨point, absent, rfl⟩ := spawned
    refine .inr ⟨.created child, created, ?_⟩
    have spawn : (plainly c).pc t = .spawn k := point
    have none : (plainly c).pc child = .absent := absent
    rw [plainly_update ⟨c.shared, _⟩, plainly_update]
    unfold step
    simp only [spawn, none]
    rfl

theorem measured_matched (fired : measuredStep c (t, a) = some c')
    (patient : MeasuredPatient c (t, a) c') :
    plainly c' = plainly c ∨ ∃ act, step (plainly c) act = some (plainly c') ∧
      Patient (plainly c) act (plainly c') := by
  rcases measuredStep_plainly fired with same | ⟨act, -, fired'⟩
  · exact .inl same
  · exact .inr ⟨(t, act), fired', patient⟩

end Steps

end Libam.ThreadPool
