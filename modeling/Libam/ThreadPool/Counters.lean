import Libam.ThreadPool.Model
import Mathlib.Data.Fin.VecNotation

/-! The counters of the thread pool agree with where its threads stand. -/

namespace Libam.ThreadPool

open Libam.Interleaving

variable {Ptr : Type}

def Loc.alive : Loc Ptr → Bool
  | .begin => true
  | .countActive _ => true
  | .countIdle _ => true
  | .pop _ => true
  | .noTask _ => true
  | .readDrain _ => true
  | .shouldStop _ => true
  | .suspend _ => true
  | .gotTask _ _ => true
  | .process _ _ => true
  | .store _ _ _ => true
  | .release _ => true
  | .fold => true
  | .uncountIdle => true
  | .uncountActive => true
  | .countDestroyed => true
  | _ => false

/-- A worker has added itself to `active_thread_count` and has not left it. -/
def Loc.active : Loc Ptr → Bool
  | .begin => false
  | .countActive _ => false
  | .countDestroyed => false
  | l => l.alive

/-- A worker has counted itself idle and has since neither started a task nor left. -/
def Loc.idle : Loc Ptr → Bool
  | .pop w => w.busyTasksProcessed = 0
  | .noTask w => w.busyTasksProcessed = 0
  | .gotTask w _ => w.busyTasksProcessed = 0
  | .readDrain _ => true
  | .shouldStop _ => true
  | .suspend _ => true
  | .fold => true
  | .uncountIdle => true
  | _ => false

/-- A start of a thread is under way and counted in `threads_created`. -/
def Loc.starting : Loc Ptr → Bool
  | .compare _ _ => true
  | .rollback _ => true
  | .spawn _ => true
  | _ => false

def Loc.Streak : Loc Ptr → Prop
  | .readDrain w => w.busyTasksProcessed = 0
  | .shouldStop w => w.busyTasksProcessed = 0
  | .suspend w => w.busyTasksProcessed = 0
  | .process w _ => w.busyTasksProcessed ≠ 0
  | .store w _ _ => w.busyTasksProcessed ≠ 0
  | .release w => w.busyTasksProcessed ≠ 0
  | _ => True

section Resume

variable (k : Caller Ptr) (ret : Amrc)

@[simp ↓] theorem resume_alive : (k.resume ret).alive = false := by
  cases k <;> cases ret <;> rfl

@[simp ↓] theorem resume_active : (k.resume ret).active = false := by
  cases k <;> cases ret <;> rfl

@[simp ↓] theorem resume_idle : (k.resume ret).idle = false := by
  cases k <;> cases ret <;> rfl

@[simp ↓] theorem resume_starting : (k.resume ret).starting = false := by
  cases k <;> cases ret <;> rfl

@[simp ↓] theorem resume_streak : (k.resume ret).Streak := by
  cases k <;> cases ret <;> trivial

end Resume

theorem alive_of_active {l : Loc Ptr} (counted : l.active = true) : l.alive = true := by
  cases l <;> first | rfl | cases counted

theorem active_of_idle {l : Loc Ptr} (counted : l.idle = true) : l.active = true := by
  cases l <;> first | rfl | cases counted

section Moves

variable {Tid : Type} {g g' : Pool Ptr} {l l' : Loc Ptr} {a : Act Tid Ptr}

theorem move_streak (moved : Move g l a g' l') (streak : l.Streak) : l'.Streak := by
  cases moved <;> simp_all [Loc.Streak]

theorem move_active (moved : Move g l a g' l') :
    g'.activeThreadCount + (if l.active then 1 else 0) =
      g.activeThreadCount + (if l'.active then 1 else 0) := by
  cases moved <;> simp [Loc.active, Loc.alive]

theorem move_idle (moved : Move g l a g' l') (streak : l.Streak) :
    g'.idleThreadCount + (if l.idle then 1 else 0) =
      g.idleThreadCount + (if l'.idle then 1 else 0) := by
  cases moved with
  | becomeIdle w busy => simp [Loc.idle, show w.busyTasksProcessed ≠ 0 by omega]
  | _ => simp_all [Loc.idle, Loc.Streak]

theorem move_created (moved : Move g l a g' l') :
    g'.threadsDestroyed + (if l'.alive then 1 else 0) + (if l'.starting then 1 else 0) +
        g.threadsCreated ≤
      g.threadsDestroyed + (if l.alive then 1 else 0) + (if l.starting then 1 else 0) +
        g'.threadsCreated := by
  cases moved <;> (simp [Loc.alive, Loc.starting]; try omega)

theorem move_destroyed (moved : Move g l a g' l') :
    g.threadsDestroyed ≤ g'.threadsDestroyed ∧ g.tasksCreated ≤ g'.tasksCreated := by
  cases moved <;> simp

end Moves

section Runs

variable {Tid : Type} [Fintype Tid] [DecidableEq Tid]

/-- A successful `pthread_create`: the caller goes on, and the new worker starts. -/
theorem tally_spawn {M : Type*} [AddCommMonoid M] (weight : Loc Ptr → M)
    {c c' : Config Tid (Pool Ptr) (Loc Ptr)} {t child : Tid} {k : Caller Ptr}
    (spawned : Spawned c t k child c') :
    tally weight c'.pc + (weight (.spawn k) + weight .absent) =
      tally weight c.pc + (weight (k.resume .success) + weight .begin) := by
  obtain ⟨between, defBetween⟩ : ∃ between, between = Function.update c.pc t
      (k.resume .success) := ⟨_, rfl⟩
  have parent : tally weight between + weight (.spawn k) = tally weight c.pc + weight
      (k.resume .success) := by
    have change := tally_update weight c.pc t (k.resume .success)
    rwa [spawned.point, ← defBetween] at change
  have born : tally weight c'.pc + weight .absent = tally weight between + weight .begin := by
    have change := tally_update weight between child .begin
    rwa [defBetween, Function.update_of_ne spawned.distinct, spawned.absent, ← spawned.pc,
      ← defBetween] at change
  calc tally weight c'.pc + (weight (.spawn k) + weight .absent)
      = tally weight c'.pc + weight .absent + weight (.spawn k) := by abel
    _ = tally weight between + weight .begin + weight (.spawn k) := by rw [born]
    _ = tally weight between + weight (.spawn k) + weight .begin := by abel
    _ = tally weight c.pc + weight (k.resume .success) + weight .begin := by rw [parent]
    _ = tally weight c.pc + (weight (k.resume .success) + weight .begin) := by abel

theorem count_spawn (p : Loc Ptr → Bool) {c c' : Config Tid (Pool Ptr) (Loc Ptr)} {t child : Tid}
    {k : Caller Ptr} (spawned : Spawned c t k child c') (resumed : p (k.resume .success) = false)
    (none : p .absent = false) :
    count (fun l => p l) c'.pc + (p (.spawn k)).toNat =
      count (fun l => p l) c.pc + (p .begin).toNat := by
  have balance := tally_spawn (fun l => if p l then 1 else 0) spawned
  simp only [← count_eq_tally, resumed, none, Bool.false_eq_true, reduceIte, add_zero,
    zero_add] at balance
  simp only [Bool.toNat, Bool.cond_eq_ite]
  exact balance

/-- The counters are what the threads have added to them and not taken back. -/
structure Counted (c : Config Tid (Pool Ptr) (Loc Ptr)) : Prop where
  active : c.shared.activeThreadCount = count (fun l => l.active) c.pc
  idle : c.shared.idleThreadCount = count (fun l => l.idle) c.pc
  created : c.shared.threadsDestroyed + count (fun l => l.alive) c.pc +
    count (fun l => l.starting) c.pc ≤ c.shared.threadsCreated
  destroyed : 0 ≤ c.shared.threadsDestroyed
  tasks : 0 ≤ c.shared.tasksCreated
  streak : ∀ t, (c.pc t).Streak

omit [DecidableEq Tid] in
theorem Starting.count_eq_zero {main : Tid} {pc : Tid → Loc Ptr} (starting : Starting main pc)
    (p : Loc Ptr → Bool) (creating : p (.createLoop 0) = false) (outside : p .outside = false)
    (absent : p .absent = false) : count (fun l => p l) pc = 0 := by
  refine Interleaving.count_eq_zero.mpr (starting.all (fun l => ¬ p l = true) ?_ ?_ ?_) <;> simp [*]

omit [DecidableEq Tid] in
theorem counted_start (config : PoolConfig Ptr) {main : Tid} {pc : Tid → Loc Ptr}
    (starting : Starting main pc) : Counted (start config pc) := by
  have none (p : Loc Ptr → Bool) := starting.count_eq_zero p
  have streak := starting.all (·.Streak) trivial trivial trivial
  constructor <;> simp only [start]
  · rw [none _ rfl rfl rfl]
    rfl
  · rw [none _ rfl rfl rfl]
    rfl
  · rw [none _ rfl rfl rfl, none _ rfl rfl rfl]
    rfl
  · exact le_rfl
  · exact le_rfl
  · exact streak

theorem counted_step (c : Config Tid (Pool Ptr) (Loc Ptr)) (act : Tid × Act Tid Ptr)
    (c' : Config Tid (Pool Ptr) (Loc Ptr)) (counted : Counted c) (fired : step c act = some c') :
    Counted c' := by
  obtain ⟨t, a⟩ := act
  rcases step_cases fired with ⟨g, l, moved, rfl⟩ | ⟨k, child, spawned⟩
  · have active := count_update (fun l : Loc Ptr => l.active) c.pc t l
    have idle := count_update (fun l : Loc Ptr => l.idle) c.pc t l
    have alive := count_update (fun l : Loc Ptr => l.alive) c.pc t l
    have starting := count_update (fun l : Loc Ptr => l.starting) c.pc t l
    have grows := move_destroyed moved
    have changed := move_created moved
    have activeChange := move_active moved
    have idleChange := move_idle moved (counted.streak t)
    have before := counted.active
    have beforeIdle := counted.idle
    have beforeCreated := counted.created
    constructor <;> simp only
    · split_ifs at active activeChange <;> omega
    · split_ifs at idle idleChange <;> omega
    · split_ifs at alive starting changed <;> omega
    · exact counted.destroyed.trans grows.1
    · exact counted.tasks.trans grows.2
    · exact (Function.forall_update_iff _ fun _ (l : Loc Ptr) => l.Streak).mpr
        ⟨move_streak moved (counted.streak t), fun u _ => counted.streak u⟩
  · have active : count (fun l => l.active) c'.pc = count (fun l => l.active) c.pc :=
      count_spawn (·.active) spawned (resume_active ..) rfl
    have idle : count (fun l => l.idle) c'.pc = count (fun l => l.idle) c.pc :=
      count_spawn (·.idle) spawned (resume_idle ..) rfl
    have alive : count (fun l => l.alive) c'.pc = count (fun l => l.alive) c.pc + 1 :=
      count_spawn (·.alive) spawned (resume_alive ..) rfl
    have starting : count (fun l => l.starting) c'.pc + 1 = count (fun l => l.starting) c.pc :=
      count_spawn (·.starting) spawned (resume_starting ..) rfl
    have before := counted.active
    have beforeIdle := counted.idle
    have beforeCreated := counted.created
    have same := spawned.shared
    constructor
    · rw [same]
      omega
    · rw [same]
      omega
    · rw [same]
      omega
    · exact same ▸ counted.destroyed
    · exact same ▸ counted.tasks
    · exact spawned.all _ trivial (resume_streak k .success) counted.streak

variable {config : PoolConfig Ptr} {main : Tid} {pc : Tid → Loc Ptr}
  {actions : List (Tid × Act Tid Ptr)} {c : Config Tid (Pool Ptr) (Loc Ptr)}

theorem counters_ordered (starting : Starting main pc)
    (run : Run step Any (start config pc) actions c) :
    0 ≤ c.shared.idleThreadCount ∧
    c.shared.idleThreadCount ≤ c.shared.activeThreadCount ∧
    c.shared.activeThreadCount ≤ c.shared.threadsCreated - c.shared.threadsDestroyed ∧
    0 ≤ c.shared.threadsDestroyed ∧ 0 ≤ c.shared.threadsCreated ∧ 0 ≤ c.shared.tasksCreated ∧
    c.shared.idleThreadCount = count (fun l => l.idle) c.pc ∧
    (c.shared.threadsDestroyed = c.shared.threadsCreated → ∀ t, (c.pc t).alive = false) := by
  have counted : Counted c := run.invariant Counted (counted_start config starting)
    fun c act c' counted fired _ => counted_step c act c' counted fired
  have idleActive := count_mono (fun l : Loc Ptr => active_of_idle (l := l)) c.pc
  have activeAlive := count_mono (fun l : Loc Ptr => alive_of_active (l := l)) c.pc
  have active := counted.active
  have idle := counted.idle
  have created := counted.created
  have destroyed := counted.destroyed
  refine ⟨by
      omega, by omega, by omega, destroyed, by omega, counted.tasks, idle, fun settled t => ?_⟩
  have none : count (fun l => l.alive) c.pc = 0 := by omega
  simpa using count_eq_zero.mp none t

/-- The worker that the creator starts finds nothing to do while a task is on its way to it. -/
theorem counters_ordered_sample : ∃ c : Config (Fin 3) (Pool ℕ) (Loc ℕ),
    c.shared.idleThreadCount = 1 ∧ 0 ≤ c.shared.idleThreadCount := by
  have starting : Starting (0 : Fin 3) ![(.createLoop 0 : Loc ℕ), .outside, .absent] :=
    ⟨rfl, by decide⟩
  have run : Run step Any (start ⟨false, false, none, 0, 1, 1⟩ ![.createLoop 0, .outside, .absent])
      [(0, .tick), (0, .tick), (0, .tick), (0, .tick), (0, .created 2), (0, .tick), (2, .tick),
        (2, .tick), (2, .clock 5), (1, .run (some 7) 1 none), (1, .tick), (1, .tick), (1, .tick),
        (2, .tick)] _ :=
    run_any rfl
  exact ⟨_, rfl, (counters_ordered starting run).1⟩

end Runs

end Libam.ThreadPool
