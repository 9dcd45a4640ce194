import Libam.ThreadPool.Roles
import Libam.ThreadPool.Tasks

/-! What a call of `lam_thread_pool_run` that fails leaves in the counters of the pool. -/

namespace Libam.ThreadPool

open Libam.Interleaving

variable {Ptr : Type}

def Caller.running : Caller Ptr → Bool
  | .run _ => true
  | _ => false

/-- A call of `lam_thread_pool_run` has counted its task and not returned. -/
def Loc.booked : Loc Ptr → Bool
  | .readIdle _ => true
  | .push _ => true
  | l => l.caller.any Caller.running

@[simp ↓] theorem resume_success_booked (k : Caller Ptr) :
    (k.resume .success).booked = k.running := by
  cases k <;> rfl

@[simp ↓] theorem resume_error_booked (k : Caller Ptr) : (k.resume .error).booked = false := by
  cases k <;> rfl

def Undrained {Tid : Type} (c : Config Tid (Pool Ptr) (Loc Ptr)) (act : Tid × Act Tid Ptr)
    (_ : Config Tid (Pool Ptr) (Loc Ptr)) : Prop :=
  ∀ task, c.pc act.1 = .checkDrain (.run task) → c.shared.drainSignal = false

def Sturdy {Tid : Type} (c : Config Tid (Pool Ptr) (Loc Ptr)) (act : Tid × Act Tid Ptr)
    (_ : Config Tid (Pool Ptr) (Loc Ptr)) : Prop :=
  act.2 = .fail → (∀ task, c.pc act.1 ≠ .push task) ∧ ∀ k, c.pc act.1 ≠ .spawn k

def Loc.lostTask {Tid : Type} : Loc Ptr → Act Tid Ptr → ℕ
  | .push _, .fail => 1
  | .spawn k, .fail => k.running.toNat
  | _, _ => 0

def Loc.lostThread {Tid : Type} : Loc Ptr → Act Tid Ptr → ℕ
  | .spawn _, .fail => 1
  | _, _ => 0

section Moves

variable {Tid : Type} {g g' : Pool Ptr} {l l' : Loc Ptr} {a : Act Tid Ptr}

theorem move_booked (moved : Move g l a g' l')
    (calm : ∀ task, l = .checkDrain (.run task) → g.drainSignal = false) :
    g'.tasksCreated + g.accepted.length + (if l.booked then 1 else 0) =
      g.tasksCreated + g'.accepted.length + (if l'.booked then 1 else 0) + l.lostTask a := by
  cases moved with
  | startDrained k drain =>
      cases k with
      | run task => cases (calm task rfl).symm.trans drain
      | _ => simp [Loc.booked, Loc.caller, Caller.running, Loc.lostTask]
  | spawnFailed k => cases k <;> simp [Loc.booked, Loc.caller, Caller.running, Loc.lostTask]
  | push task =>
      simp [Loc.booked, Loc.caller, Loc.lostTask]
      omega
  | startCalm k | ticket k | refuse k | passes k | rollback k =>
      cases k <;> simp [Loc.booked, Loc.caller, Caller.running, Loc.lostTask]
  | noneIdle | raise | createMore => simp [Loc.booked, Loc.caller, Caller.running, Loc.lostTask]
  | countTask task =>
      simp [Loc.booked, Loc.caller, Loc.lostTask]
      omega
  | _ => simp [Loc.booked, Loc.caller, Loc.lostTask]

theorem move_threads (moved : Move g l a g' l') :
    g'.threadsCreated + g.threadsDestroyed + (if l.alive then 1 else 0) +
      (if l.starting then 1 else 0) =
      g.threadsCreated + g'.threadsDestroyed + (if l'.alive then 1 else 0) +
        (if l'.starting then 1 else 0) +
        l.lostThread a := by
  cases moved <;> (simp [Loc.alive, Loc.starting, Loc.lostThread]; try omega)

theorem sturdy_iff {c c' : Config Tid (Pool Ptr) (Loc Ptr)} {t : Tid} :
    Sturdy c (t, a) c' ↔ (c.pc t).lostTask a = 0 ∧ (c.pc t).lostThread a = 0 := by
  unfold Sturdy
  cases a with
  | fail => cases c.pc t <;> simp [Loc.lostTask, Loc.lostThread]
  | _ => cases c.pc t <;> simp [Loc.lostTask, Loc.lostThread]

end Moves

section Runs

variable {Tid : Type} [Fintype Tid] [DecidableEq Tid] {c c' : Config Tid (Pool Ptr) (Loc Ptr)}
  {t : Tid} {a : Act Tid Ptr}

omit [Fintype Tid] in
theorem Spawned.successful {k : Caller Ptr} {child : Tid} (spawned : Spawned c t k child c')
    (fired : step c (t, a) = some c') : a ≠ .fail := by
  rintro rfl
  obtain ⟨g, l, -, rfl⟩ := Config.step_eq_some.mp (show c.step next (t, .fail) = some c' from fired)
  have born : Function.update c.pc t l child = .begin := by
    rw [show Function.update c.pc t l = _ from spawned.pc, Function.update_self]
  rw [Function.update_of_ne spawned.distinct, spawned.absent] at born
  cases born

/-- The counters are what the calls that are under way or have succeeded, and the
workers, come to. -/
structure Exact (c : Config Tid (Pool Ptr) (Loc Ptr)) : Prop where
  tasks : c.shared.tasksCreated = c.shared.accepted.length + count (fun l => l.booked) c.pc
  threads : c.shared.threadsCreated = c.shared.threadsDestroyed + count (fun l => l.alive) c.pc +
    count (fun l => l.starting) c.pc

structure Surplus (c : Config Tid (Pool Ptr) (Loc Ptr)) (tasks threads : ℕ) : Prop where
  tasks : c.shared.tasksCreated = c.shared.accepted.length + count (fun l => l.booked) c.pc + tasks
  threads : c.shared.threadsCreated = c.shared.threadsDestroyed + count (fun l => l.alive) c.pc +
    count (fun l => l.starting) c.pc + threads

omit [DecidableEq Tid] in
theorem Surplus.exact_iff {tasks threads : ℕ} (surplus : Surplus c tasks threads) :
    Exact c ↔ tasks = 0 ∧ threads = 0 := by
  have first := surplus.tasks
  have second := surplus.threads
  constructor
  · intro exact
    have first' := exact.tasks
    have second' := exact.threads
    omega
  · rintro ⟨rfl, rfl⟩
    exact ⟨by simpa using first, by simpa using second⟩

theorem Surplus.step {tasks threads : ℕ} (surplus : Surplus c tasks threads)
    (fired : step c (t, a) = some c') (calm : Undrained c (t, a) c') :
    Surplus c' (tasks + (c.pc t).lostTask a) (threads + (c.pc t).lostThread a) := by
  have first := surplus.tasks
  have second := surplus.threads
  rcases step_cases fired with ⟨g, l, moved, rfl⟩ | ⟨k, child, spawned⟩
  · have booked := count_update (fun l : Loc Ptr => l.booked) c.pc t l
    have alive := count_update (fun l : Loc Ptr => l.alive) c.pc t l
    have starting := count_update (fun l : Loc Ptr => l.starting) c.pc t l
    have tasksChange := move_booked moved calm
    have threadsChange := move_threads moved
    constructor <;> simp only
    · split_ifs at booked tasksChange <;> omega
    · split_ifs at alive starting threadsChange <;> omega
  · have booked : count (fun l => l.booked) c'.pc = count (fun l => l.booked) c.pc := by
      rw [count_eq_tally, count_eq_tally]
      refine tally_spawn_kept _ spawned ?_ rfl rfl
      rw [resume_success_booked]
      rfl
    have alive : count (fun l => l.alive) c'.pc = count (fun l => l.alive) c.pc + 1 :=
      count_spawn (·.alive) spawned (resume_alive ..) rfl
    have starting : count (fun l => l.starting) c'.pc + 1 = count (fun l => l.starting) c.pc :=
      count_spawn (·.starting) spawned (resume_starting ..) rfl
    have kept : Sturdy c (t, a) c' := fun failed => absurd failed (spawned.successful fired)
    obtain ⟨noTask, noThread⟩ := sturdy_iff.mp kept
    have same := spawned.shared
    constructor <;> rw [same] <;> omega

variable {config : PoolConfig Ptr} {main : Tid} {pc : Tid → Loc Ptr}
  {actions : List (Tid × Act Tid Ptr)}

omit [DecidableEq Tid] in
theorem surplus_start (config : PoolConfig Ptr) (starting : Starting main pc) :
    Surplus (start config pc) 0 0 := by
  have none (p : Loc Ptr → Bool) := starting.count_eq_zero p
  constructor <;> simp only [start]
  · rw [none _ rfl rfl rfl]
    rfl
  · rw [none _ rfl rfl rfl, none _ rfl rfl rfl]
    rfl

/-- The surplus is nothing for as long as nothing has failed that was counted before. -/
theorem run_surplus (starting : Starting main pc)
    (run : Run step Undrained (start config pc) actions c) :
    ∃ tasks threads, Surplus c tasks threads ∧
      (Run step Sturdy (start config pc) actions c ↔ tasks = 0 ∧ threads = 0) := by
  induction run with
  | nil => exact ⟨0, 0, surplus_start config starting, fun _ => ⟨rfl, rfl⟩, fun _ => .nil⟩
  | @snoc prior c c' act earlier fired calm ih =>
      obtain ⟨t, a⟩ := act
      obtain ⟨tasks, threads, surplus, sturdy⟩ := ih
      refine ⟨_, _, surplus.step fired calm, ?_⟩
      calc Run step Sturdy (start config pc) (prior ++ [(t, a)]) c'
          ↔ Run step Sturdy (start config pc) prior c ∧ Sturdy c (t, a) c' :=
            ⟨earlier.last, fun both => both.1.snoc fired both.2⟩
        _ ↔ (tasks = 0 ∧ threads = 0) ∧ (c.pc t).lostTask a = 0 ∧ (c.pc t).lostThread a = 0 :=
            and_congr sturdy sturdy_iff
        _ ↔ tasks + (c.pc t).lostTask a = 0 ∧ threads + (c.pc t).lostThread a = 0 := by omega

/-- In every interleaving in which no call meets the drain of its pool: only tasks of successful
calls are queued, and `tasks_created`, `threads_created` and `threads_destroyed` are exact for as
long as no `pthread_create` and no push has failed, and never again after that. While they are
exact, `tasks_created` is the number of successful calls when no call is under way, and the wait of
`lam_thread_pool_destroy` ends when the workers have. -/
theorem lam_thread_pool_run_undone_iff (starting : Starting main pc)
    (run : Run step Undrained (start config pc) actions c) :
    (∀ task ∈ c.shared.tasksQueue, task ∈ c.shared.accepted) ∧
    (Exact c ↔ Run step Sturdy (start config pc) actions c) ∧
    (Run step Sturdy (start config pc) actions c →
      ((∀ t, (c.pc t).booked = false) → c.shared.tasksCreated = c.shared.accepted.length) ∧
      ((∀ t, (c.pc t).alive = false ∧ (c.pc t).starting = false) →
        c.shared.threadsDestroyed = c.shared.threadsCreated)) := by
  obtain ⟨tasks, threads, surplus, sturdy⟩ := run_surplus starting run
  have accounted : Accounted c := run.invariant Accounted (accounted_start config starting)
    fun c act c' accounted fired _ => accounted_step c act c' accounted fired
  have exact_iff : Exact c ↔ Run step Sturdy (start config pc) actions c :=
    surplus.exact_iff.trans sturdy.symm
  refine ⟨fun task queued => ?_, exact_iff, fun all => ⟨fun idle => ?_, fun quiet => ?_⟩⟩
  · have placed : task ∈ c.shared.placed + tally Loc.hands c.pc :=
      Multiset.mem_add.mpr (.inl (Multiset.mem_add.mpr (.inl (Multiset.mem_coe.mpr queued))))
    rw [← accounted.tasks] at placed
    exact Multiset.mem_coe.mp placed
  · have equation := (exact_iff.mpr all).tasks
    rw [count_eq_zero.mpr fun t => by simp [idle t]] at equation
    simpa using equation
  · have equation := (exact_iff.mpr all).threads
    rw [count_eq_zero.mpr
      fun t => by simp [(quiet t).1], count_eq_zero.mpr fun t => by simp [(quiet t).2]] at equation
    simpa using equation.symm

end Runs

section Samples

def undrained {Tid : Type} (c : Config Tid (Pool Ptr) (Loc Ptr)) (act : Tid × Act Tid Ptr) : Bool :=
  match c.pc act.1 with
  | .checkDrain (.run _) => !c.shared.drainSignal
  | _ => true

def sturdy {Tid : Type} (c : Config Tid (Pool Ptr) (Loc Ptr)) (act : Tid × Act Tid Ptr) : Bool :=
  (c.pc act.1).lostTask act.2 = 0 ∧ (c.pc act.1).lostThread act.2 = 0

variable {Tid : Type} {c c' : Config Tid (Pool Ptr) (Loc Ptr)} {act : Tid × Act Tid Ptr}

theorem undrained_sound (checked : undrained c act = true) : Undrained c act c' := by
  intro task point
  rw [undrained, point] at checked
  simpa using checked

theorem sturdy_sound (checked : sturdy c act = true) : Sturdy c act c' :=
  sturdy_iff.mpr (of_decide_eq_true checked)

/-- A pool that starts its threads lazily: the first thread creates it, the second one uses it. -/
def sampleLazy : Config (Fin 3) (Pool ℕ) (Loc ℕ) :=
  start ⟨true, false, none, 0, 0, 1⟩ ![.createLoop 0, .outside, .absent]

/-- One call fails for want of a function, and the next one succeeds. -/
theorem lam_thread_pool_run_undone_iff_sample :
    ∃ actions c, Run step Undrained sampleLazy actions c ∧
    c.shared.tasksQueue = [⟨0, 7, 1, none⟩] ∧
    c.shared.tasksCreated = c.shared.accepted.length ∧ Exact c := by
  have starting : Starting (0 : Fin 3) ![(.createLoop 0 : Loc ℕ), .outside, .absent] :=
    ⟨rfl, by decide⟩
  have run : Run step Undrained sampleLazy
      [(0, .tick), (1, .run none 1 none), (1, .tick), (1, .run (some 7) 1 none), (1, .tick),
        (1, .tick), (1, .tick),
        (1, .tick), (1, .tick), (1, .tick), (1, .created 2), (1, .tick)] _ :=
    run_of_runs (fun c act _ => undrained c act) (fun _ _ _ => undrained_sound) rfl rfl
  have kept : Run step Sturdy sampleLazy _ _ :=
    run_of_runs (fun c act _ => sturdy c act) (fun _ _ _ => sturdy_sound) run.runs_eq rfl
  obtain ⟨-, exact_iff, settled⟩ := lam_thread_pool_run_undone_iff starting run
  refine ⟨_, _, run, rfl, (settled kept).1 fun t => ?_, exact_iff.mpr kept⟩
  match t with
  | 0 => rfl
  | 1 => rfl
  | 2 => rfl

/-- `pthread_create` fails for the only call. The call is counted for ever, and
`lam_thread_pool_destroy` waits for a worker that never was. -/
theorem lam_thread_pool_run_leaks : ∃ actions c, Run step Undrained sampleLazy actions c ∧
    (∀ t, (c.pc t).booked = false ∧ (c.pc t).alive = false ∧ (c.pc t).starting = false) ∧
    c.pc 0 = .destroyRead ∧ c.shared.accepted = [] ∧ c.shared.tasksCreated = 1 ∧
    c.shared.threadsDestroyed < c.shared.threadsCreated ∧ ¬ Exact c := by
  have run : Run step Undrained sampleLazy
      [(0, .tick), (1, .run (some 7) 1 none), (1, .tick), (1, .tick), (1, .tick), (1, .tick),
        (1, .tick), (1, .tick), (1, .fail), (0, .destroy), (0, .tick), (0, .tick), (0, .tick)] _ :=
    run_of_runs (fun c act _ => undrained c act) (fun _ _ _ => undrained_sound) rfl rfl
  refine ⟨_, _, run, fun t => ?_, rfl, rfl, rfl, (zero_lt_one : (0 : ℤ) < 1), fun exact => ?_⟩
  · match t with
    | 0 => exact ⟨rfl, rfl, rfl⟩
    | 1 => exact ⟨rfl, rfl, rfl⟩
    | 2 => exact ⟨rfl, rfl, rfl⟩
  · have equation : (1 : ℤ) = 0 + 0 := exact.tasks
    cases equation

end Samples

end Libam.ThreadPool
