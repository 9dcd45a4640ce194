import Libam.ThreadPool.Roles
import Mathlib.Data.Fin.VecNotation

/-! When the memory of a pool is freed, and what its workers still have to do then. -/

namespace Libam.ThreadPool

open Libam.Interleaving

variable {Ptr : Type}

/-- Past the test of `drain_signal`, not yet counted in `threads_created`. -/
def Loc.uncounted : Loc Ptr → Bool
  | .ticket _ => true
  | _ => false

def Loc.working (l : Loc Ptr) : Bool :=
  l.alive || l.starting || l.uncounted

/-- A failed start that nobody takes back out of `threads_created`. -/
def Loc.failed : Loc Ptr → Bool
  | .createDrain => true
  | .createWait => true
  | _ => false

def Loc.draining : Loc Ptr → Bool
  | .createWait => true
  | .createFree => true
  | .destroyRead => true
  | .destroyCompare _ => true
  | .destroyFree => true
  | .ended => true
  | _ => false

def Loc.freeing : Loc Ptr → Bool
  | .createFree => true
  | .destroyFree => true
  | .ended => true
  | _ => false

def Loc.leaving (g : Pool Ptr) : Loc Ptr → Bool
  | .createWait => ¬ 0 < g.activeThreadCount
  | .destroyCompare destroyed => ¬ destroyed < g.threadsCreated
  | _ => false

/-- The waits end when nothing is left that uses the pool: the one of `lam_thread_pool_create` when
only the start that has failed is missing in `threads_destroyed`, the one of
`lam_thread_pool_destroy` when no start is on its way to `threads_created`. -/
def Patient {Tid : Type} (c : Config Tid (Pool Ptr) (Loc Ptr)) (act : Tid × Act Tid Ptr)
    (_ : Config Tid (Pool Ptr) (Loc Ptr)) : Prop :=
  (c.pc act.1).leaving c.shared = true →
    if (c.pc act.1).failed then c.shared.threadsCreated = c.shared.threadsDestroyed + 1
    else ∀ u, (c.pc u).uncounted = false

instance {Tid : Type} [Fintype Tid] (c : Config Tid (Pool Ptr) (Loc Ptr))
    (act : Tid × Act Tid Ptr) (c' : Config Tid (Pool Ptr) (Loc Ptr)) :
    Decidable (Patient c act c') :=
  inferInstanceAs (Decidable ((c.pc act.1).leaving c.shared = true →
    if (c.pc act.1).failed then c.shared.threadsCreated = c.shared.threadsDestroyed + 1
    else ∀ u, (c.pc u).uncounted = false))

@[simp ↓] theorem resume_working (k : Caller Ptr) (ret : Amrc) :
    (k.resume ret).working = false := by
  cases k <;> cases ret <;> rfl

@[simp ↓] theorem resume_draining (k : Caller Ptr) (ret : Amrc) :
    (k.resume ret).draining = false := by
  cases k <;> cases ret <;> rfl

@[simp ↓] theorem resume_freeing (k : Caller Ptr) (ret : Amrc) :
    (k.resume ret).freeing = false := by
  cases k <;> cases ret <;> rfl

theorem creating_of_failed {k : Caller Ptr} {ret : Amrc} (failed : (k.resume ret).failed = true) :
    k.creating = true := by
  cases k <;> cases ret <;> first | rfl | cases failed

@[simp ↓] theorem resume_success_failed (k : Caller Ptr) : (k.resume .success).failed = false := by
  cases k <;> rfl

theorem counted_of_idle {l : Loc Ptr} (uncreated : l.creating = false)
    (uncalled : l.calling = false) : l.uncounted = false := by
  cases l with
  | ticket k =>
      simp only [Loc.creating, Loc.calling, Loc.caller, Option.any_some] at uncreated uncalled
      simp [uncreated] at uncalled
  | _ => rfl

section Moves

variable {Tid : Type} {g g' : Pool Ptr} {l l' : Loc Ptr} {a : Act Tid Ptr}

theorem move_working (moved : Move g l a g' l') (drain : g.drainSignal = true)
    (quiet : l.working = false) : l'.working = false := by
  cases moved <;> first | exact quiet | rfl | simp_all

theorem move_leaked (moved : Move g l a g' l')
    (calm : g.drainSignal = true → l.creating = false) :
    g'.threadsDestroyed + (if l'.alive then 1 else 0) + (if l'.starting then 1 else 0) +
        (if l'.failed then 1 else 0) + g.threadsCreated ≤
      g.threadsDestroyed + (if l.alive then 1 else 0) + (if l.starting then 1 else 0) +
        (if l.failed then 1 else 0) + g'.threadsCreated := by
  cases moved with
  | startDrained k drain =>
      have stays : (k.resume .error).failed = false := by
        by_contra failed
        cases (calm drain).symm.trans (creating_of_failed (by simpa using failed))
      simp [↓stays, Loc.alive, Loc.starting, Loc.failed]
  | spawnFailed k =>
      simp only [resume_alive, resume_starting]
      split_ifs <;> simp_all [Loc.alive, Loc.starting, Loc.failed]
  | _ => simp [Loc.alive, Loc.starting, Loc.failed]; try omega

theorem move_draining (moved : Move g l a g' l') (drain : l.draining = true → g.drainSignal = true)
    (waits : l'.draining = true) : g'.drainSignal = true := by
  cases moved <;> simp_all [Loc.draining]

theorem move_drained (moved : Move g l a g' l') (drain : g.drainSignal = true) :
    g'.drainSignal = true := by
  rcases move_drain moved with same | ⟨set, -⟩
  · exact same.trans drain
  · exact set

theorem move_read {destroyed : ℤ} (moved : Move g l a g' l')
    (compares : l' = .destroyCompare destroyed) : destroyed = g.threadsDestroyed := by
  have waits : l'.draining = true := compares ▸ rfl
  cases moved <;> first | cases compares <;> rfl | simp at waits

theorem move_freeing (moved : Move g l a g' l') :
    ((g'.freed = true ∨ l'.freeing = true) → (g.freed = true ∨ l.freeing = true)) ∨
    l.leaving g = true := by
  cases moved <;> simp_all [Loc.freeing, Loc.leaving]

end Moves

section Runs

variable {Tid : Type} [Fintype Tid] [DecidableEq Tid]

structure Draining (c : Config Tid (Pool Ptr) (Loc Ptr)) : Prop where
  leaked : c.shared.threadsDestroyed + count (fun l => l.alive) c.pc +
    count (fun l => l.starting) c.pc + count (fun l => l.failed) c.pc ≤ c.shared.threadsCreated
  waiting : ∀ t, (c.pc t).draining = true → c.shared.drainSignal = true
  read : ∀ t destroyed, c.pc t = .destroyCompare destroyed →
    destroyed ≤ c.shared.threadsDestroyed
  freed : (c.shared.freed = true ∨ ∃ t, (c.pc t).freeing = true) →
    c.shared.drainSignal = true ∧ ∀ t, (c.pc t).working = false

omit [DecidableEq Tid] in
theorem draining_start (config : PoolConfig Ptr) {main : Tid} {pc : Tid → Loc Ptr}
    (starting : Starting main pc) : Draining (start config pc) := by
  have none (p : Loc Ptr → Bool) := starting.count_eq_zero p
  have noWaits := none (·.draining) rfl rfl rfl
  have noFrees := none (·.freeing) rfl rfl rfl
  refine ⟨?_, ?_, ?_, ?_⟩
  · simp only [start]
    rw [none _ rfl rfl rfl, none _ rfl rfl rfl, none _ rfl rfl rfl]
    rfl
  · intro t waits
    exact absurd waits (count_eq_zero.mp noWaits t)
  · intro t destroyed here
    have waits : (pc t).draining = true := (congrArg Loc.draining here).trans rfl
    exact absurd waits (count_eq_zero.mp noWaits t)
  · intro finished
    obtain freed | ⟨t, frees⟩ := finished
    · cases freed
    · exact absurd frees (count_eq_zero.mp noFrees t)

variable {c c' : Config Tid (Pool Ptr) (Loc Ptr)}

omit [DecidableEq Tid] in
theorem Draining.quiet (draining : Draining c)
    (settled : c.shared.threadsCreated ≤
      c.shared.threadsDestroyed + count (fun l => l.failed) c.pc)
    (counted : ∀ t, (c.pc t).uncounted = false) (t : Tid) : (c.pc t).working = false := by
  have leaked := draining.leaked
  have alive : count (fun l => l.alive) c.pc = 0 := by omega
  have starting : count (fun l => l.starting) c.pc = 0 := by omega
  simp only [Loc.working, Bool.or_eq_false_iff]
  refine ⟨⟨?_, ?_⟩, counted t⟩
  · simpa using count_eq_zero.mp alive t
  · simpa using count_eq_zero.mp starting t

omit [DecidableEq Tid] in
theorem Draining.left {a : Act Tid Ptr} (draining : Draining c) (roles : Roles c) {t : Tid}
    (patient : Patient c (t, a) c') (leaving : (c.pc t).leaving c.shared = true) :
    c.shared.drainSignal = true ∧ ∀ u, (c.pc u).working = false := by
  have settled := patient leaving
  cases here : c.pc t with
  | createWait =>
      simp only [here, Loc.failed, reduceIte] at settled
      have own : 0 < count (fun l => l.failed) c.pc := count_pos.mpr ⟨t, by rw [here]; rfl⟩
      have drained := draining.waiting t (by rw [here]; rfl)
      have nobody := roles.unshared t (by rw [here]; rfl)
      exact ⟨drained, draining.quiet (by omega) fun u =>
        counted_of_idle ((roles.drained drained).2 u) (nobody u)⟩
  | destroyCompare destroyed =>
      simp only [here, Loc.failed, Bool.false_eq_true, reduceIte] at settled
      simp only [here, Loc.leaving, decide_eq_true_eq] at leaving
      have seen := draining.read t destroyed here
      exact ⟨draining.waiting t (by rw [here]; rfl), draining.quiet (by omega) settled⟩
  | _ =>
      rw [here] at leaving
      cases leaving

theorem draining_step (act : Tid × Act Tid Ptr) (roles : Roles c) (draining : Draining c)
    (fired : step c act = some c') (patient : Patient c act c') : Draining c' := by
  obtain ⟨t, a⟩ := act
  rcases step_cases fired with ⟨g, l, moved, rfl⟩ | ⟨k, child, spawned⟩
  · have gone := (move_destroyed moved).1
    refine ⟨?_, ?_, ?_, ?_⟩
    · have changed := move_leaked moved fun drained => (roles.drained drained).2 t
      have alive := count_update (fun l : Loc Ptr => l.alive) c.pc t l
      have starting := count_update (fun l : Loc Ptr => l.starting) c.pc t l
      have failed := count_update (fun l : Loc Ptr => l.failed) c.pc t l
      have leaked := draining.leaked
      simp only
      split_ifs at alive starting failed changed <;> omega
    · intro u waits
      by_cases same : u = t
      · subst same
        exact move_draining moved (draining.waiting u) (by simpa using waits)
      · simp only [Function.update_of_ne same] at waits
        exact move_drained moved (draining.waiting u waits)
    · intro u destroyed here
      by_cases same : u = t
      · subst same
        have read := move_read moved (by simpa using here)
        simp only
        omega
      · simp only [Function.update_of_ne same] at here
        exact (draining.read u destroyed here).trans gone
    · intro finished
      have quiet : c.shared.drainSignal = true ∧ ∀ u, (c.pc u).working = false := by
        rcases move_freeing moved with before | leaving
        · apply draining.freed
          rcases finished with freed | ⟨u, frees⟩
          · exact (before (.inl freed)).imp_right fun frees => ⟨t, frees⟩
          · by_cases same : u = t
            · subst same
              exact (before (.inr (by simpa using frees))).imp_right fun frees => ⟨u, frees⟩
            · exact .inr ⟨u, by simpa [Function.update_of_ne same] using frees⟩
        · exact draining.left roles patient leaving
      refine ⟨move_drained moved quiet.1, ?_⟩
      exact (Function.forall_update_iff _ fun _ (l : Loc Ptr) => l.working = false).mpr
        ⟨move_working moved quiet.1 (quiet.2 t), fun u _ => quiet.2 u⟩
  · have alive : count (fun l => l.alive) c'.pc = count (fun l => l.alive) c.pc + 1 :=
      count_spawn (·.alive) spawned (resume_alive ..) rfl
    have starting : count (fun l => l.starting) c'.pc + 1 = count (fun l => l.starting) c.pc :=
      count_spawn (·.starting) spawned (resume_starting ..) rfl
    have failed : count (fun l => l.failed) c'.pc = count (fun l => l.failed) c.pc :=
      count_spawn (·.failed) spawned (resume_success_failed ..) rfl
    have leaked := draining.leaked
    have same := spawned.shared
    refine ⟨?_, ?_, ?_, ?_⟩
    · rw [same]
      omega
    · intro u waits
      rw [same]
      rcases spawned.cases u with ⟨born, -⟩ | ⟨resumed, -⟩ | ⟨other, -, -⟩
      · cases (congrArg Loc.draining born).symm.trans waits
      · cases (resumed ▸ resume_draining k .success).symm.trans waits
      · exact draining.waiting u (other ▸ waits)
    · intro u destroyed here
      rw [same]
      rcases spawned.cases u with ⟨born, -⟩ | ⟨resumed, -⟩ | ⟨other, -, -⟩
      · cases born.symm.trans here
      · have waits := congrArg Loc.draining (resumed.symm.trans here)
        cases (resume_draining k .success).symm.trans waits
      · exact draining.read u destroyed (other.symm.trans here)
    · intro finished
      have before : c.shared.freed = true ∨ ∃ u, (c.pc u).freeing = true := by
        apply finished.imp (same ▸ id)
        rintro ⟨u, frees⟩
        rcases spawned.cases u with ⟨born, -⟩ | ⟨resumed, -⟩ | ⟨other, -, -⟩
        · cases (congrArg Loc.freeing born).symm.trans frees
        · cases (resumed ▸ resume_freeing k .success).symm.trans frees
        · exact ⟨u, other ▸ frees⟩
      have working := (draining.freed before).2 t
      rw [spawned.point] at working
      cases working

variable {config : PoolConfig Ptr} {main : Tid} {pc : Tid → Loc Ptr}
  {actions : List (Tid × Act Tid Ptr)}

theorem freed_after_workers (starting : Starting main pc)
    (run : Run step Patient (start config pc) actions c) (freed : c.shared.freed = true) (t : Tid) :
    (c.pc t).alive = false := by
  have sound : Roles c ∧ Draining c := by
    refine run.invariant (fun c => Roles c ∧ Draining c)
      ⟨roles_start config starting, draining_start config starting⟩ ?_
    rintro c act c' ⟨roles, draining⟩ fired patient
    exact ⟨roles_step c act c' roles fired, draining_step act roles draining fired patient⟩
  have working := (sound.2.freed (.inl freed)).2 t
  simp only [Loc.working, Bool.or_eq_false_iff] at working
  exact working.1.1

/-- Two workers are wanted and the second cannot be created; the first has not begun to run yet. -/
theorem freed_under_worker : ¬ ∀ (actions : List (Fin 2 × Act (Fin 2) ℕ))
    (c : Config (Fin 2) (Pool ℕ) (Loc ℕ)),
    Run step Any (start ⟨false, false, none, 0, 0, 2⟩ ![.createLoop 0, .absent]) actions c →
    c.shared.freed = true → ∀ t, (c.pc t).alive = false := by
  intro sound
  have run : Run step Any
      (start ⟨false, false, none, 0, 0, 2⟩ ![(.createLoop 0 : Loc ℕ), .absent])
      [(0, .tick), (0, .tick), (0, .tick), (0, .tick), (0, .created 1), (0, .tick), (0, .tick),
        (0, .tick), (0, .tick), (0, .fail), (0, .tick), (0, .tick), (0, .tick)] _ :=
    run_any rfl
  cases sound _ _ run rfl 1

/-- The creator, whose second worker cannot be created, waits for the first one. -/
theorem freed_after_workers_sample : ∃ c : Config (Fin 2) (Pool ℕ) (Loc ℕ),
    c.shared.freed = true ∧ (c.pc 1).alive = false := by
  have starting : Starting (0 : Fin 2) ![(.createLoop 0 : Loc ℕ), .absent] := ⟨rfl, by decide⟩
  have run : Run step Patient
      (start ⟨false, false, none, 0, 0, 2⟩ ![(.createLoop 0 : Loc ℕ), .absent])
      [(0, .tick), (0, .tick), (0, .tick), (0, .tick), (0, .created 1), (0, .tick), (0, .tick),
        (0, .tick), (0, .tick), (1, .tick), (1, .tick), (1, .clock 1), (1, .tick), (0, .fail),
        (0, .tick), (0, .tick), (1, .tick), (1, .tick), (1, .tick), (1, .tick), (1, .tick),
        (1, .tick), (0, .tick), (0, .tick)] _ :=
    run_of_runs (fun c act c' => decide (Patient c act c'))
      (fun _ _ _ checked => of_decide_eq_true checked) rfl (by decide)
  exact ⟨_, rfl, freed_after_workers starting run rfl 1⟩

end Runs

end Libam.ThreadPool
