import Libam.Concurrency.Completion
import Libam.ThreadPool.Folding
import Libam.ThreadPool.Leaks

/-! From every state that a pool can reach, `lam_thread_pool_destroy` can return: the workers end,
one after the other, and the wait for them with them. -/

namespace Libam.ThreadPool

open Libam.Interleaving Libam.Stats

variable {Tid Ptr : Type}

def Loc.destroying : Loc Ptr → Bool
  | .destroyDrain => true
  | .destroyRead => true
  | .destroyCompare _ => true
  | .destroyFree => true
  | _ => false

def Loc.waiting : Loc Ptr → Bool
  | .destroyDrain => false
  | l => l.destroying

/-- The pool is destroyed when no call is running, and `pthread_create` succeeds. -/
def Agreed (c : Config Tid (Pool Ptr) (Loc Ptr)) (act : Tid × Act Tid Ptr)
    (_ : Config Tid (Pool Ptr) (Loc Ptr)) : Prop :=
  (act.2 = .destroy → ∀ u, (c.pc u).calling = false) ∧ (act.2 = .fail → ∀ k, c.pc act.1 ≠ .spawn k)

def MeasuredAgreed (c : Config Tid (Measured Ptr) (Station Ptr)) (act : Tid × Reading Tid Ptr)
    (_ : Config Tid (Measured Ptr) (Station Ptr)) : Prop :=
  (act.2 = .act .destroy → ∀ u, (c.pc u).loc.calling = false) ∧
  (act.2 = .act .fail → ∀ k, (c.pc act.1).loc ≠ .spawn k)

def Continuing (_ : Config Tid (Measured Ptr) (Station Ptr)) (act : Tid × Reading Tid Ptr)
    (_ : Config Tid (Measured Ptr) (Station Ptr)) : Prop :=
  act.2 = .act .tick ∨ (∃ now, act.2 = .act (.clock now)) ∨ ∃ ret, act.2 = .act (.result ret)

def Going (a : Reading Tid Ptr) : Prop :=
  a = .act .tick ∨ (∃ now, a = .act (.clock now)) ∨ ∃ ret, a = .act (.result ret)

theorem going_tick : Going (.act .tick : Reading Tid Ptr) := .inl rfl

theorem going_clock (now : UInt64) : Going (.act (.clock now) : Reading Tid Ptr) :=
  .inr (.inl ⟨now, rfl⟩)

theorem going_result (ret : Ptr) : Going (.act (.result ret) : Reading Tid Ptr) :=
  .inr (.inr ⟨ret, rfl⟩)

section Moves

variable {g g' : Pool Ptr} {l l' : Loc Ptr} {a : Act Tid Ptr}

theorem starting_of_idle (uncreated : l.creating = false) (uncalled : l.calling = false) :
    l.starting = false := by
  cases l with
  | compare k created => simp_all [Loc.creating, Loc.calling, Loc.caller]
  | rollback k => simp_all [Loc.creating, Loc.calling, Loc.caller]
  | spawn k => simp_all [Loc.creating, Loc.calling, Loc.caller]
  | _ => rfl

theorem managing_of_destroying (destroying : l.destroying = true) :
    l.managing = true ∧ l.creating = false ∧ l ≠ .owner := by
  cases l <;> first | (cases destroying; done) | exact ⟨rfl, rfl, nofun⟩

theorem destroying_of_waiting (waiting : l.waiting = true) : l.destroying = true := by
  cases l <;> first | rfl | cases waiting

theorem resume_destroying (k : Caller Ptr) (ret : Amrc) : (k.resume ret).destroying = false := by
  cases k <;> cases ret <;> rfl

theorem move_destroying (moved : Move g l a g' l') (destroying : l'.destroying = true) :
    l.destroying = true ∨ a = .destroy := by
  cases moved with
  | startDrained k drain => cases (resume_destroying k .error).symm.trans destroying
  | rollback k => cases (resume_destroying k .success).symm.trans destroying
  | spawnFailed k => cases (resume_destroying k .error).symm.trans destroying
  | destroy => exact .inr rfl
  | _ => first | exact .inl rfl | cases destroying

theorem move_signalled (moved : Move g l a g' l') (destroying : l'.destroying = true)
    (begun : l' ≠ .destroyDrain)
    (before : l.destroying = true → l ≠ .destroyDrain → g.drainSignal = true) :
    g'.drainSignal = true := by
  cases moved with
  | startDrained k drain => cases (resume_destroying k .error).symm.trans destroying
  | rollback k => cases (resume_destroying k .success).symm.trans destroying
  | spawnFailed k => cases (resume_destroying k .error).symm.trans destroying
  | destroy => exact absurd rfl begun
  | destroyDrain => rfl
  | destroyRead => exact before rfl nofun
  | destroyPoll destroyed working => exact before rfl nofun
  | destroyLeave destroyed quiet => exact before rfl nofun
  | _ => cases destroying

end Moves

section Runs

variable [Fintype Tid] [DecidableEq Tid]

/-- While the pool is destroyed, nobody is in a call, and each thread that was counted is
there or has gone. -/
structure Closed (c : Config Tid (Pool Ptr) (Loc Ptr)) : Prop where
  roles : Roles c
  threads : c.shared.threadsCreated = c.shared.threadsDestroyed + count (fun l => l.alive) c.pc +
    count (fun l => l.starting) c.pc
  calls : (∃ t, (c.pc t).destroying = true) → ∀ u, (c.pc u).calling = false
  signalled : ∀ t, (c.pc t).destroying = true → c.pc t ≠ .destroyDrain → c.shared.drainSignal = true

variable {c c' : Config Tid (Pool Ptr) (Loc Ptr)} {t : Tid} {a : Act Tid Ptr}

theorem Closed.step (closed : Closed c) (fired : step c (t, a) = some c')
    (agreed : Agreed c (t, a) c') : Closed c' := by
  have roles := roles_step c (t, a) c' closed.roles fired
  have calling := step_calling fired
  obtain ⟨settled, succeeds⟩ := agreed
  have quiet (began : ∃ u, (c.pc u).destroying = true) (u : Tid) : (c'.pc u).calling = false := by
    obtain ⟨v, destroying⟩ := began
    obtain ⟨managing, -, elsewhere⟩ := managing_of_destroying destroying
    by_contra busy
    rcases calling u (by simpa using busy) with before | opened
    · cases (closed.calls ⟨v, destroying⟩ u).symm.trans before
    · cases (closed.roles.closed managing elsewhere).symm.trans opened
  rcases step_cases fired with ⟨g, l, moved, rfl⟩ | ⟨k, child, spawned⟩
  · refine ⟨roles, ?_, ?_, ?_⟩
    · have changed := move_threads moved
      have alive := count_update (fun l : Loc Ptr => l.alive) c.pc t l
      have starting := count_update (fun l : Loc Ptr => l.starting) c.pc t l
      have before := closed.threads
      have lost : (c.pc t).lostThread a = 0 := by
        cases a with
        | fail =>
            cases point : c.pc t with
            | spawn k => exact absurd point (succeeds rfl k)
            | _ => rfl
        | _ => cases c.pc t <;> rfl
      simp only
      split_ifs at changed alive starting <;> omega
    · rintro ⟨u, destroying⟩
      have began : (∃ u, (c.pc u).destroying = true) ∨ a = .destroy := by
        by_cases self : u = t
        · rw [self] at destroying
          simp only [Function.update_self] at destroying
          exact (move_destroying moved destroying).imp_left fun before => ⟨t, before⟩
        · simp only [Function.update_of_ne self] at destroying
          exact .inl ⟨u, destroying⟩
      rcases began with before | destroys
      · exact quiet before
      · have none := settled destroys
        rw [destroys] at moved
        intro v
        by_cases self : v = t
        · rw [self]
          simp only [Function.update_self]
          generalize c.pc t = loc at moved
          cases moved
          rfl
        · simp only [Function.update_of_ne self]
          exact none v
    · intro u destroying begun
      by_cases self : u = t
      · rw [self] at destroying begun
        simp only [Function.update_self] at destroying begun
        exact move_signalled moved destroying begun (closed.signalled t)
      · simp only [Function.update_of_ne self] at destroying begun
        exact move_drained moved (closed.signalled u destroying begun)
  · have alive : count (fun l => l.alive) c'.pc = count (fun l => l.alive) c.pc + 1 :=
      count_spawn (·.alive) spawned (resume_alive ..) rfl
    have starting : count (fun l => l.starting) c'.pc + 1 = count (fun l => l.starting) c.pc :=
      count_spawn (·.starting) spawned (resume_starting ..) rfl
    have before := closed.threads
    have same := spawned.shared
    have stays {u : Tid} (destroying : (c'.pc u).destroying = true) : c'.pc u = c.pc u := by
      rcases spawned.cases u with ⟨born, -⟩ | ⟨resumed, -⟩ | ⟨other, -, -⟩
      · rw [born] at destroying
        cases destroying
      · rw [resumed, resume_destroying] at destroying
        cases destroying
      · exact other
    refine ⟨roles, ?_, ?_, ?_⟩
    · rw [same]
      omega
    · rintro ⟨u, destroying⟩
      rw [stays destroying] at destroying
      exact quiet ⟨u, destroying⟩
    · intro u destroying begun
      rw [stays destroying] at begun
      rw [stays destroying] at destroying
      rw [same]
      exact closed.signalled u destroying begun

omit [DecidableEq Tid] in
theorem closed_start (config : PoolConfig Ptr) {main : Tid} {pc : Tid → Loc Ptr}
    (starting : Starting main pc) : Closed (start config pc) := by
  have none (p : Loc Ptr → Bool) := starting.count_eq_zero p
  refine ⟨roles_start config starting, ?_, ?_, ?_⟩
  · simp only [start]
    rw [none _ rfl rfl rfl, none _ rfl rfl rfl]
    rfl
  · rintro ⟨t, destroying⟩
    cases (starting.all (fun l => l.destroying = false) rfl rfl rfl t).symm.trans destroying
  · intro t destroying
    cases (starting.all (fun l => l.destroying = false) rfl rfl rfl t).symm.trans destroying

omit [DecidableEq Tid] in
/-- While the pool is destroyed, each thread that was counted and has not gone is a worker. -/
theorem Closed.workers (closed : Closed c) (destroying : (c.pc t).destroying = true) :
    c.shared.threadsCreated = c.shared.threadsDestroyed + count (fun l => l.alive) c.pc := by
  have none : count (fun l => l.starting) c.pc = 0 := by
    refine count_eq_zero.mpr fun u => ?_
    have uncalled := closed.calls ⟨t, destroying⟩ u
    obtain ⟨managing, uncreating, -⟩ := managing_of_destroying destroying
    have uncreated : (c.pc u).creating = false := by
      by_contra creating
      have same := closed.roles.single t u managing (managing_of_creating (by simpa using creating))
      rw [← same] at creating
      exact creating uncreating
    simp [starting_of_idle uncreated uncalled]
  have threads := closed.threads
  omega

end Runs

section Ranks

/-- How many accesses a thread may still need to end, when it finds the drain signal
set and no task. -/
def Station.rank (created : ℤ) (p : Station Ptr) : ℕ :=
  match p.loc with
  | .begin => 23
  | .countActive _ => 22
  | .countIdle _ => 21
  | .pop _ => 20
  | .noTask _ => 19
  | .readDrain _ => 18
  | .shouldStop _ => 22
  | .suspend _ => 21
  | .gotTask _ _ => 24
  | .process _ _ => 23
  | .store _ _ _ => 22
  | .release _ => 21
  | .fold =>
      match p.stage with
      | .load rest => 4 + 2 * rest.length
      | .store _ _ rest => 5 + 2 * rest.length
      | _ => 17
  | .uncountIdle => 3
  | .uncountActive => 2
  | .countDestroyed => 1
  | .destroyDrain => 4
  | .destroyRead => 3
  | .destroyCompare destroyed => if destroyed < created then 4 else 2
  | .destroyFree => 1
  | _ => 0

/-- Nearer to its end. A task that a worker takes costs five accesses more. -/
structure Nearer (s : Measured Ptr) (p : Station Ptr) (s' : Measured Ptr)
    (p' : Station Ptr) : Prop where
  created : s'.pool.threadsCreated = s.pool.threadsCreated
  less : p'.rank s.pool.threadsCreated + 5 * s'.pool.tasksQueue.length <
    p.rank s.pool.threadsCreated + 5 * s.pool.tasksQueue.length

def Station.Advances (s : Measured Ptr) (p : Station Ptr) (a : Reading Tid Ptr) : Prop :=
  ∃ s' p', s.next p a = some (s', p') ∧ Nearer s p s' p'

variable {s s' : Measured Ptr} {p p' : Station Ptr}

theorem measures_nearer (alive : p.loc.alive = true) (drain : s.pool.drainSignal = true)
    (measured : Measures Tid s p s' p') : Nearer s p s' p' := by
  have elsewhere {l : Loc Ptr} (outside : l.alive = false) (point : p.loc = l) : False := by
    rw [point, outside] at alive
    cases alive
  cases measured with
  | reads task stage point outside => exact (elsewhere rfl point).elim
  | surveys task numbers point ordered moved => exact (elsewhere rfl point).elim
  | resumes k point => exact (elsewhere rfl point).elim
  | begins point => exact (elsewhere rfl point).elim
  | locks point stage free => exact ⟨rfl, by simp [Station.rank, point, stage, measures]⟩
  | loads m rest point stage =>
      refine ⟨rfl, ?_⟩
      simp only [Station.rank, point, stage, List.length_cons]
      omega
  | stores m seen rest point stage =>
      refine ⟨rfl, ?_⟩
      simp only [Station.rank, point, stage]
      omega
  | unlocks point stage => exact ⟨rfl, by simp [Station.rank, point, stage]⟩
  | follows a folded surveyed moved =>
      obtain ⟨loc, stage, total, stats, kept⟩ := p
      simp only at alive folded moved
      cases moved with
      | popTask w task rest queued =>
          refine ⟨rfl, ?_⟩
          simp only [Station.rank, queued, List.length_cons]
          omega
      | notDrained w calm => exact absurd drain calm
      | fold => exact absurd rfl folded
      | _ => first | exact absurd alive Bool.false_ne_true | exact ⟨rfl, by simp [Station.rank]⟩

theorem next_of_follows {a : Act Tid Ptr} {g : Pool Ptr} {l : Loc Ptr} (folded : p.loc ≠ .fold)
    (surveyed : ∀ task, p.loc ≠ .readIdle task) (moved : next s.pool p.loc a = some (g, l)) :
    s.next p (.act a) =
      some ({ s.accounts p a with pool := g },
        { p.accounts s a with loc := l, stage := .plain }) := by
  have fired : s.next p (.act a) = s.follow p a := by
    unfold Measured.next
    split
    · rename_i task point
      exact absurd point (surveyed task)
    · rename_i point
      exact absurd point folded
    · rfl
  exact fired.trans (follow_eq_some.mpr ⟨g, l, moved, rfl, rfl⟩)

theorem worker_moves (Tid : Type) {g : Pool Ptr} {l : Loc Ptr} (alive : l.alive = true) :
    ∃ a : Act Tid Ptr, (next g l a).isSome = true ∧ Going (.act a) := by
  have ticks (moves : (next g l (.tick : Act Tid Ptr)).isSome = true) :
      ∃ a : Act Tid Ptr, (next g l a).isSome = true ∧ Going (.act a) := ⟨.tick, moves, going_tick⟩
  have clocks (moves : (next g l (.clock 0 : Act Tid Ptr)).isSome = true) :
      ∃ a : Act Tid Ptr, (next g l a).isSome = true ∧ Going (.act a) :=
      ⟨.clock 0, moves, going_clock 0⟩
  cases l with
  | begin => exact ticks rfl
  | countActive threadId => exact ticks rfl
  | countIdle threadId => exact clocks rfl
  | pop w =>
      apply ticks
      simp only [next]
      split <;> rfl
  | noTask w =>
      apply ticks
      simp only [next]
      split <;> rfl
  | readDrain w =>
      apply ticks
      simp only [next]
      split <;> rfl
  | shouldStop w =>
      apply ticks
      simp only [next]
      split <;> rfl
  | suspend w => exact clocks rfl
  | gotTask w task =>
      apply clocks
      simp only [next]
      split <;> rfl
  | process w task => exact ⟨.result task.arg, rfl, going_result task.arg⟩
  | store w task ret =>
      apply ticks
      simp only [next]
      split <;> rfl
  | release w => exact clocks rfl
  | fold => exact ticks rfl
  | uncountIdle => exact ticks rfl
  | uncountActive => exact ticks rfl
  | countDestroyed => exact ticks rfl
  | _ => cases alive

theorem worker_advances (alive : p.loc.alive = true) (folded : p.loc ≠ .fold)
    (drain : s.pool.drainSignal = true) : ∃ a : Reading Tid Ptr, p.Advances s a ∧ Going a := by
  obtain ⟨a, moves, going⟩ := worker_moves Tid (g := s.pool) alive
  obtain ⟨⟨g, l⟩, moved⟩ := Option.isSome_iff_exists.mp moves
  have surveyed (task : Task Ptr) : p.loc ≠ .readIdle task := by
    intro point
    rw [point] at alive
    cases alive
  have fired := next_of_follows folded surveyed moved
  exact ⟨.act a, ⟨_, _, fired, measures_nearer alive drain (measures_of_next fired)⟩, going⟩

/-- The owner of the mutex, or anybody when it is free, goes on in `lam_thread_pool_stats_fold`. -/
theorem fold_advances (point : p.loc = .fold) (drain : s.pool.drainSignal = true)
    (staged : p.stage = .plain ∧ s.locked = false ∨ p.stage.locking = true) :
    p.Advances s (.act .tick : Reading Tid Ptr) := by
  have moves : (s.next p (.act .tick : Reading Tid Ptr)).isSome = true := by
    obtain ⟨loc, stage, total, stats, kept⟩ := p
    simp only at point staged
    subst point
    rcases staged with ⟨rfl, free⟩ | locking
    · simp only [Measured.next, Measured.fold, free, Bool.false_eq_true, if_false,
        Option.isSome_some]
    · cases stage with
      | load rest => cases rest <;> rfl
      | store m seen rest => rfl
      | _ => cases locking
  obtain ⟨⟨s', p'⟩, fired⟩ := Option.isSome_iff_exists.mp moves
  exact ⟨s', p', fired, measures_nearer (by rw [point]; rfl) drain (measures_of_next fired)⟩

/-- When all workers have ended, and before it waits for them, the teardown goes on. -/
theorem destroyer_advances (destroying : p.loc.destroying = true)
    (quiet : p.loc ≠ .destroyDrain → s.pool.threadsCreated = s.pool.threadsDestroyed) :
    p.Advances s (.act .tick : Reading Tid Ptr) := by
  obtain ⟨loc, stage, total, stats, kept⟩ := p
  simp only at destroying quiet
  cases loc with
  | destroyDrain => exact ⟨_, _, next_of_follows nofun nofun rfl, rfl, by simp [Station.rank]⟩
  | destroyRead =>
      exact ⟨_, _, next_of_follows nofun nofun rfl, rfl, by simp [Station.rank, quiet nofun]⟩
  | destroyCompare destroyed =>
      by_cases working : destroyed < s.pool.threadsCreated
      · have moved : next s.pool (.destroyCompare destroyed)
            (.tick : Act Tid Ptr) = some (s.pool, .destroyRead) := by
          simp only [next, if_pos working]
        exact ⟨_, _, next_of_follows nofun nofun moved, rfl, by simp [Station.rank, working]⟩
      · have moved : next s.pool (.destroyCompare destroyed)
            (.tick : Act Tid Ptr) = some (s.pool, .destroyFree) := by
          simp only [next, if_neg working]
        exact ⟨_, _, next_of_follows nofun nofun moved, rfl, by simp [Station.rank, working]⟩
  | destroyFree => exact ⟨_, _, next_of_follows nofun nofun rfl, rfl, by simp [Station.rank]⟩
  | _ => cases destroying

theorem rank_pos_of_destroying (destroying : p.loc.destroying = true) (created : ℤ) :
    0 < p.rank created := by
  obtain ⟨loc, stage, total, stats, kept⟩ := p
  cases loc with
  | destroyCompare destroyed =>
      simp only [Station.rank]
      split <;> omega
  | _ => first | (cases destroying; done) | exact Nat.succ_pos _

theorem Station.Keeps.rank_le (keeps : p.Keeps) (created : ℤ) : p.rank created ≤ 24 := by
  have few : p.pending.length ≤ 6 :=
    (List.subperm_of_subset keeps.distinct fun m _ => mem_measures m).length_le
  obtain ⟨loc, stage, total, stats, kept⟩ := p
  cases loc with
  | fold =>
      cases stage <;> simp only [Station.pending, List.length_cons] at few <;>
        simp only [Station.rank] <;> omega
  | destroyCompare destroyed =>
      simp only [Station.rank]
      split <;> omega
  | _ => simp [Station.rank]

end Ranks

section Accesses

variable {s s' : Measured Ptr} {p p' : Station Ptr}

/-- In `lam_thread_pool_stats_fold` a worker waits for the mutex or has it. -/
def Station.Staged (p : Station Ptr) : Prop := p.loc = .fold → p.stage = .plain ∨
    p.stage.locking = true

theorem staged_of_measures (measured : Measures Tid s p s' p') : p'.Staged := by
  intro point
  cases measured with
  | reads task stage here outside =>
      rw [show p.loc = .fold from point] at here
      cases here
  | resumes k here => cases k <;> cases point
  | begins here => cases point
  | surveys task numbers here ordered moved => exact .inl rfl
  | unlocks here stage => exact .inl rfl
  | follows a folded surveyed moved => exact .inl rfl
  | _ => exact .inr rfl

theorem measures_locked (keeps : p.Keeps) (measured : Measures Tid s p s' p') :
    s'.locked = false ∨ p'.stage.locking = true ∨ s'.locked = s.locked ∧
    p.stage.locking = false := by
  cases measured with
  | reads task stage point outside => exact .inr (.inr ⟨rfl, keeps.unlocked (by simp [point])⟩)
  | surveys task numbers point ordered moved =>
      exact .inr (.inr ⟨rfl, keeps.unlocked (by simp [point])⟩)
  | unlocks point stage => exact .inl rfl
  | resumes k point => exact .inr (.inr ⟨rfl, keeps.unlocked (by simp [point])⟩)
  | begins point => exact .inr (.inr ⟨rfl, keeps.unlocked (by simp [point])⟩)
  | follows a folded surveyed moved =>
      exact .inr (.inr ⟨(accounts_shared s p a).2.1, keeps.unlocked folded⟩)
  | _ => exact .inr (.inl rfl)

/-- The teardown leaves only with its report, and touches neither the queue nor the
number of threads. -/
theorem measures_destroying (measured : Measures Tid s p s' p')
    (destroying : p.loc.destroying = true) :
    (p'.loc.waiting = true ∨ p'.loc = .ended ∧ s'.reported.isSome = true) ∧
    s'.pool.threadsCreated = s.pool.threadsCreated ∧ s'.pool.tasksQueue = s.pool.tasksQueue := by
  have elsewhere {l : Loc Ptr} (outside : l.destroying = false) (point : p.loc = l) : False := by
    rw [point, outside] at destroying
    cases destroying
  cases measured with
  | reads task stage point outside => exact (elsewhere rfl point).elim
  | surveys task numbers point ordered moved => exact (elsewhere rfl point).elim
  | locks point stage free => exact (elsewhere rfl point).elim
  | loads m rest point stage => exact (elsewhere rfl point).elim
  | stores m seen rest point stage => exact (elsewhere rfl point).elim
  | unlocks point stage => exact (elsewhere rfl point).elim
  | resumes k point => exact (elsewhere rfl point).elim
  | begins point => exact (elsewhere rfl point).elim
  | follows a folded surveyed moved =>
      obtain ⟨loc, stage, total, stats, kept⟩ := p
      simp only at moved
      cases moved with
      | destroyDrain => exact ⟨.inl rfl, rfl, rfl⟩
      | destroyRead => exact ⟨.inl rfl, rfl, rfl⟩
      | destroyPoll destroyed working => exact ⟨.inl rfl, rfl, rfl⟩
      | destroyLeave destroyed quiet => exact ⟨.inl rfl, rfl, rfl⟩
      | destroyFree => exact ⟨.inr ⟨rfl, rfl⟩, rfl, rfl⟩
      | _ => exact absurd destroying Bool.false_ne_true

theorem measures_ended (measured : Measures Tid s p s' p') (ended : p.loc = .ended) : False := by
  cases measured with
  | follows a folded surveyed moved =>
      rw [ended] at moved
      cases moved
  | reads task stage point outside => cases ended.symm.trans point
  | surveys task numbers point ordered moved => cases ended.symm.trans point
  | locks point stage free => cases ended.symm.trans point
  | loads m rest point stage => cases ended.symm.trans point
  | stores m seen rest point stage => cases ended.symm.trans point
  | unlocks point stage => cases ended.symm.trans point
  | resumes k point => cases ended.symm.trans point
  | begins point => cases ended.symm.trans point

theorem measures_still_reported (measured : Measures Tid s p s' p')
    (reported : s.reported.isSome = true) : s'.reported.isSome = true := by
  cases measured with
  | follows a folded surveyed moved =>
      simp only [Measured.accounts]
      split
      · exact reported
      · split <;> exact reported
      · rfl
      · exact reported
  | _ => exact reported

end Accesses

section Completion

variable [Fintype Tid] {c c' : Config Tid (Measured Ptr) (Station Ptr)} {t : Tid}
  {a : Reading Tid Ptr}

structure Mutexed (c : Config Tid (Measured Ptr) (Station Ptr)) : Prop where
  folding : Folding c
  staged : ∀ u, (c.pc u).Staged
  owned : c.shared.locked = true → ∃ u, (c.pc u).stage.locking = true

structure Serviceable (c : Config Tid (Measured Ptr) (Station Ptr)) : Prop where
  closed : Closed (plainly c)
  mutexed : Mutexed c

theorem serviceable_start {config : PoolConfig Ptr} {pc : Tid → Loc Ptr} {main : Tid}
    (starting : Starting main pc) (unmeasured : Unmeasured config pc c) : Serviceable c := by
  constructor
  · rw [unmeasured.plain]
    exact closed_start config starting
  · constructor
    · exact folding_start starting unmeasured
    · exact fun u _ => .inl (unmeasured.threads u).1
    · intro locked
      cases unmeasured.unlocked.symm.trans locked

theorem Mutexed.advances (mutexed : Mutexed c) (drain : c.shared.pool.drainSignal = true)
    (point : (c.pc t).loc = .fold) :
    ∃ u, (c.pc u).Advances c.shared (.act .tick : Reading Tid Ptr) := by
  by_cases locked : c.shared.locked = true
  · obtain ⟨u, inside⟩ := mutexed.owned locked
    exact ⟨u, fold_advances ((mutexed.folding.keeps u).inside inside) drain (.inr inside)⟩
  · refine ⟨t, fold_advances point drain ?_⟩
    exact (mutexed.staged t point).imp_left fun plain => ⟨plain, by simpa using locked⟩

theorem Serviceable.advances (serviceable : Serviceable c)
    (destroying : (c.pc t).loc.destroying = true) :
    ∃ u, ∃ a : Reading Tid Ptr, (c.pc u).Advances c.shared a ∧ Going a := by
  have threads := serviceable.closed.workers (t := t) destroying
  by_cases early : (c.pc t).loc = .destroyDrain
  · exact ⟨t, _, destroyer_advances destroying fun late => absurd early late, going_tick⟩
  have drain : c.shared.pool.drainSignal = true := serviceable.closed.signalled t destroying early
  by_cases working : ∃ u, (c.pc u).loc.alive = true
  · obtain ⟨u, alive⟩ := working
    by_cases point : (c.pc u).loc = .fold
    · obtain ⟨v, advances⟩ := serviceable.mutexed.advances drain point
      exact ⟨v, _, advances, going_tick⟩
    · exact ⟨u, worker_advances alive point drain⟩
  · have none : count (fun l : Loc Ptr => l.alive) (plainly c).pc = 0 :=
      count_eq_zero.mpr fun u alive => working ⟨u, alive⟩
    rw [none, Nat.cast_zero, add_zero] at threads
    exact ⟨t, _, destroyer_advances destroying fun _ => threads, going_tick⟩

variable [DecidableEq Tid]

theorem Mutexed.step {s : Measured Ptr} {p : Station Ptr} (mutexed : Mutexed c)
    (measured : Measures Tid c.shared (c.pc t) s p) : Mutexed ⟨s, Function.update c.pc t p⟩ := by
  constructor
  · exact mutexed.folding.step measured
  · exact (Function.forall_update_iff c.pc fun _ => Station.Staged).mpr
      ⟨staged_of_measures measured, fun u _ => mutexed.staged u⟩
  · intro locked
    rcases measures_locked (mutexed.folding.keeps t) measured with free | own | ⟨same, outside⟩
    · cases free.symm.trans locked
    · exact ⟨t, by simpa using own⟩
    · obtain ⟨u, inside⟩ := mutexed.owned (same ▸ locked)
      have other : u ≠ t := by
        intro self
        rw [self, outside] at inside
        cases inside
      exact ⟨u, by simpa [other] using inside⟩

theorem Serviceable.step (serviceable : Serviceable c) (fired : measuredStep c (t, a) = some c')
    (agreed : MeasuredAgreed c (t, a) c') : Serviceable c' := by
  constructor
  · rcases measuredStep_plainly fired with same | ⟨act, rfl, fired'⟩
    · rw [same]
      exact serviceable.closed
    · refine serviceable.closed.step fired' ⟨fun destroys => agreed.1 ?_, fun fails => agreed.2 ?_⟩
      · exact congrArg Reading.act destroys
      · exact congrArg Reading.act fails
  · exact measuredStep_keeps Mutexed (fun _ _ => True) (fun _ => trivial)
      (fun c t s p mutexed _ measured => mutexed.step measured) fired serviceable.mutexed

/-- On the way to return from `lam_thread_pool_destroy`, or back with the statistics. -/
def Returning (t : Tid) (c : Config Tid (Measured Ptr) (Station Ptr)) : Prop :=
  (c.pc t).loc.destroying = true ∨ (c.pc t).loc = .ended ∧ c.shared.reported.isSome = true

omit [Fintype Tid] in
theorem returns_step {u : Tid} (returns : Returning t c) (fired : measuredStep c (u, a) = some c') :
    Returning t c' := by
  refine measuredStep_keeps (Returning t) (fun _ _ => True) (fun _ => trivial) ?_ fired returns
  intro c u s p returns _ measured
  by_cases self : t = u
  · subst self
    rcases returns with destroying | ⟨ended, -⟩
    · rcases (measures_destroying measured destroying).1 with waiting | back
      · exact .inl (by simpa using destroying_of_waiting waiting)
      · exact .inr (by simpa using back)
    · exact (measures_ended measured ended).elim
  · simp only [Returning, Function.update_of_ne self]
    exact returns.imp_right fun back => ⟨back.1, measures_still_reported measured back.2⟩

omit [Fintype Tid] in
theorem measuredStep_of_next {s : Measured Ptr} {p : Station Ptr}
    (fired : c.shared.next (c.pc t) a = some (s, p)) :
    measuredStep c (t, a) = some ⟨s, Function.update c.pc t p⟩ := by
  unfold measuredStep
  split
  · rename_i child k created point
    simp only at created point
    rw [created] at fired
    simp only [Measured.next, point, Measured.follow, next, Option.map_none] at fired
    cases fired
  · exact Config.step_eq_some.mpr ⟨s, p, fired, rfl⟩

/-- What is left to do: 5 accesses for each task of the queue, and what each thread
needs without them. -/
def remaining (c : Config Tid (Measured Ptr) (Station Ptr)) : ℕ :=
  tally (Station.rank c.shared.pool.threadsCreated) c.pc + 5 * c.shared.pool.tasksQueue.length

theorem remaining_step {s : Measured Ptr} {p : Station Ptr}
    (nearer : Nearer c.shared (c.pc t) s p) :
    remaining ⟨s, Function.update c.pc t p⟩ < remaining c := by
  have change := tally_update (Station.rank c.shared.pool.threadsCreated) c.pc t p
  have less := nearer.less
  simp only [remaining, nearer.created]
  omega

omit [DecidableEq Tid] in
theorem Serviceable.remaining_le (serviceable : Serviceable c) :
    remaining c ≤ 24 * Fintype.card Tid + 5 * c.shared.pool.tasksQueue.length := by
  have total : tally (Station.rank c.shared.pool.threadsCreated) c.pc ≤ Fintype.card Tid * 24 :=
    Finset.sum_le_card_nsmul _ _ 24 fun u _ => (serviceable.mutexed.folding.keeps u).rank_le _
  rw [remaining]
  omega

omit [DecidableEq Tid] in
theorem rank_le_remaining (c : Config Tid (Measured Ptr) (Station Ptr)) (t : Tid) :
    (c.pc t).rank c.shared.pool.threadsCreated ≤ remaining c :=
  le_add_right (Finset.single_le_sum (f := fun u => (c.pc u).rank c.shared.pool.threadsCreated)
    (fun _ _ => Nat.zero_le _) (Finset.mem_univ t))

omit [Fintype Tid] [DecidableEq Tid] in
theorem agreed_of_continuing {act : Tid × Reading Tid Ptr} (continuing : Continuing c act c') :
    MeasuredAgreed c act c' := by
  obtain ⟨u, a⟩ := act
  rcases continuing with same | ⟨now, same⟩ | ⟨ret, same⟩ <;> cases same <;> exact ⟨nofun, nofun⟩

def remainingUntil (t : Tid) (c : Config Tid (Measured Ptr) (Station Ptr)) : ℕ :=
  if (c.pc t).loc.destroying then remaining c else 0

theorem Serviceable.nearer (serviceable : Serviceable c) (returns : Returning t c)
    (heavy : remainingUntil t c ≠ 0) :
    ∃ later c', Run measuredStep Continuing c later c' ∧ later.length ≤ 1 ∧
      (Serviceable c' ∧ Returning t c') ∧ remainingUntil t c' < remainingUntil t c := by
  have destroying : (c.pc t).loc.destroying = true := by
    by_contra idle
    exact heavy (if_neg idle)
  obtain ⟨u, a, ⟨s, p, fired, closer⟩, continuing⟩ := serviceable.advances destroying
  have stepped := measuredStep_of_next fired
  refine ⟨[] ++ [(u, a)], _, .snoc .nil stepped continuing, Nat.le_refl 1,
    ⟨serviceable.step stepped (agreed_of_continuing continuing), returns_step returns stepped⟩, ?_⟩
  rw [remainingUntil, remainingUntil, if_pos destroying]
  split
  · exact remaining_step closer
  · rw [remainingUntil, if_pos destroying] at heavy
    exact Nat.pos_of_ne_zero heavy

variable {config : PoolConfig Ptr} {main : Tid} {pc : Tid → Loc Ptr}
  {actions : List (Tid × Reading Tid Ptr)} {c₀ : Config Tid (Measured Ptr) (Station Ptr)}

theorem serviceable_run (starting : Starting main pc) (unmeasured : Unmeasured config pc c₀)
    (run : Run measuredStep MeasuredAgreed c₀ actions c) : Serviceable c :=
  run.invariant Serviceable (serviceable_start starting unmeasured)
    fun _ act _ serviceable => serviceable.step (t := act.1) (a := act.2)

/-- However the threads have got there, `lam_thread_pool_destroy` can return with the statistics
from wherever it is: the threads have only to go on. -/
theorem lam_thread_pool_destroy_completes (starting : Starting main pc)
    (unmeasured : Unmeasured config pc c₀) (run : Run measuredStep MeasuredAgreed c₀ actions c)
    (destroying : (c.pc t).loc.destroying = true) :
    ∃ later c', Run measuredStep Continuing c later c' ∧
      later.length ≤ 24 * Fintype.card Tid + 5 * c.shared.pool.tasksQueue.length ∧
      (c'.pc t).loc = .ended ∧ ∃ stats, c'.shared.reported = some stats := by
  have serviceable := serviceable_run starting unmeasured run
  obtain ⟨later, c', run', short, ⟨serviceable', returns⟩, rest⟩ :=
    comes_to_rest (fun c => Serviceable c ∧ Returning t c) (remainingUntil t) 1
      (fun c both heavy => both.1.nearer both.2 heavy) c ⟨serviceable, .inl destroying⟩
  refine ⟨later, c', run', ?_, ?_⟩
  · rw [remainingUntil, if_pos destroying, one_mul] at short
    exact short.trans serviceable.remaining_le
  · rcases returns with still | ⟨ended, reported⟩
    · have positive := rank_pos_of_destroying still c'.shared.pool.threadsCreated
      have within := rank_le_remaining c' t
      rw [remainingUntil, if_pos still] at rest
      omega
    · exact ⟨ended, Option.isSome_iff_exists.mp reported⟩

omit [Fintype Tid] [DecidableEq Tid] in
theorem alive_of_next {s s' : Measured Ptr} {p p' : Station Ptr}
    (unmanaged : p.loc.managing = false) (uncalled : p.loc.calling = false)
    (fired : s.next p a = some (s', p')) (going : Going a) : p.loc.alive = true := by
  have uncreated : p.loc.creating = false := by
    by_contra creating
    cases unmanaged.symm.trans (managing_of_creating (by simpa using creating))
  obtain ⟨loc, stage, total, stats, kept⟩ := p
  simp only at unmanaged uncalled uncreated
  have unstarted {k : Caller Ptr} (caller : loc.caller = some k)
      (creates : loc.creating = k.creating)
      (calls : loc.calling = !k.creating) : False := by
    rw [creates] at uncreated
    rw [calls, uncreated] at uncalled
    cases uncalled
  cases loc with
  | checkDrain k => exact (unstarted rfl rfl rfl).elim
  | ticket k => exact (unstarted rfl rfl rfl).elim
  | compare k created => exact (unstarted rfl rfl rfl).elim
  | rollback k => exact (unstarted rfl rfl rfl).elim
  | spawn k => exact (unstarted rfl rfl rfl).elim
  | outside => rcases going with rfl | ⟨now, rfl⟩ | ⟨ret, rfl⟩ <;> cases fired
  | aborted => rcases going with rfl | ⟨now, rfl⟩ | ⟨ret, rfl⟩ <;> cases fired
  | absent => rcases going with rfl | ⟨now, rfl⟩ | ⟨ret, rfl⟩ <;> cases fired
  | _ => first | rfl | (cases unmanaged; done) | cases uncalled

def remainingBeside (t : Tid) (c : Config Tid (Measured Ptr) (Station Ptr)) : ℕ :=
  remaining c - (c.pc t).rank c.shared.pool.threadsCreated

/-- Each step beside the teardown is one of those that are left, and the teardown adds none. -/
theorem Serviceable.beside {u : Tid} (serviceable : Serviceable c)
    (waiting : (c.pc t).loc.waiting = true) (fired : measuredStep c (u, a) = some c')
    (continuing : Continuing c (u, a) c') :
    remainingBeside t c' + (if u = t then 0 else 1) ≤ remainingBeside t c := by
  have destroying := destroying_of_waiting waiting
  have before := rank_le_remaining c t
  rcases measuredStep_cases fired with ⟨s, p, moved, rfl⟩ | ⟨k, child, rfl, -⟩
  · have after := rank_le_remaining ⟨s, Function.update c.pc u p⟩ t
    have measured := measures_of_next moved
    by_cases self : u = t
    · subst self
      obtain ⟨-, created, queue⟩ := measures_destroying measured destroying
      have change := tally_update (Station.rank c.shared.pool.threadsCreated) c.pc u p
      simp only [remaining, created, queue, Function.update_self] at before after
      simp only [remainingBeside, remaining, created, queue, Function.update_self, if_true]
      omega
    · have drain : c.shared.pool.drainSignal = true := by
        refine serviceable.closed.signalled t destroying fun early => ?_
        rw [show (c.pc t).loc = _ from early] at waiting
        cases waiting
      obtain ⟨managing, -, -⟩ := managing_of_destroying destroying
      have alive := alive_of_next (serviceable.closed.roles.alone (t := t) managing self)
        (serviceable.closed.calls ⟨t, destroying⟩ u) moved continuing
      have nearer := measures_nearer alive drain measured
      have less := remaining_step nearer
      have same : (Function.update c.pc u p) t = c.pc t := Function.update_of_ne (Ne.symm self) ..
      simp only [same, nearer.created] at after
      simp only [remainingBeside, same, nearer.created, if_neg self]
      omega
  · rcases continuing with other | ⟨now, other⟩ | ⟨ret, other⟩ <;> cases other

omit [Fintype Tid] in
theorem ended_step {u : Tid} (ended : (c.pc t).loc = .ended)
    (fired : measuredStep c (u, a) = some c') : (c'.pc t).loc = .ended := by
  refine measuredStep_keeps (fun c => (c.pc t).loc = .ended) (fun _ _ => True)
    (fun _ => trivial) ?_ fired ended
  intro c u s p ended _ measured
  by_cases self : t = u
  · subst self
    exact (measures_ended measured ended).elim
  · simpa only [Function.update_of_ne self] using ended

omit [Fintype Tid] in
theorem waiting_step {u : Tid} (waiting : (c.pc t).loc.waiting = true)
    (fired : measuredStep c (u, a) = some c') :
    (c'.pc t).loc.waiting = true ∨ (c'.pc t).loc = .ended := by
  refine measuredStep_keeps (fun c => (c.pc t).loc.waiting = true ∨ (c.pc t).loc = .ended)
    (fun _ _ => True) (fun _ => trivial) ?_ fired (.inl waiting)
  intro c u s p before _ measured
  by_cases self : t = u
  · subst self
    rcases before with waiting | ended
    · have after := (measures_destroying measured (destroying_of_waiting waiting)).1
      simp only [Function.update_self]
      exact after.imp_right And.left
    · exact (measures_ended measured ended).elim
  · simpa only [Function.update_of_ne self] using before

/-- As long as the teardown waits, the steps that were taken beside it are gone from those
that were left. -/
theorem Serviceable.beside_run {later : List (Tid × Reading Tid Ptr)} (serviceable : Serviceable c)
    (waiting : (c.pc t).loc.waiting = true) (more : Run measuredStep Continuing c later c') :
    Serviceable c' ∧ ((c'.pc t).loc = .ended ∨ (c'.pc t).loc.waiting = true ∧
      remainingBeside t c' + (later.countP fun act => act.1 ≠ t) ≤ remainingBeside t c) := by
  induction more with
  | nil => exact ⟨serviceable, .inr ⟨waiting, Nat.le_refl _⟩⟩
  | @snoc later c₁ c₂ act earlier fired continuing ih =>
      obtain ⟨u, a⟩ := act
      obtain ⟨before, counted⟩ := ih
      refine ⟨before.step fired (agreed_of_continuing continuing), ?_⟩
      rcases counted with ended | ⟨waits, few⟩
      · exact .inl (ended_step ended fired)
      · rcases waiting_step waits fired with waits' | ended
        · have one := before.beside waits fired continuing
          refine .inr ⟨waits', ?_⟩
          rw [List.countP_append, List.countP_singleton]
          simp only [ne_eq, decide_not] at few ⊢
          by_cases self : u = t
          · simp only [self, if_true, decide_true, Bool.not_true, Bool.false_eq_true,
              if_false] at one ⊢
            omega
          · simp only [self, if_false, decide_false, Bool.not_false, if_true] at one ⊢
            omega
        · exact .inl ended

/-- While `lam_thread_pool_destroy` waits, whoever runs and in whatever order, the workers are soon
at their end: they have only so many steps left, and none of them is wasted. -/
theorem lam_thread_pool_workers_end (starting : Starting main pc)
    (unmeasured : Unmeasured config pc c₀) (run : Run measuredStep MeasuredAgreed c₀ actions c)
    (waiting : (c.pc t).loc.waiting = true) {later : List (Tid × Reading Tid Ptr)}
    (more : Run measuredStep Continuing c later c') (still : (c'.pc t).loc.waiting = true) :
    (later.countP fun act => act.1 ≠ t) ≤
      24 * Fintype.card Tid + 5 * c.shared.pool.tasksQueue.length := by
  have serviceable := serviceable_run starting unmeasured run
  obtain ⟨-, ended | ⟨-, few⟩⟩ := serviceable.beside_run waiting more
  · rw [ended] at still
    cases still
  · have all := serviceable.remaining_le
    have beside : remainingBeside t c ≤ remaining c := Nat.sub_le ..
    omega

end Completion

section Samples

variable [Fintype Tid]

def agrees (c : Config Tid (Measured Ptr) (Station Ptr)) (act : Tid × Reading Tid Ptr)
    (_ : Config Tid (Measured Ptr) (Station Ptr)) : Bool :=
  match act.2 with
  | .act .destroy => decide (∀ u, (c.pc u).loc.calling = false)
  | .act .fail => false
  | _ => true

theorem agreed_of_agrees (c : Config Tid (Measured Ptr) (Station Ptr)) (act : Tid × Reading Tid Ptr)
    (c' : Config Tid (Measured Ptr) (Station Ptr)) (agreed : agrees c act c' = true) :
    MeasuredAgreed c act c' := by
  obtain ⟨u, a⟩ := act
  refine ⟨fun destroys => ?_, fun fails => ?_⟩
  · cases destroys
    exact of_decide_eq_true agreed
  · cases fails
    cases agreed

def continues (_ : Config Tid (Measured Ptr) (Station Ptr)) (act : Tid × Reading Tid Ptr)
    (_ : Config Tid (Measured Ptr) (Station Ptr)) : Bool :=
  match act.2 with
  | .act .tick => true
  | .act (.clock _) => true
  | .act (.result _) => true
  | _ => false

omit [Fintype Tid] in
theorem continuing_of_continues (c : Config Tid (Measured Ptr) (Station Ptr))
    (act : Tid × Reading Tid Ptr) (c' : Config Tid (Measured Ptr) (Station Ptr))
    (goes : continues c act c' = true) : Continuing c act c' := by
  obtain ⟨u, a⟩ := act
  unfold continues at goes
  split at goes
  · rename_i same
    exact .inl same
  · rename_i now same
    exact .inr (.inl ⟨now, same⟩)
  · rename_i ret same
    exact .inr (.inr ⟨ret, same⟩)
  · cases goes

theorem sampleUnmeasured_starts :
    Starting (0 : Fin 3) ![(.createLoop 0 : Loc ℕ), .outside, .absent] ∧
    Unmeasured ⟨false, false, none, 0, 0, 1⟩ ![(.createLoop 0 : Loc ℕ), .outside, .absent]
    sampleUnmeasured :=
  ⟨⟨rfl, by decide⟩, rfl, rfl, rfl, rfl, rfl, rfl, rfl, fun _ => ⟨rfl, rfl⟩⟩

/-- A pool of one worker is destroyed before the worker has begun with the one task; then the
worker runs it. -/
theorem sampleUnmeasured_waits : ∃ (c c' : Config (Fin 3) (Measured ℕ) (Station ℕ))
    (actions later : List (Fin 3 × Reading (Fin 3) ℕ)),
    Run measuredStep MeasuredAgreed sampleUnmeasured actions c ∧
    (c.pc 0).loc.waiting = true ∧ c.shared.pool.tasksQueue.length = 1 ∧
    Run measuredStep Continuing c later c' ∧
    (c'.pc 0).loc.waiting = true ∧ c'.shared.pool.executed.length = 1 := by
  have run : Run measuredStep MeasuredAgreed sampleUnmeasured
      [(0, .act .tick), (0, .act .tick), (0, .act .tick), (0, .act .tick), (0, .act (.created 2)),
        (0, .act .tick),
        (2, .act .tick), (2, .act .tick), (2, .act (.clock 1)), (2, .act .tick), (2, .act .tick),
        (2, .act .tick),
        (1, .act (.run (some 7) 5 none)), (1, .act .tick), (1, .act .tick),
        (1, .act (.clock 5)), (1, .size 0),
        (1, .act .tick), (1, .act .tick), (1, .act .tick), (0, .act .destroy), (0, .act .tick)] _ :=
    run_of_runs agrees agreed_of_agrees rfl (by decide)
  exact ⟨_, _, _, [(2, .act .tick), (2, .act (.clock 1)), (2, .act .tick), (2, .act (.clock 2)),
    (0, .act .tick),
    (2, .act (.result 9)), (2, .act .tick)], run, rfl, rfl,
    run_of_runs continues continuing_of_continues rfl (by decide), rfl, rfl⟩

theorem lam_thread_pool_destroy_completes_sample :
    ∃ (c c' : Config (Fin 3) (Measured ℕ) (Station ℕ))
    (later : List (Fin 3 × Reading (Fin 3) ℕ)), c.shared.pool.tasksQueue.length = 1 ∧
    Run measuredStep Continuing c later c' ∧ later.length ≤ 77 ∧ (c'.pc 0).loc = .ended := by
  obtain ⟨starting, unmeasured⟩ := sampleUnmeasured_starts
  obtain ⟨c, -, actions, -, run, waiting, queued, -⟩ := sampleUnmeasured_waits
  obtain ⟨later, c', more, short, ended, -⟩ :=
    lam_thread_pool_destroy_completes starting unmeasured run (destroying_of_waiting waiting)
  exact ⟨c, c', later, queued, more, by simpa [queued] using short, ended⟩

theorem lam_thread_pool_workers_end_sample : ∃ (c c' : Config (Fin 3) (Measured ℕ) (Station ℕ))
    (later : List (Fin 3 × Reading (Fin 3) ℕ)), Run measuredStep Continuing c later c' ∧
    c'.shared.pool.executed.length = 1 ∧ (later.countP fun act => act.1 ≠ 0) ≤ 77 := by
  obtain ⟨starting, unmeasured⟩ := sampleUnmeasured_starts
  obtain ⟨c, c', actions, later, run, waiting, queued, more, still, served⟩ :=
    sampleUnmeasured_waits
  have few := lam_thread_pool_workers_end starting unmeasured run waiting more still
  exact ⟨c, c', later, more, served, by simpa [queued] using few⟩

end Samples

end Libam.ThreadPool
