import Libam.ThreadPool.Freed
import Libam.ThreadPool.Tasks

/-! What a destroyed pool has done with the tasks that it had accepted. -/

namespace Libam.ThreadPool

open Libam.Interleaving

variable {Ptr : Type}

def Loc.quitting (g : Pool Ptr) : Loc Ptr → Bool
  | .readDrain _ => g.drainSignal
  | .shouldStop w => g.config.shouldStop w
  | _ => false

/-- In the failure path of `lam_thread_pool_create`. -/
def Loc.aborting : Loc Ptr → Bool
  | .createDrain => true
  | .createWait => true
  | .createFree => true
  | _ => false

/-- A worker, a start that was admitted, or one that will be unless a worker has gone already. -/
def Loc.engaged : Loc Ptr → Bool
  | .spawn _ => true
  | .compare _ created => created = 0
  | l => l.alive

def Loc.pushing : Loc Ptr → Bool
  | .push _ => true
  | _ => false

def Loc.numbered : Loc Ptr → Bool
  | .begin => false
  | l => l.alive

def Loc.threadId : Loc Ptr → Option ℕ
  | .countActive threadId => some threadId
  | .countIdle threadId => some threadId
  | .pop w => some w.threadId
  | .noTask w => some w.threadId
  | .readDrain w => some w.threadId
  | .shouldStop w => some w.threadId
  | .suspend w => some w.threadId
  | .gotTask w _ => some w.threadId
  | .process w _ => some w.threadId
  | .store w _ _ => some w.threadId
  | .release w => some w.threadId
  | _ => none

def Loc.serving (l : Loc Ptr) : Bool :=
  l.alive && (!l.numbered || l.threadId.isSome)

/-- The pool is destroyed when no call is running, `pthread_create` succeeds, and after the drain
signal the last worker does not leave its loop while tasks are queued. -/
def Attended {Tid : Type} (c : Config Tid (Pool Ptr) (Loc Ptr)) (act : Tid × Act Tid Ptr)
    (_ : Config Tid (Pool Ptr) (Loc Ptr)) : Prop :=
  (act.2 = .destroy → ∀ u, (c.pc u).calling = false) ∧
  (act.2 = .fail → (c.pc act.1).starting = false) ∧
  ((c.pc act.1).quitting c.shared = true → c.shared.drainSignal = true →
    c.shared.tasksQueue = [] ∨ ∃ u, u ≠ act.1 ∧ (c.pc u).serving = true)

instance {Tid : Type} [Fintype Tid] [DecidableEq Tid] [DecidableEq Ptr]
    (c : Config Tid (Pool Ptr) (Loc Ptr)) (act : Tid × Act Tid Ptr)
    (c' : Config Tid (Pool Ptr) (Loc Ptr)) : Decidable (Attended c act c') :=
  inferInstanceAs (Decidable ((act.2 = .destroy → ∀ u, (c.pc u).calling = false) ∧
    (act.2 = .fail → (c.pc act.1).starting = false) ∧
    ((c.pc act.1).quitting c.shared = true → c.shared.drainSignal = true →
      c.shared.tasksQueue = [] ∨ ∃ u, u ≠ act.1 ∧ (c.pc u).serving = true)))

@[simp ↓] theorem resume_numbered (k : Caller Ptr) (ret : Amrc) :
    (k.resume ret).numbered = false := by
  cases k <;> cases ret <;> rfl

theorem run_of_pushing {k : Caller Ptr} {ret : Amrc} (pushes : (k.resume ret).pushing = true) :
    ret = .success := by
  cases k <;> cases ret <;> first | rfl | cases pushes

theorem creating_of_aborting {k : Caller Ptr} {ret : Amrc}
    (aborts : (k.resume ret).aborting = true) : k.creating = true ∧ ret = .error := by
  cases k <;> cases ret <;> first | exact ⟨rfl, rfl⟩ | cases aborts

theorem working_of_engaged {l : Loc Ptr} (engaged : l.engaged = true) : l.working = true := by
  cases l <;> first | rfl | cases engaged

theorem serving_of_threadId {l : Loc Ptr} {threadId : ℕ} (has : l.threadId = some threadId) :
    l.serving = true := by
  cases l <;> first | rfl | cases has

theorem hands_of_dead {l : Loc Ptr} (dead : l.alive = false) : l.hands = 0 := by
  cases l <;> first | rfl | cases dead

theorem results_of_dead {l : Loc Ptr} (dead : l.alive = false) : l.results = 0 := by
  cases l <;> first | rfl | cases dead

section Moves

variable {Tid : Type} {g g' : Pool Ptr} {l l' : Loc Ptr} {a : Act Tid Ptr}

theorem move_aborting (moved : Move g l a g' l') (aborts : l'.aborting = true) :
    l.aborting = true ∨ g.drainSignal = true ∧ l.creating = true ∨
    a = .fail ∧ l.starting = true := by
  cases moved with
  | startDrained k drain => exact .inr (.inl ⟨drain, (creating_of_aborting aborts).1⟩)
  | spawnFailed k => exact .inr (.inr ⟨rfl, rfl⟩)
  | rollback k => cases (creating_of_aborting aborts).2
  | _ => simp_all [Loc.aborting]

theorem move_minThreads (moved : Move g l a g' l') (positive : g.config.minThreads ≠ 0) :
    g'.config.minThreads ≠ 0 := by
  cases moved <;> assumption

theorem gone_of_full {g : Pool Ptr} (gone : 0 ≤ g.threadsDestroyed) (full : g.full 0 = true) :
    0 < g.threadsDestroyed := by
  by_contra none
  have nobody : g.threadsDestroyed = 0 := by omega
  simp only [Pool.full, nobody, decide_eq_true_eq, UInt64.lt_iff_toNat_lt] at full
  simp at full
  omega

theorem move_engaged (moved : Move g l a g' l') (gone : 0 ≤ g.threadsDestroyed)
    (succeeds : a = .fail → l.starting = false) (engaged : l.engaged = true) :
    l'.engaged = true ∨ 0 < g'.threadsDestroyed := by
  cases moved with
  | refuse k created full =>
      obtain rfl : created = 0 := by simpa [Loc.engaged] using engaged
      exact .inr (gone_of_full gone full)
  | spawnFailed k => cases succeeds rfl
  | countDestroyed => exact .inr (by simp only; omega)
  | startDrained k drain => cases engaged
  | rollback k => cases engaged
  | _ => first | exact .inl rfl | cases engaged

theorem move_first (moved : Move g l a g' l') (none : g.threadsCreated = 0)
    (some : 0 < g'.threadsCreated) : l'.engaged = true := by
  cases moved with
  | ticket k => simp [Loc.engaged, none]
  | rollback k => simp only at some; omega
  | _ => exact absurd none some.ne'

theorem move_pushing (moved : Move g l a g' l') (pushes : l'.pushing = true) :
    g.idleThreadCount ≠ 0 ∨ l.starting = true := by
  cases moved with
  | startDrained k drain => cases run_of_pushing pushes
  | spawnFailed k => cases run_of_pushing pushes
  | rollback k => exact .inr rfl
  | someIdle task idle => exact .inl idle
  | _ => cases pushes

theorem move_accepted (moved : Move g l a g' l') :
    g'.accepted = g.accepted ∨ l.pushing = true := by
  cases moved <;> simp [Loc.pushing]

theorem move_numbered (moved : Move g l a g' l') (unnumbered : l.numbered = false) :
    (l'.numbered = false ∧ g'.runningId = g.runningId ∧
      g'.threadsDestroyed = g.threadsDestroyed) ∨ l'.threadId = some g.runningId := by
  cases moved with
  | begin => exact .inr rfl
  | _ => simp_all [Loc.numbered, Loc.alive]

/-- A worker of one of the first numbers leaves its loop only after the drain signal. -/
theorem move_threadId (moved : Move g l a g' l') {threadId : ℕ} (has : l.threadId = some threadId)
    (first : threadId ≤ g.config.minThreads.toNat) (calm : g.drainSignal = false) :
    l'.threadId = some threadId := by
  cases moved with
  | drained w drain => cases calm.symm.trans drain
  | timedOut w expired =>
      obtain rfl := Option.some.inj has
      simp [PoolConfig.shouldStop, first] at expired
  | _ => first | exact has | cases has

theorem move_serving (moved : Move g l a g' l') (serves : l.serving = true) :
    l'.serving = true ∨ g' = g ∧ l.quitting g = true := by
  cases moved with
  | drained w drain => exact .inr ⟨rfl, drain⟩
  | timedOut w expired => exact .inr ⟨rfl, expired⟩
  | startDrained k drain => cases serves
  | rollback k => cases serves
  | spawnFailed k => cases serves
  | _ => first | exact .inl rfl | cases serves

theorem move_queue (moved : Move g l a g' l') (empty : g.tasksQueue = []) :
    g'.tasksQueue = [] ∨ l.calling = true := by
  cases moved with
  | popTask w task rest queued => cases empty.symm.trans queued
  | push task => exact .inr rfl
  | _ => exact .inl empty

end Moves

section Runs

variable {Tid : Type}

/-- Without the handle nobody is in a call; the pool was created. -/
structure Closing (c : Config Tid (Pool Ptr) (Loc Ptr)) : Prop where
  calls : c.shared.isOpen = false → ∀ t, (c.pc t).calling = false
  created : ∀ t, (c.pc t).aborting = false

def Engaged (c : Config Tid (Pool Ptr) (Loc Ptr)) : Prop :=
  0 < c.shared.threadsDestroyed ∨ ∃ t, (c.pc t).engaged = true

/-- The worker with number 1 is still to come or is in its loop; after the drain signal some worker
is, or the queue is empty for good. -/
def Guarded (c : Config Tid (Pool Ptr) (Loc Ptr)) : Prop :=
  (c.shared.runningId = 1 ∧ c.shared.threadsDestroyed = 0 ∧ ∀ t, (c.pc t).numbered = false) ∨
  (c.shared.drainSignal = false ∧ ∃ t, (c.pc t).threadId = some 1) ∨
  (c.shared.drainSignal = true ∧
    (c.shared.tasksQueue = [] ∨ ∃ t, (c.pc t).serving = true))

structure Manned (c : Config Tid (Pool Ptr) (Loc Ptr)) : Prop where
  minimum : c.shared.config.minThreads ≠ 0
  engaged : 0 < c.shared.threadsCreated ∨ c.shared.accepted ≠ [] ∨
    (∃ t, (c.pc t).pushing = true) → Engaged c
  guarded : Guarded c

variable [DecidableEq Tid] {c c' : Config Tid (Pool Ptr) (Loc Ptr)} {t : Tid} {a : Act Tid Ptr}

theorem closing_step (roles : Roles c) (closing : Closing c) (fired : step c (t, a) = some c')
    (attended : Attended c (t, a) c') : Closing c' := by
  obtain ⟨settled, succeeds, -⟩ := attended
  have calling := step_calling fired
  rcases step_cases fired with ⟨g, l, moved, rfl⟩ | ⟨k, child, spawned⟩
  · constructor
    · intro closed u
      rcases move_open moved with kept | ⟨-, owner⟩ | ⟨opened, -, -⟩
      · by_contra busy
        rcases calling u (by simpa using busy) with before | opened
        · cases (closing.calls (kept ▸ closed) u).symm.trans before
        · cases (kept.symm.trans closed).symm.trans opened
      · rw [owner] at moved
        cases moved
        exact (Function.forall_update_iff _ fun _ (l : Loc Ptr) => l.calling = false).mpr
          ⟨rfl, fun u _ => settled rfl u⟩ u
      · cases closed.symm.trans opened
    · intro u
      by_cases same : u = t
      · subst same
        simp only [Function.update_self]
        by_contra aborts
        rcases move_aborting moved (by simpa using aborts) with before | ⟨drain, creates⟩ |
          ⟨fails, starting⟩
        · cases (closing.created u).symm.trans before
        · cases ((roles.drained drain).2 u).symm.trans creates
        · cases (succeeds fails).symm.trans starting
      · simpa [Function.update_of_ne same] using closing.created u
  · constructor
    · intro closed u
      rw [spawned.shared] at closed
      by_contra busy
      rcases calling u (by simpa using busy) with before | opened
      · cases (closing.calls closed u).symm.trans before
      · cases closed.symm.trans opened
    · refine spawned.all (fun l => l.aborting = false) rfl ?_ closing.created
      by_contra aborts
      cases (creating_of_aborting (by simpa using aborts)).2

omit [DecidableEq Tid] in
/-- With no call running and the pool created, a wait that ends leaves no start behind. -/
theorem patient_of_closing (roles : Roles c) (waiting : (c.pc t).draining = true →
    c.shared.drainSignal = true) (closing : Closing c) : Patient c (t, a) c' := by
  intro leaving
  have created := closing.created t
  cases here : c.pc t with
  | createWait =>
      rw [here] at created
      cases created
  | destroyCompare destroyed =>
      obtain ⟨closed, uncreated⟩ := roles.drained (waiting (by rw [here]; rfl))
      exact fun u => counted_of_idle (uncreated u) (closing.calls closed u)
  | _ =>
      simp only [here] at leaving
      cases leaving

theorem engaged_step (gone : 0 ≤ c.shared.threadsDestroyed) (engaged : Engaged c)
    (fired : step c (t, a) = some c') (succeeds : a = .fail → (c.pc t).starting = false) :
    Engaged c' := by
  rcases step_cases fired with ⟨g, l, moved, rfl⟩ | ⟨k, child, spawned⟩
  · rcases engaged with before | ⟨u, busy⟩
    · exact .inl (before.trans_le (move_destroyed moved).1)
    · by_cases same : u = t
      · subst same
        rcases move_engaged moved gone succeeds busy with still | left
        · exact .inr ⟨u, by simpa using still⟩
        · exact .inl left
      · exact .inr ⟨u, by simpa [Function.update_of_ne same] using busy⟩
  · refine .inr ⟨child, ?_⟩
    rw [spawned.pc, Function.update_self]
    rfl

omit [DecidableEq Tid] in
theorem guarded_of_threadId (has : ∃ t, (c.pc t).threadId = some 1) : Guarded c := by
  cases drain : c.shared.drainSignal with
  | false => exact .inr (.inl ⟨drain, has⟩)
  | true => exact .inr (.inr ⟨drain, .inr (has.imp fun t => serving_of_threadId)⟩)

theorem guarded_step (roles : Roles c) (closing : Closing c) (guarded : Guarded c)
    (minimum : c.shared.config.minThreads ≠ 0) (fired : step c (t, a) = some c')
    (attended : Attended c (t, a) c') : Guarded c' := by
  rcases step_cases fired with ⟨g, l, moved, rfl⟩ | ⟨k, child, spawned⟩
  · rcases guarded with ⟨first, gone, none⟩ | ⟨calm, u, guardian⟩ | ⟨drain, rest⟩
    · rcases move_numbered moved (none t) with ⟨still, number, same⟩ | taken
      · exact .inl ⟨number.trans first, same.trans gone,
          (Function.forall_update_iff _ fun _ (l : Loc Ptr) => l.numbered = false).mpr
            ⟨still, fun u _ => none u⟩⟩
      · exact guarded_of_threadId ⟨t, by simpa [first] using taken⟩
    · have positive : 1 ≤ c.shared.config.minThreads.toNat :=
        Nat.one_le_iff_ne_zero.mpr fun zero => minimum (UInt64.toNat_inj.mp zero)
      have still : ∃ u, (Function.update c.pc t l u).threadId = some 1 :=
        exists_update (fun l : Loc Ptr => l.threadId = some 1)
          (fun own => move_threadId moved own positive calm)
          ⟨u, guardian⟩
      exact guarded_of_threadId still
    · refine .inr (.inr ⟨move_drained moved drain, ?_⟩)
      rcases rest with empty | ⟨u, serves⟩
      · rcases move_queue moved empty with empty | calls
        · exact .inl empty
        · cases (closing.calls (roles.drained drain).1 t).symm.trans calls
      · by_cases same : u = t
        · subst same
          rcases move_serving moved serves with stays | ⟨rfl, quits⟩
          · exact .inr ⟨u, by simpa using stays⟩
          · apply (attended.2.2 quits drain).imp_right
            rintro ⟨v, other, serves⟩
            exact ⟨v, by simpa [Function.update_of_ne other] using serves⟩
        · exact .inr ⟨u, by simpa [Function.update_of_ne same] using serves⟩
  · rcases guarded with ⟨first, gone, none⟩ | ⟨calm, u, guardian⟩ | ⟨drain, -⟩
    · refine .inl ⟨by rw [spawned.shared, first], by rw [spawned.shared, gone], ?_⟩
      exact spawned.all (fun l => l.numbered = false) rfl (resume_numbered ..) none
    · refine guarded_of_threadId ⟨u, ?_⟩
      rcases spawned.cases u with ⟨-, rfl⟩ | ⟨-, rfl⟩ | ⟨other, -, -⟩
      · cases (congrArg Loc.threadId spawned.absent).symm.trans guardian
      · cases (congrArg Loc.threadId spawned.point).symm.trans guardian
      · rw [other]
        exact guardian
    · refine .inr (.inr ⟨spawned.shared ▸ drain, .inr ⟨child, ?_⟩⟩)
      rw [spawned.pc, Function.update_self]
      rfl

variable [Fintype Tid]

theorem engaged_of_step (counted : Counted c) (manned : Manned c) (fired : step c (t, a) = some c')
    (succeeds : a = .fail → (c.pc t).starting = false)
    (reached : 0 < c'.shared.threadsCreated ∨ c'.shared.accepted ≠ [] ∨
      ∃ u, (c'.pc u).pushing = true) : Engaged c' := by
  have keep := fun engaged => engaged_step counted.destroyed engaged fired succeeds
  rcases step_cases fired with ⟨g, l, moved, rfl⟩ | ⟨k, child, spawned⟩
  · by_cases before : 0 < c.shared.threadsCreated
    · exact keep (manned.engaged (.inl before))
    have created := counted.created
    have destroyed := counted.destroyed
    have none : count (fun l => l.starting) c.pc = 0 := by omega
    rcases reached with some | accepted | ⟨u, pushes⟩
    · exact .inr ⟨t, by simpa using move_first moved (by omega) some⟩
    · rcases move_accepted moved with same | pushing
      · exact keep (manned.engaged (.inr (.inl (same ▸ accepted))))
      · exact keep (manned.engaged (.inr (.inr ⟨t, pushing⟩)))
    · by_cases same : u = t
      · subst same
        rcases move_pushing moved (by simpa using pushes) with idle | starting
        · have idleActive := count_mono (fun l : Loc Ptr => active_of_idle (l := l)) c.pc
          have activeAlive := count_mono (fun l : Loc Ptr => alive_of_active (l := l)) c.pc
          have counts := counted.idle
          omega
        · exact absurd starting (count_eq_zero.mp none u)
      · simp only [Function.update_of_ne same] at pushes
        exact keep (manned.engaged (.inr (.inr ⟨u, pushes⟩)))
  · refine .inr ⟨child, ?_⟩
    rw [spawned.pc, Function.update_self]
    rfl

theorem manned_step (roles : Roles c) (closing : Closing c) (counted : Counted c)
    (manned : Manned c) (fired : step c (t, a) = some c') (attended : Attended c (t, a) c') :
    Manned c' := by
  refine ⟨?_, engaged_of_step counted manned fired attended.2.1,
    guarded_step roles closing manned.guarded manned.minimum fired attended⟩
  rcases step_cases fired with ⟨g, l, moved, rfl⟩ | ⟨k, child, spawned⟩
  · exact move_minThreads moved manned.minimum
  · rw [spawned.shared]
    exact manned.minimum

theorem withDefaults_minThreads (config : PoolConfig Ptr) :
    config.withDefaults.minThreads ≠ 0 := by
  unfold PoolConfig.withDefaults
  simp only
  split_ifs with zero
  · simp
  · exact zero

variable {config : PoolConfig Ptr} {main : Tid} {pc : Tid → Loc Ptr}
  {actions : List (Tid × Act Tid Ptr)}

omit [DecidableEq Tid] [Fintype Tid] in
theorem closing_start (config : PoolConfig Ptr) (starting : Starting main pc) :
    Closing (start config pc) :=
  ⟨fun _ => starting.all (·.calling = false) rfl rfl rfl,
    starting.all (·.aborting = false) rfl rfl rfl⟩

omit [DecidableEq Tid] [Fintype Tid] in
theorem manned_start (config : PoolConfig Ptr) (starting : Starting main pc) :
    Manned (start config pc) := by
  refine ⟨withDefaults_minThreads config, fun reached => ?_,
    .inl ⟨rfl, rfl, starting.all (·.numbered = false) rfl rfl rfl⟩⟩
  rcases reached with some | accepted | ⟨t, pushes⟩
  · cases some
  · cases accepted rfl
  · cases (starting.all (·.pushing = false) rfl rfl rfl t).symm.trans pushes

structure Sound (c : Config Tid (Pool Ptr) (Loc Ptr)) : Prop where
  roles : Roles c
  counted : Counted c
  draining : Draining c
  accounted : Accounted c
  closing : Closing c
  manned : Manned c

theorem sound_step (c : Config Tid (Pool Ptr) (Loc Ptr)) (act : Tid × Act Tid Ptr)
    (c' : Config Tid (Pool Ptr) (Loc Ptr)) (sound : Sound c) (fired : step c act = some c')
    (attended : Attended c act c') : Sound c' where
  roles := roles_step c act c' sound.roles fired
  counted := counted_step c act c' sound.counted fired
  draining := draining_step act sound.roles sound.draining fired
    (patient_of_closing sound.roles (sound.draining.waiting act.1) sound.closing)
  accounted := accounted_step c act c' sound.accounted fired
  closing := closing_step sound.roles sound.closing fired attended
  manned := manned_step sound.roles sound.closing sound.counted sound.manned fired attended

omit [DecidableEq Tid] in
/-- Nobody works for the pool, so every accepted task was run and is answered or is queued. -/
theorem Sound.idle (sound : Sound c) (idle : ∀ t, (c.pc t).working = false) :
    (c.shared.accepted : Multiset (Task Ptr)) = c.shared.placed ∧
    c.shared.due = c.shared.stored := by
  have dead (t : Tid) : (c.pc t).alive = false := by
    have idle := idle t
    simp only [Loc.working, Bool.or_eq_false_iff] at idle
    exact idle.1.1
  have hands := tally_eq_zero Loc.hands c.pc fun t => hands_of_dead (dead t)
  have results := tally_eq_zero Loc.results c.pc fun t => results_of_dead (dead t)
  have tasks := sound.accounted.tasks
  have due := sound.accounted.results
  rw [hands, add_zero] at tasks
  rw [results, add_zero] at due
  exact ⟨tasks, due⟩

omit [DecidableEq Tid] in
theorem Sound.emptied (sound : Sound c) (idle : ∀ t, (c.pc t).working = false) :
    c.shared.tasksQueue = [] := by
  have unengaged (gone : c.shared.threadsDestroyed = 0) : ¬ Engaged c := by
    rintro (left | ⟨t, busy⟩)
    · omega
    · cases (idle t).symm.trans (working_of_engaged busy)
  have unserved {t : Tid} (serves : (c.pc t).serving = true) : c.shared.tasksQueue = [] := by
    have idle := idle t
    simp only [Loc.serving, Bool.and_eq_true] at serves
    simp [Loc.working, serves.1] at idle
  rcases sound.manned.guarded with ⟨-, gone, -⟩ | ⟨-, t, guardian⟩ | ⟨-, empty | ⟨t, serves⟩⟩
  · have accepted : c.shared.accepted = [] := by
      by_contra some
      exact unengaged gone (sound.manned.engaged (.inr (.inl some)))
    have tasks := (sound.idle idle).1
    rw [accepted, Pool.placed, Multiset.coe_add] at tasks
    have none := List.nil_perm.mp (Multiset.coe_eq_coe.mp tasks)
    exact (List.append_eq_nil_iff.mp none).1
  · exact unserved (serving_of_threadId guardian)
  · exact empty
  · exact unserved serves

theorem destroyed_pool_done (starting : Starting main pc)
    (run : Run step Attended (start config pc) actions c) (returned : c.pc main = .ended) :
    c.shared.tasksQueue = [] ∧ c.shared.accepted.Nodup ∧
    (c.shared.executed.map Prod.fst).Perm c.shared.accepted ∧
    c.shared.stored.Perm (c.shared.executed.flatMap fun done => done.1.written done.2) := by
  have sound : Sound c := run.invariant Sound
    ⟨roles_start config starting, counted_start config starting, draining_start config starting,
      accounted_start config starting, closing_start config starting,
      manned_start config starting⟩ sound_step
  have idle := (sound.draining.freed (.inr ⟨main, by rw [returned]; rfl⟩)).2
  have empty := sound.emptied idle
  obtain ⟨tasks, results⟩ := sound.idle idle
  have serials := Multiset.nodup_of_le (Multiset.le_add_right ..) sound.accounted.distinct
  refine ⟨empty, List.Nodup.of_map Task.serial (Multiset.coe_nodup.mp serials), ?_, ?_⟩
  · rw [Pool.placed, empty, Multiset.coe_nil, zero_add] at tasks
    exact Multiset.coe_eq_coe.mp tasks.symm
  · exact Multiset.coe_eq_coe.mp results.symm

/-- The worker finds the queue empty, a task is pushed and the pool is told to drain, and then the
worker reads the signal. -/
theorem destroyed_pool_forgets : ¬ ∀ (actions : List (Fin 3 × Act (Fin 3) ℕ))
    (c : Config (Fin 3) (Pool ℕ) (Loc ℕ)),
    Run step (fun c act _ => (act.2 = .destroy → ∀ u, (c.pc u).calling = false) ∧ act.2 ≠ .fail)
      (start ⟨false, false, none, 0, 0, 1⟩ ![.createLoop 0, .outside, .absent]) actions c →
    c.pc 0 = .ended → c.shared.tasksQueue = [] := by
  intro sound
  have run : Run step
      (fun c act _ => (act.2 = .destroy → ∀ u, (c.pc u).calling = false) ∧ act.2 ≠ .fail)
      (start ⟨false, false, none, 0, 0, 1⟩ ![(.createLoop 0 : Loc ℕ), .outside, .absent])
      [(0, .tick), (0, .tick), (0, .tick), (0, .tick), (0, .created (2 : Fin 3)), (0, .tick),
        (2, .tick), (2, .tick), (2, .clock 1), (2, .tick), (2, .tick), (1, .run (some 7) 5 none),
        (1, .tick), (1, .tick), (1, .tick), (1, .tick), (0, .destroy), (0, .tick), (2, .tick),
        (2, .tick), (2, .tick), (2, .tick), (2, .tick), (0, .tick), (0, .tick), (0, .tick)] _ :=
    run_of_runs
      (fun c act _ => decide ((act.2 = .destroy → ∀ u, (c.pc u).calling = false) ∧ act.2 ≠ .fail))
      (fun _ _ _ checked => of_decide_eq_true checked) rfl (by decide)
  cases sound _ _ run rfl

/-- The worker sees the task that was pushed while it was about to test the signal. -/
theorem destroyed_pool_done_sample : ∃ c : Config (Fin 3) (Pool ℕ) (Loc ℕ),
    c.shared.accepted = [⟨0, 7, 5, some 3⟩] ∧ c.shared.stored = [(3, 9)] ∧
      c.shared.tasksQueue = [] := by
  have starting : Starting (0 : Fin 3) ![(.createLoop 0 : Loc ℕ), .outside, .absent] :=
    ⟨rfl, by decide⟩
  have run : Run step Attended
      (start ⟨false, false, none, 0, 0, 1⟩ ![(.createLoop 0 : Loc ℕ), .outside, .absent])
      [(0, .tick), (0, .tick), (0, .tick), (0, .tick), (0, .created 2), (0, .tick),
        (2, .tick), (2, .tick), (2, .clock 1), (2, .tick), (2, .tick),
        (1, .run (some 7) 5 (some 3)),
        (1, .tick), (1, .tick), (1, .tick), (1, .tick), (2, .tick), (2, .tick), (2, .clock 2),
        (2, .tick), (0, .destroy), (0, .tick), (2, .clock 3), (2, .result 9), (2, .tick),
        (2, .clock 4), (2, .tick), (2, .tick), (2, .tick), (2, .tick), (2, .tick), (2, .tick),
        (2, .tick), (0, .tick), (0, .tick), (0, .tick)] _ :=
    run_of_runs (fun c act c' => decide (Attended c act c'))
      (fun _ _ _ checked => of_decide_eq_true checked) rfl (by decide)
  exact ⟨_, rfl, rfl, (destroyed_pool_done starting run rfl).1⟩

end Runs

end Libam.ThreadPool
