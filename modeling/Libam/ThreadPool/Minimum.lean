import Libam.ThreadPool.Admission
import Libam.ThreadPool.Drained
import Mathlib.Order.Interval.Finset.Nat

/-! Whether `min_threads` workers stay in the pool: a worker may leave if its number, not the number
of the workers that are left, is above `min_threads`. -/

namespace Libam.ThreadPool

open Libam.Interleaving

variable {Ptr : Type}

def Loc.beginning : Loc Ptr → Bool
  | .begin => true
  | _ => false

/-- The threads that a call of `lam_thread_pool_create` or `lam_thread_pool_set_min_thread_count`
counts on, when it has not failed. -/
def Caller.quota : Caller Ptr → ℤ
  | .create i => i
  | .setMin active _ .success => active
  | _ => 0

def Loc.quota : Loc Ptr → ℤ
  | .createLoop i => i
  | .raise active _ .success => active
  | l => (l.caller.map Caller.quota).getD 0

/-- On a way that is only taken in a pool that is limited, drained or fails to create threads. -/
def Loc.amiss : Loc Ptr → Bool
  | .rollback _ => true
  | .createDrain => true
  | .destroyDrain => true
  | _ => false

section Conditions

variable {Tid : Type}

/-- The pool is not destroyed, and no `pthread_create` fails. -/
def Plain (c : Config Tid (Pool Ptr) (Loc Ptr)) (act : Tid × Act Tid Ptr)
    (_ : Config Tid (Pool Ptr) (Loc Ptr)) : Prop :=
  act.2 ≠ .destroy ∧ (act.2 = .fail → ∀ k, c.pc act.1 ≠ .spawn k)

def Settled (c : Config Tid (Pool Ptr) (Loc Ptr)) (act : Tid × Act Tid Ptr)
    (c' : Config Tid (Pool Ptr) (Loc Ptr)) : Prop :=
  Plain c act c' ∧ ∀ value, value ≠ 0 → act.2 ≠ .setMin value

/-- When the minimum is set, every worker with a number up to it that was started is
still in its loop. -/
def Unbroken (c : Config Tid (Pool Ptr) (Loc Ptr)) (act : Tid × Act Tid Ptr)
    (c' : Config Tid (Pool Ptr) (Loc Ptr)) : Prop :=
  Plain c act c' ∧ ∀ value, value ≠ 0 → act.2 = .setMin value → ∀ threadId, 0 < threadId →
    threadId ≤ value.toNat → threadId < c.shared.runningId → ∃ t, (c.pc t).threadId = some threadId

/-- `lam_thread_pool_create` returns, or `lam_thread_pool_set_min_thread_count` with AMRC_SUCCESS
while its value is the minimum. -/
def Returns (c : Config Tid (Pool Ptr) (Loc Ptr)) (act : Tid × Act Tid Ptr)
    (c' : Config Tid (Pool Ptr) (Loc Ptr)) : Prop :=
  (∃ i, c.pc act.1 = .createLoop i ∧ c'.pc act.1 = .owner) ∨
  ∃ active value, c.pc act.1 = .raise active value .success ∧ c'.pc act.1 = .outside ∧
    c'.shared.config.minThreads = value

end Conditions

@[simp ↓] theorem resume_beginning (k : Caller Ptr) (ret : Amrc) :
    (k.resume ret).beginning = false := by
  cases k <;> cases ret <;> rfl

theorem resume_success_quota (k : Caller Ptr) :
    (k.resume .success).quota ≤ max (k.quota + 1) 0 := by
  cases k with
  | setMin active value ret =>
      cases ret <;> simp [Caller.resume, Loc.quota, Caller.quota, Loc.caller]
  | _ => simp [Caller.resume, Loc.quota, Caller.quota, Loc.caller]

theorem resume_error_quota (k : Caller Ptr) : (k.resume .error).quota = 0 := by
  cases k <;> rfl

@[simp ↓] theorem resume_success_amiss (k : Caller Ptr) : (k.resume .success).amiss = false := by
  cases k <;> rfl

theorem numbered_of_threadId {l : Loc Ptr} {threadId : ℕ} (has : l.threadId = some threadId) :
    l.numbered = true := by
  cases l <;> first | rfl | cases has

theorem numbered_of_active {l : Loc Ptr} (counted : l.active = true) : l.numbered = true := by
  cases l <;> first | rfl | cases counted

section Moves

variable {Tid : Type} {g g' : Pool Ptr} {l l' : Loc Ptr} {a : Act Tid Ptr}

theorem full_unlimited (unlimited : g.config.maxThreads = 0) (created : ℤ) :
    g.full created = false := by
  simp [Pool.full, unlimited]

theorem move_config (moved : Move g l a g' l')
    (unchanged : ∀ value, value ≠ 0 → a ≠ .setMin value) : g'.config = g.config := by
  cases moved with
  | setMinLazy value positive => exact absurd rfl (unchanged value positive)
  | setMin value positive => exact absurd rfl (unchanged value positive)
  | _ => rfl

theorem move_setMin {value : UInt64} (moved : Move g l (.setMin value : Act Tid Ptr) g' l')
    (nonzero : value ≠ 0) :
    l.threadId = none ∧ g'.runningId = g.runningId ∧ g'.config.minThreads = value := by
  cases moved with
  | setMinZero _ zero => exact absurd zero nonzero
  | setMinLazy => exact ⟨rfl, rfl, rfl⟩
  | setMin => exact ⟨rfl, rfl, rfl⟩

theorem move_lazyStart (moved : Move g l a g' l') : g'.config.lazyStart = g.config.lazyStart := by
  cases moved <;> rfl

/-- Nothing goes amiss in a pool without a limit while nobody drains it and
`pthread_create` succeeds. -/
theorem move_amiss (moved : Move g l a g' l') (unlimited : g.config.maxThreads = 0)
    (calm : g.drainSignal = false) (kept : a ≠ .destroy) (succeeds : a = .fail → ∀ k, l ≠ .spawn k)
    (before : l.amiss = false) : l'.amiss = false ∧ g'.drainSignal = false := by
  cases moved with
  | startDrained k drain => cases calm.symm.trans drain
  | refuse k created full => cases (full_unlimited unlimited created).symm.trans full
  | spawnFailed k => exact absurd rfl (succeeds rfl k)
  | rollback k => cases before
  | createDrain => cases before
  | destroyDrain => cases before
  | destroy => exact absurd rfl kept
  | _ => exact ⟨rfl, calm⟩

theorem next_createDone {i : ℕ} (fired : next g (.createLoop i) a = some (g', .owner))
    (eager : g.config.lazyStart = false) :
    g'.config = g.config ∧ g.config.minThreads.toNat ≤ i := by
  cases a with
  | tick =>
      simp only [next] at fired
      split at fired
      · cases fired
      · rename_i stops
        cases fired
        exact ⟨rfl, by simpa [eager] using stops⟩
  | _ => cases fired

theorem next_raised {active : ℤ} {value : UInt64} {ret : Amrc}
    (fired : next g (.raise active value ret) a = some (g', .outside)) : value.toNat ≤ active := by
  cases a with
  | tick =>
      simp only [next] at fired
      split at fired
      · cases fired
      · omega
  | _ => cases fired

theorem move_runningId (moved : Move g l a g' l') :
    (g'.runningId = g.runningId ∧ l'.beginning = l.beginning) ∨
    (g'.runningId = g.runningId + 1 ∧ l = .begin ∧ l' = .countActive g.runningId) := by
  cases moved with
  | begin => exact .inr ⟨rfl, rfl, rfl⟩
  | startDrained k | spawnFailed k | rollback k =>
      refine .inl ⟨rfl, ?_⟩
      rw [resume_beginning]
      rfl
  | _ => exact .inl ⟨rfl, rfl⟩

theorem move_started (moved : Move g l a g' l') :
    g.runningId + (if l'.numbered then 1 else 0) ≤
      g'.runningId + (if l.numbered then 1 else 0) := by
  cases moved <;> simp [Loc.numbered, Loc.alive]

/-- A call counts on no more threads than before, except for those that it finds active. -/
theorem move_quota (moved : Move g l a g' l') (before : l.amiss = false) :
    l'.quota ≤ max l.quota (max g.activeThreadCount 0) := by
  cases moved with
  | startDrained k drain =>
      rw [resume_error_quota]
      omega
  | spawnFailed k =>
      rw [resume_error_quota]
      omega
  | rollback k => cases before
  | survey value => simp [Loc.quota]
  | raise active value ret => cases ret <;> simp [Loc.quota, Loc.caller, Caller.quota]
  | _ => simp [Loc.quota, Loc.caller, Caller.quota]

end Moves

section Runs

variable {Tid : Type} [Fintype Tid]

/-- The threads that were created: those that have taken a number and those that are about to. -/
def startedTotal (c : Config Tid (Pool Ptr) (Loc Ptr)) : ℤ :=
  c.shared.runningId - 1 + count (fun l => l.beginning) c.pc

/-- No worker with a number up to the minimum has left its loop, and no call counts on threads that
were not created. -/
structure Sized (c : Config Tid (Pool Ptr) (Loc Ptr)) : Prop where
  counted : Counted c
  eager : c.shared.config.lazyStart = false
  unlimited : c.shared.config.maxThreads = 0
  calm : c.shared.drainSignal = false
  amiss : ∀ t, (c.pc t).amiss = false
  started : count (fun l => l.numbered) c.pc + 1 ≤ c.shared.runningId
  quota : ∀ t, (c.pc t).quota ≤ startedTotal c
  unbroken : ∀ threadId, 0 < threadId → threadId ≤ c.shared.config.minThreads.toNat →
    threadId < c.shared.runningId → ∃ t, (c.pc t).threadId = some threadId

variable {c c' : Config Tid (Pool Ptr) (Loc Ptr)} {t : Tid} {a : Act Tid Ptr}

theorem Sized.total_nonneg (sized : Sized c) : 0 ≤ startedTotal c := by
  have started := sized.started
  simp only [startedTotal]
  omega

theorem Sized.active (sized : Sized c) : c.shared.activeThreadCount ≤ startedTotal c := by
  have started := sized.started
  have counted := sized.counted.active
  have fewer := count_mono (fun l : Loc Ptr => numbered_of_active (l := l)) c.pc
  simp only [startedTotal]
  omega

theorem Sized.numbered (sized : Sized c) :
    min c.shared.config.minThreads.toNat (c.shared.runningId - 1) ≤
      count (fun l => l.numbered) c.pc := by
  have covers : Set.SurjOn (fun t => (c.pc t).threadId.getD 0)
      (Finset.univ.filter fun t => (c.pc t).numbered = true)
      (Finset.Icc 1 (min c.shared.config.minThreads.toNat (c.shared.runningId - 1))) := by
    intro threadId inside
    have bounds := Finset.mem_Icc.mp (Finset.mem_coe.mp inside)
    obtain ⟨t, has⟩ := sized.unbroken threadId (by omega) (by omega) (by omega)
    exact ⟨t, by simpa using numbered_of_threadId has, by simp [has]⟩
  have few := Finset.card_le_card_of_surjOn _ covers
  rwa [Nat.card_Icc, Nat.add_sub_cancel] at few

theorem count_alive (c : Config Tid (Pool Ptr) (Loc Ptr)) : count (fun l => l.alive) c.pc =
    count (fun l => l.beginning) c.pc + count (fun l => l.numbered) c.pc := by
  rw [count_eq_tally, count_eq_tally, count_eq_tally, tally, tally, tally, ← Finset.sum_add_distrib]
  refine Finset.sum_congr rfl fun t _ => ?_
  cases c.pc t <;> rfl

theorem Sized.alive (sized : Sized c) (enough : c.shared.config.minThreads.toNat ≤ startedTotal c) :
    c.shared.config.minThreads.toNat ≤ count (fun l => l.alive) c.pc := by
  have numbered := sized.numbered
  have started := sized.started
  have alive := count_alive c
  simp only [startedTotal] at enough
  omega

variable [DecidableEq Tid]

theorem Sized.move_unbroken {g : Pool Ptr} {l : Loc Ptr} (sized : Sized c)
    (moved : Move c.shared (c.pc t) a g l) (kept : Unbroken c (t, a) ⟨g, Function.update c.pc t l⟩)
    (threadId : ℕ) (positive : 0 < threadId) (within : threadId ≤ g.config.minThreads.toNat)
    (taken : threadId < g.runningId) :
    ∃ u, (Function.update c.pc t l u).threadId = some threadId := by
  have still (stays : (c.pc t).threadId = some threadId → l.threadId = some threadId)
      (there : ∃ u, (c.pc u).threadId = some threadId) : ∃ u,
      (Function.update c.pc t l u).threadId = some threadId :=
    exists_update (fun l : Loc Ptr => l.threadId = some threadId) stays there
  by_cases setting : ∃ value, value ≠ 0 ∧ a = .setMin value
  · -- The minimum changes, and the thread that sets it is no worker.
    obtain ⟨value, nonzero, rfl⟩ := setting
    obtain ⟨outside, same, set⟩ := move_setMin moved nonzero
    rw [set] at within
    rw [same] at taken
    refine still (fun has => ?_) (kept.2 value nonzero rfl threadId positive within taken)
    cases outside.symm.trans has
  · rw [move_config moved fun value nonzero isSet => setting ⟨value, nonzero, isSet⟩] at within
    have keeps (has : (c.pc t).threadId = some threadId) : l.threadId = some threadId :=
      move_threadId moved has within sized.calm
    rcases move_runningId moved with ⟨same, -⟩ | ⟨next, -, point'⟩
    · rw [same] at taken
      exact still keeps (sized.unbroken threadId positive within taken)
    · by_cases last : threadId = c.shared.runningId
      · exact ⟨t, by rw [Function.update_self, point', last]; rfl⟩
      · exact still keeps (sized.unbroken threadId positive within (by omega))

theorem move_startedTotal {g : Pool Ptr} {l : Loc Ptr} (moved : Move c.shared (c.pc t) a g l) :
    startedTotal ⟨g, Function.update c.pc t l⟩ = startedTotal c := by
  have change := count_update (fun l : Loc Ptr => l.beginning) c.pc t l
  simp only [startedTotal]
  rcases move_runningId moved with ⟨same, begins⟩ | ⟨next, point, point'⟩
  · rw [begins] at change
    omega
  · subst point'
    rw [point, if_pos (show Loc.begin.beginning = true from rfl),
      if_neg (show ¬ (Loc.countActive c.shared.runningId).beginning = true from Bool.false_ne_true)]
      at change
    omega

theorem Sized.move {g : Pool Ptr} {l : Loc Ptr} (sized : Sized c)
    (moved : Move c.shared (c.pc t) a g l) (counted : Counted ⟨g, Function.update c.pc t l⟩)
    (kept : Unbroken c (t, a) ⟨g, Function.update c.pc t l⟩) :
    Sized ⟨g, Function.update c.pc t l⟩ ∧
    startedTotal ⟨g, Function.update c.pc t l⟩ = startedTotal c := by
  obtain ⟨amiss, calm⟩ := move_amiss moved sized.unlimited sized.calm kept.1.1 kept.1.2
    (sized.amiss t)
  have total := move_startedTotal moved
  refine ⟨⟨counted, (move_lazyStart moved).trans sized.eager,
    (move_maxThreads moved).trans sized.unlimited, calm,
    ?_, ?_, ?_, sized.move_unbroken moved kept⟩, total⟩
  · exact (Function.forall_update_iff c.pc fun _ l => l.amiss = false).mpr
      ⟨amiss, fun u _ => sized.amiss u⟩
  · have change := count_update (fun l : Loc Ptr => l.numbered) c.pc t l
    have taken := move_started moved
    have started := sized.started
    simp only
    split_ifs at change taken <;> omega
  · rw [total]
    have own : l.quota ≤ startedTotal c :=
      (move_quota moved (sized.amiss t)).trans
        (max_le (sized.quota t) (max_le sized.active sized.total_nonneg))
    exact (Function.forall_update_iff c.pc fun _ l => l.quota ≤ startedTotal c).mpr
      ⟨own, fun u _ => sized.quota u⟩

/-- A thread is created: the call counts on one more, and there is one more. -/
theorem Sized.spawned {k : Caller Ptr} {child : Tid} (sized : Sized c)
    (spawned : Spawned c t k child c') (counted : Counted c') :
    Sized c' ∧ startedTotal c' = startedTotal c + 1 := by
  have same := spawned.shared
  have begins : count (fun l => l.beginning) c'.pc = count (fun l => l.beginning) c.pc + 1 :=
    count_spawn (·.beginning) spawned (resume_beginning ..) rfl
  have numbered : count (fun l => l.numbered) c'.pc = count (fun l => l.numbered) c.pc :=
    count_spawn (·.numbered) spawned (resume_numbered ..) rfl
  have total : startedTotal c' = startedTotal c + 1 := by
    simp only [startedTotal, same, begins]
    omega
  have nonneg := sized.total_nonneg
  refine ⟨⟨counted, same ▸ sized.eager, same ▸ sized.unlimited, same ▸ sized.calm, ?_, ?_, ?_, ?_⟩,
    total⟩
  · exact spawned.all (fun l => l.amiss = false) rfl (resume_success_amiss k) sized.amiss
  · rw [numbered, same]
    exact sized.started
  · rw [total]
    refine spawned.all (fun l => (l.quota : ℤ) ≤ _) ?_ ?_ fun u => ?_
    · simp only [Loc.quota, Loc.caller, Option.map_none, Option.getD_none]
      omega
    · have before := sized.quota t
      rw [spawned.point] at before
      refine (resume_success_quota k).trans (max_le ?_ (by omega))
      simpa [Loc.quota, Loc.caller] using before
    · have before := sized.quota u
      omega
  · rw [same]
    intro threadId positive within taken
    obtain ⟨u, has⟩ := sized.unbroken threadId positive within taken
    rcases spawned.cases u with ⟨-, born⟩ | ⟨-, parent⟩ | ⟨other, -, -⟩
    · rw [born, spawned.absent] at has
      cases has
    · rw [parent, spawned.point] at has
      cases has
    · exact ⟨u, by rw [other]; exact has⟩

theorem sized_step (sized : Sized c) (fired : step c (t, a) = some c')
    (kept : Unbroken c (t, a) c') : Sized c' ∧ startedTotal c ≤ startedTotal c' := by
  have counted := counted_step c (t, a) c' sized.counted fired
  rcases step_cases fired with ⟨g, l, moved, rfl⟩ | ⟨k, child, spawned⟩
  · obtain ⟨sized', total⟩ := sized.move moved counted kept
    exact ⟨sized', total.ge⟩
  · obtain ⟨sized', total⟩ := sized.spawned spawned counted
    exact ⟨sized', by omega⟩

variable {config : PoolConfig Ptr} {main : Tid} {pc : Tid → Loc Ptr}
  {prior rest : List (Tid × Act Tid Ptr)} {c₁ c₂ c₃ : Config Tid (Pool Ptr) (Loc Ptr)}
  {act : Tid × Act Tid Ptr}

omit [DecidableEq Tid] in
theorem sized_start (starting : Starting main pc) (eager : config.lazyStart = false)
    (unlimited : config.maxThreads = 0) : Sized (start config pc) := by
  have none (p : Loc Ptr → Bool) := starting.count_eq_zero p
  have total : startedTotal (start config pc) = 0 := by
    simp only [startedTotal, start]
    rw [none _ rfl rfl rfl]
    rfl
  refine ⟨counted_start config starting, eager, ?_, rfl, ?_, ?_, fun t => ?_, ?_⟩
  · simp [start, PoolConfig.withDefaults, unlimited]
  · exact starting.all (fun l => l.amiss = false) rfl rfl rfl
  · simp only [start]
    rw [none _ rfl rfl rfl]
  · rw [total]
    exact starting.all (fun l => l.quota ≤ 0) le_rfl le_rfl le_rfl t
  · intro threadId positive _ taken
    simp only [start] at taken
    omega

omit [Fintype Tid] in
theorem step_next (point : ∀ k, c.pc t ≠ .spawn k) : step c (t, a) = c.step next (t, a) := by
  unfold step
  split
  · rename_i k _ spawns
    exact absurd spawns (point k)
  · rfl

omit [Fintype Tid] in
theorem Returns.tick (returns : Returns c₁ act c₂) (fired : step c₁ act = some c₂) :
    act.2 = .tick := by
  obtain ⟨t, a⟩ := act
  rcases returns with ⟨i, point, -⟩ | ⟨active, value, point, -, -⟩
  all_goals
    rw [step_next fun k spawns => by cases spawns.symm.trans point] at fired
    obtain ⟨g, l, accessed, -⟩ := Config.step_eq_some.mp fired
    rw [show c₁.pc t = _ from point] at accessed
    cases a with
    | tick => rfl
    | _ => cases accessed

theorem Sized.returns (sized : Sized c₁) (fired : step c₁ act = some c₂)
    (returns : Returns c₁ act c₂) : c₂.shared.config.minThreads.toNat ≤ startedTotal c₁ := by
  obtain ⟨t, a⟩ := act
  have quota := sized.quota t
  rcases returns with ⟨i, point, left⟩ | ⟨active, value, point, left, current⟩
  · rw [show c₁.pc t = .createLoop i from point] at quota
    rw [step_next fun k spawns => by cases spawns.symm.trans point] at fired
    obtain ⟨g, l, accessed, rfl⟩ := Config.step_eq_some.mp fired
    obtain rfl : l = .owner := by simpa using left
    obtain ⟨same, enough⟩ := next_createDone (point ▸ accessed) sized.eager
    have bound : (c₁.shared.config.minThreads.toNat : ℤ) ≤ i := Int.ofNat_le.mpr enough
    simp only [same]
    exact bound.trans quota
  · rw [show c₁.pc t = .raise active value .success from point] at quota
    rw [step_next fun k spawns => by cases spawns.symm.trans point] at fired
    obtain ⟨g, l, accessed, rfl⟩ := Config.step_eq_some.mp fired
    obtain rfl : l = .outside := by simpa using left
    have enough := next_raised (point ▸ accessed)
    rw [current]
    exact enough.trans quota

/-- The lifetime of a pool that starts its threads at once and has no limit, while every
`pthread_create` succeeds: after `lam_thread_pool_create` or a call of
`lam_thread_pool_set_min_thread_count` has returned, and until the minimum is changed or the pool
destroyed, at least `min_threads` workers are alive, if whenever the minimum was set no worker with
a number up to it had left its loop. -/
theorem min_threads_alive (starting : Starting main pc) (eager : config.lazyStart = false)
    (unlimited : config.maxThreads = 0) (before : Run step Unbroken (start config pc) prior c₁)
    (fired : step c₁ act = some c₂) (returns : Returns c₁ act c₂)
    (later : Run step Settled c₂ rest c₃) :
    c₃.shared.config.minThreads.toNat ≤ count (fun l => l.alive) c₃.pc := by
  have sized₁ : Sized c₁ := before.invariant Sized (sized_start starting eager unlimited)
    fun c act c' sized fired kept => (sized_step sized fired kept).1
  have unbroken : Unbroken c₁ act c₂ := by
    rw [Unbroken, Plain, returns.tick fired]
    exact ⟨⟨nofun, nofun⟩, nofun⟩
  obtain ⟨sized₂, more⟩ := sized_step sized₁ fired unbroken
  have enough₂ := (sized₁.returns fired returns).trans more
  obtain ⟨sized₃, enough₃⟩ : Sized c₃ ∧ c₃.shared.config.minThreads.toNat ≤ startedTotal c₃ := by
    refine later.invariant (fun c => Sized c ∧ c.shared.config.minThreads.toNat ≤ startedTotal c)
      ⟨sized₂, enough₂⟩
      fun c act c' both fired settled => ?_
    obtain ⟨sized', more⟩ := sized_step both.1 fired
      ⟨settled.1, fun value nonzero isSet => absurd isSet (settled.2 value nonzero)⟩
    have same : c'.shared.config = c.shared.config := by
      rcases step_cases fired with ⟨g, l, moved, rfl⟩ | ⟨k, child, spawned⟩
      · exact move_config moved settled.2
      · rw [spawned.shared]
    rw [same]
    exact ⟨sized', both.2.trans more⟩
  exact sized₃.alive enough₃

end Runs

section Samples

def plain {Tid : Type} (c : Config Tid (Pool Ptr) (Loc Ptr)) (act : Tid × Act Tid Ptr) : Bool :=
  match act.2, c.pc act.1 with
  | .destroy, _ => false
  | .fail, .spawn _ => false
  | _, _ => true

def settled {Tid : Type} (c : Config Tid (Pool Ptr) (Loc Ptr)) (act : Tid × Act Tid Ptr) : Bool :=
  plain c act && match act.2 with
    | .setMin value => value = 0
    | _ => true

def unbroken {Tid : Type} [Fintype Tid] (c : Config Tid (Pool Ptr) (Loc Ptr))
    (act : Tid × Act Tid Ptr) : Bool :=
  plain c act && match act.2 with
    | .setMin value =>
        decide (∀ threadId < c.shared.runningId, 0 < threadId → threadId ≤ value.toNat →
        ∃ t, (c.pc t).threadId = some threadId)
    | _ => true

variable {Tid : Type} {c c' : Config Tid (Pool Ptr) (Loc Ptr)} {act : Tid × Act Tid Ptr}

theorem plain_sound (checked : plain c act = true) : Plain c act c' := by
  refine ⟨fun isDestroy => ?_, fun fails k point => ?_⟩
  · simp [plain, isDestroy] at checked
  · simp [plain, fails, point] at checked

theorem settled_sound (checked : settled c act = true) : Settled c act c' := by
  obtain ⟨plain, kept⟩ := Bool.and_eq_true_iff.mp checked
  refine ⟨plain_sound plain, fun value nonzero isSet => ?_⟩
  rw [isSet] at kept
  exact nonzero (of_decide_eq_true kept)

theorem unbroken_sound [Fintype Tid] (checked : unbroken c act = true) : Unbroken c act c' := by
  obtain ⟨plain, kept⟩ := Bool.and_eq_true_iff.mp checked
  refine ⟨plain_sound plain, fun value _ isSet threadId positive within taken => ?_⟩
  rw [isSet] at kept
  exact of_decide_eq_true kept threadId taken positive within

/-- One worker is kept; idle ones may leave after a time of 1. -/
def sampleEager : Config (Fin 4) (Pool ℕ) (Loc ℕ) :=
  start ⟨false, false, none, 1, 0, 1⟩ ![.createLoop 0, .outside, .absent, .absent]

def sampleCreated : List (Fin 4 × Act (Fin 4) ℕ) :=
  [(0, .tick), (0, .tick), (0, .tick), (0, .tick), (0, .created 2), (0, .tick),
    (2, .tick), (2, .tick), (2, .clock 0)]

def sampleRaised : List (Fin 4 × Act (Fin 4) ℕ) :=
  [(1, .setMin 2), (1, .tick), (1, .tick), (1, .tick), (1, .tick), (1, .tick), (1, .created 3)]

def sampleIdle : List (Fin 4 × Act (Fin 4) ℕ) :=
  [(3, .tick), (3, .tick), (3, .clock 0), (3, .tick), (3, .tick), (3, .tick), (3, .tick),
    (3, .clock 5), (3, .tick), (3, .tick), (3, .tick), (3, .tick)]

theorem sample_starting :
    Starting (0 : Fin 4) ![(.createLoop 0 : Loc ℕ), .outside, .absent, .absent] :=
  ⟨rfl, by decide⟩

/-- The second worker stays. -/
theorem min_threads_alive_sample : ∃ c : Config (Fin 4) (Pool ℕ) (Loc ℕ),
    c.pc 3 = .suspend ⟨2, 0, 5, 0⟩ ∧ 2 ≤ count (fun l => l.alive) c.pc := by
  obtain ⟨c₁, c₂, c₃, before, fired, returns, later, point, minimum⟩ : ∃ c₁ c₂ c₃,
      Run step Unbroken sampleEager (sampleCreated ++ sampleRaised) c₁ ∧
      step c₁ (1, .tick) = some c₂ ∧
      Returns c₁ (1, .tick) c₂ ∧ Run step Settled c₂ sampleIdle c₃ ∧
      c₃.pc 3 = .suspend ⟨2, 0, 5, 0⟩ ∧
      c₃.shared.config.minThreads = 2 :=
    ⟨_, _, _, run_of_runs (fun c act _ => unbroken c act) (fun _ _ _ => unbroken_sound) rfl rfl,
      rfl,
      .inr ⟨2, 2, rfl, rfl, rfl⟩, run_of_runs (fun c act _ => settled c act)
      (fun _ _ _ => settled_sound) rfl rfl,
      rfl, rfl⟩
  have alive := min_threads_alive sample_starting rfl rfl before fired returns later
  rw [minimum] at alive
  exact ⟨c₃, point, alive⟩

/-- The minimum is set back to 1 and the second worker leaves. When it is set to 2 again, the worker
that is created for it gets the number 3, and may leave too. -/
theorem min_threads_forgotten : ∃ prior c₁ c₂ rest c₃, Run step Plain sampleEager prior c₁ ∧
    step c₁ (1, .tick) = some c₂ ∧ Returns c₁ (1, .tick) c₂ ∧ Run step Settled c₂ rest c₃ ∧
    c₃.shared.config.minThreads = 2 ∧ count (fun l => l.alive) c₃.pc = 1 := by
  refine ⟨sampleCreated ++ sampleRaised ++ [(1, .tick), (1, .setMin 1), (1, .tick),
      (1, .tick)] ++ sampleIdle ++
      [(3, .tick), (3, .tick), (3, .tick), (3, .tick)] ++ sampleRaised, _, _,
    sampleIdle ++ [(3, .tick), (3, .tick), (3, .tick), (3, .tick)], _,
    run_of_runs (fun c act _ => plain c act) (fun _ _ _ => plain_sound) rfl rfl, rfl,
    .inr ⟨2, 2, rfl, rfl, rfl⟩,
    run_of_runs (fun c act _ => settled c act) (fun _ _ _ => settled_sound) rfl rfl, rfl, rfl⟩

end Samples

end Libam.ThreadPool
