import Libam.ThreadPool.Folding
import Libam.ThreadPool.Tasks

/-! What the statistics of a destroyed pool say of the tasks that it has run. -/

namespace Libam.ThreadPool

open Libam.Interleaving Libam.Stats

variable {Tid Ptr : Type}

def Loc.busyTasks : Loc Ptr → ℕ
  | .pop w => w.busyTasksProcessed
  | .noTask w => w.busyTasksProcessed
  | .gotTask w _ => w.busyTasksProcessed
  | .process w _ => w.busyTasksProcessed
  | .store w _ _ => w.busyTasksProcessed
  | .release w => w.busyTasksProcessed
  | _ => 0

def Loc.underway : Loc Ptr → Multiset (Task Ptr)
  | .process _ task => {task}
  | _ => 0

def Caller.surveyed : Caller Ptr → List ℕ
  | .run task => [task.serial]
  | _ => []

def Loc.surveyed : Loc Ptr → List ℕ
  | .push task => [task.serial]
  | .checkDrain k => k.surveyed
  | .ticket k => k.surveyed
  | .compare k _ => k.surveyed
  | .rollback k => k.surveyed
  | .spawn k => k.surveyed
  | _ => []

def Measure.perTask : Measure → Bool
  | .tasksProcessed => false
  | .busyTaskNum => false
  | _ => true

def Taken.value (m : Measure) (taken : Taken Ptr) : Option UInt64 := taken.values.lookup m

def sumOf (values : List UInt64) : ℕ := (values.map UInt64.toNat).sum

def Station.streaks (p : Station Ptr) : ℕ := sumOf (p.kept .busyTaskNum) + p.loc.busyTasks

def Station.processed (p : Station Ptr) : ℕ :=
  sumOf (p.kept .tasksProcessed) + ((if p.loc.looping then p.total else 0) + p.loc.busyTasks)

def TaskNumbers.Ordered (numbers : TaskNumbers) : Prop :=
  numbers.idleThreadCount ≤ numbers.activeThreadCount

theorem recording_of_dead {l : Loc Ptr} (dead : l.alive = false) : l.recording = false := by
  cases l <;> first | rfl | cases dead

theorem looping_of_dead {l : Loc Ptr} (dead : l.alive = false) : l.looping = false := by
  cases l <;> first | rfl | cases dead

theorem busyTasks_of_dead {l : Loc Ptr} (dead : l.alive = false) : l.busyTasks = 0 := by
  cases l <;> first | rfl | cases dead

theorem underway_of_dead {l : Loc Ptr} (dead : l.alive = false) : l.underway = 0 := by
  cases l <;> first | rfl | cases dead

theorem underway_le_hands (l : Loc Ptr) : l.underway ≤ l.hands := by
  cases l with
  | process w task => exact le_refl ({task} : Multiset (Task Ptr))
  | _ => exact Multiset.zero_le _

section Accesses

variable {s s' : Measured Ptr} {p p' : Station Ptr}

theorem sumOf_append (xs ys : List UInt64) : sumOf (xs ++ ys) = sumOf xs + sumOf ys := by
  simp [sumOf]

theorem sumOf_single {n : ℕ} (fits : n < 2 ^ 64) : sumOf [.ofNat n] = n := by
  simp only [sumOf, List.map_singleton, List.sum_singleton]
  exact UInt64.toNat_ofNat_of_lt' fits

theorem record_kept_self (p : Station Ptr) (m : Measure) (v : UInt64) :
    (p.record (m, v)).kept m = p.kept m ++ [v] :=
  Function.update_self ..

theorem record_kept_of_ne {m n : Measure} (other : m ≠ n) (p : Station Ptr) (v : UInt64) :
    (p.record (n, v)).kept m = p.kept m :=
  Function.update_of_ne other ..

theorem recordAll_kept (taken : Taken Ptr) (p : Station Ptr) (m : Measure) :
    (taken.values.foldl Station.record p).kept m = p.kept m ++ (taken.value m).toList := by
  cases m <;> first | rfl | exact (List.append_nil _).symm

theorem accounts_values {m : Measure} (perTask : m.perTask = true) (s : Measured Ptr)
    (p : Station Ptr) (a : Act Tid Ptr) :
    ((s.accounts p a).taken.filterMap (Taken.value m) : Multiset UInt64) + p.kept m =
      s.taken.filterMap (Taken.value m) + (p.accounts s a).kept m := by
  obtain ⟨loc, stage, total, stats, kept⟩ := p
  cases loc with
  | gotTask w task =>
      cases a with
      | clock now =>
          simp only [Measured.accounts, Station.accounts, recordAll_kept, List.filterMap_cons]
          cases Taken.value m ⟨task, s.numbers task.serial, now⟩ with
          | none => simp
          | some v =>
              simp only [Option.toList_some, ← Multiset.coe_add, ← Multiset.cons_coe,
                ← Multiset.singleton_add]
              simp only [Multiset.coe_nil]
              abel
      | _ => rfl
  | noTask w =>
      have other : m ≠ .busyTaskNum := by
        rintro rfl
        cases perTask
      simp only [Measured.accounts, Station.accounts]
      split
      · rw [record_kept_of_ne other]
      · rfl
  | shouldStop w =>
      have other : m ≠ .tasksProcessed := by
        rintro rfl
        cases perTask
      simp only [Measured.accounts, Station.accounts]
      split
      · rw [record_kept_of_ne other]
      · rfl
  | readDrain w =>
      simp only [Measured.accounts, Station.accounts]
      split <;> rfl
  | _ => rfl

theorem measures_values {m : Measure} (perTask : m.perTask = true)
    (measured : Measures Tid s p s' p') :
    (s'.taken.filterMap (Taken.value m) : Multiset UInt64) + s.merged m + p.kept m =
      s.taken.filterMap (Taken.value m) + s'.merged m + p'.kept m := by
  cases measured with
  | stores n seen rest point stage =>
      by_cases own : m = n
      · subst own
        simp only [Function.update_self, ← Multiset.coe_add, Multiset.coe_nil]
        abel
      · simp only [Function.update_of_ne own]
  | follows a folded surveyed moved =>
      have recorded := accounts_values perTask s p a
      simp only [(accounts_shared s p a).2.2.1]
      rw [add_right_comm, recorded, add_right_comm]
  | _ => rfl

theorem measures_tasks (measured : Measures Tid s p s' p') :
    (s'.taken.map Taken.task : Multiset (Task Ptr)) +
        (s.pool.executed.map Prod.fst : List (Task Ptr)) +
        p.loc.underway =
      s.taken.map Taken.task + (s'.pool.executed.map Prod.fst : List (Task Ptr)) +
      p'.loc.underway := by
  cases measured with
  | surveys task numbers point ordered moved =>
      rw [point]
      cases moved <;> rfl
  | unlocks point stage => rw [point]; rfl
  | resumes k point => rw [point]; cases k <;> rfl
  | begins point => rw [point]; rfl
  | follows a folded surveyed moved =>
      obtain ⟨loc, stage, total, stats, kept⟩ := p
      simp only at moved
      cases moved with
      | becomeBusy w task now idle =>
          simp only [Measured.accounts, Loc.underway, List.map_cons, ← Multiset.cons_coe,
            ← Multiset.singleton_add]
          abel
      | stayBusy w task now busy =>
          simp only [Measured.accounts, Loc.underway, List.map_cons, ← Multiset.cons_coe,
            ← Multiset.singleton_add]
          abel
      | process w task ret =>
          simp only [Measured.accounts, Loc.underway, List.map_cons, ← Multiset.cons_coe,
            ← Multiset.singleton_add]
          abel
      | drained w drain => simp only [Measured.accounts, Loc.underway, drain, if_true]
      | startDrained k drain => cases k <;> rfl
      | rollback k => cases k <;> rfl
      | spawnFailed k => cases k <;> rfl
      | notDrained w calm => simp only [Measured.accounts, Loc.underway, if_neg calm]
      | _ => rfl
  | _ => rfl

/-- Taking a task adds one to those that were taken and leaves the counts of tasks alone. -/
theorem accounts_gotTask (Tid : Type) {w : Worker} {task : Task Ptr}
    (point : p.loc = .gotTask w task) (s : Measured Ptr) (now : UInt64) :
    (s.accounts p (.clock now : Act Tid Ptr)).taken.length = s.taken.length + 1 ∧
    (s.accounts p (.clock now : Act Tid Ptr)).stopped = s.stopped ∧
    (p.accounts s (.clock now : Act Tid Ptr)).total = p.total ∧
    ∀ m, m.perTask = false → (p.accounts s (.clock now : Act Tid Ptr)).kept m = p.kept m := by
  obtain ⟨loc, stage, total, stats, kept⟩ := p
  cases point
  refine ⟨rfl, rfl, rfl, fun m counts => ?_⟩
  cases m <;> first | rfl | cases counts

theorem measures_streaks (streak : p.loc.Streak) (few : p.streaks < 2 ^ 64)
    (measured : Measures Tid s p s' p') :
    s'.taken.length + sumOf (s.merged .busyTaskNum) + p.streaks =
      s.taken.length + sumOf (s'.merged .busyTaskNum) + p'.streaks := by
  cases measured with
  | surveys task numbers point ordered moved =>
      rw [Station.streaks, point]
      cases moved <;> rfl
  | stores n seen rest point stage =>
      by_cases own : Measure.busyTaskNum = n
      · subst own
        simp only [Station.streaks, Function.update_self, sumOf_append, point]
        simp only [sumOf, List.map_nil, List.sum_nil]
        omega
      · simp only [Station.streaks, Function.update_of_ne own]
  | unlocks point stage => rw [Station.streaks, point]; rfl
  | resumes k point => rw [Station.streaks, point]; cases k <;> rfl
  | begins point => rw [Station.streaks, point]; rfl
  | follows a folded surveyed moved =>
      simp only [(accounts_shared s p a).2.2.1]
      obtain ⟨loc, stage, total, stats, kept⟩ := p
      simp only at moved streak
      cases moved with
      | becomeIdle w busy =>
          simp only [Station.streaks, Loc.busyTasks] at few
          simp only [Measured.accounts, Station.accounts, Station.streaks, if_pos busy,
            record_kept_self, sumOf_append, Loc.busyTasks]
          rw [sumOf_single (by omega)]
          omega
      | stayIdle w idle =>
          simp only [Measured.accounts, Station.accounts, Station.streaks, if_neg idle,
            Loc.busyTasks]
          omega
      | drained w drain =>
          simp only [Measured.accounts, Station.accounts, Station.streaks,
            Loc.busyTasks, if_pos drain]
      | notDrained w calm =>
          simp only [Measured.accounts, Station.accounts, Station.streaks,
            Loc.busyTasks, if_neg calm]
      | timedOut w expired =>
          have other : Measure.busyTaskNum ≠ .tasksProcessed := by decide
          simp only [Measured.accounts, Station.accounts, Station.streaks, if_pos expired,
            record_kept_of_ne other, Loc.busyTasks]
      | stays w fresh =>
          simp only [Measured.accounts, Station.accounts, Station.streaks, if_neg fresh,
            Loc.busyTasks]
      | becomeBusy w task now idle =>
          obtain ⟨more, -, -, kept'⟩ :=
            accounts_gotTask Tid (p := ⟨.gotTask w task, stage, total, stats, kept⟩) rfl s now
          simp only [Station.streaks, more, kept' .busyTaskNum rfl, Loc.busyTasks]
          omega
      | stayBusy w task now busy =>
          obtain ⟨more, -, -, kept'⟩ :=
            accounts_gotTask Tid (p := ⟨.gotTask w task, stage, total, stats, kept⟩) rfl s now
          simp only [Station.streaks, more, kept' .busyTaskNum rfl, Loc.busyTasks]
          omega
      | suspend w now =>
          have none : w.busyTasksProcessed = 0 := streak
          simp only [Measured.accounts, Station.accounts, Station.streaks, Loc.busyTasks, none]
      | startDrained k drain => cases k <;> rfl
      | rollback k => cases k <;> rfl
      | spawnFailed k => cases k <;> rfl
      | _ => rfl
  | _ => rfl

theorem measures_processed (streak : p.loc.Streak) (few : p.processed < 2 ^ 64)
    (measured : Measures Tid s p s' p') :
    s'.taken.length + (sumOf (s.merged .tasksProcessed) + s.stopped) + p.processed =
      s.taken.length + (sumOf (s'.merged .tasksProcessed) + s'.stopped) + p'.processed := by
  cases measured with
  | surveys task numbers point ordered moved =>
      rw [Station.processed, point]
      cases moved <;> rfl
  | stores n seen rest point stage =>
      by_cases own : Measure.tasksProcessed = n
      · subst own
        simp only [Station.processed, Function.update_self, sumOf_append, point]
        simp only [sumOf, List.map_nil, List.sum_nil]
        omega
      · simp only [Station.processed, Function.update_of_ne own]
  | unlocks point stage => rw [Station.processed, point]; rfl
  | resumes k point => rw [Station.processed, point]; cases k <;> rfl
  | begins point => rw [Station.processed, point]; rfl
  | follows a folded surveyed moved =>
      simp only [(accounts_shared s p a).2.2.1]
      obtain ⟨loc, stage, total, stats, kept⟩ := p
      simp only at moved streak
      cases moved with
      | becomeIdle w busy =>
          have other : Measure.tasksProcessed ≠ .busyTaskNum := by decide
          simp only [Measured.accounts, Station.accounts, Station.processed, if_pos busy,
            record_kept_of_ne other, Loc.looping, Loc.busyTasks, if_true]
          omega
      | stayIdle w idle =>
          simp only [Measured.accounts, Station.accounts, Station.processed, if_neg idle,
            Loc.looping, Loc.busyTasks]
          omega
      | drained w drain =>
          simp only [Measured.accounts, Station.accounts, Station.processed, Loc.looping,
            Loc.busyTasks, if_pos drain, if_true, Bool.false_eq_true, if_false]
          omega
      | notDrained w calm =>
          simp only [Measured.accounts, Station.accounts, Station.processed, Loc.looping,
            Loc.busyTasks, if_neg calm]
      | timedOut w expired =>
          simp only [Station.processed, Loc.looping, Loc.busyTasks, if_true] at few
          simp only [Measured.accounts, Station.accounts, Station.processed, if_pos expired,
            record_kept_self,
            sumOf_append, Loc.looping, Loc.busyTasks, if_true, if_neg Bool.false_ne_true]
          rw [sumOf_single (by omega)]
          omega
      | stays w fresh =>
          simp only [Measured.accounts, Station.accounts, Station.processed, if_neg fresh,
            Loc.looping, Loc.busyTasks]
      | becomeBusy w task now idle =>
          obtain ⟨more, stopped', total', kept'⟩ :=
            accounts_gotTask Tid (p := ⟨.gotTask w task, stage, total, stats, kept⟩) rfl s now
          simp only [Station.processed, more, stopped', total', kept' .tasksProcessed rfl,
            Loc.looping, Loc.busyTasks]
          omega
      | stayBusy w task now busy =>
          obtain ⟨more, stopped', total', kept'⟩ :=
            accounts_gotTask Tid (p := ⟨.gotTask w task, stage, total, stats, kept⟩) rfl s now
          simp only [Station.processed, more, stopped', total', kept' .tasksProcessed rfl,
            Loc.looping, Loc.busyTasks]
          omega
      | suspend w now =>
          have none : w.busyTasksProcessed = 0 := streak
          simp only [Measured.accounts, Station.accounts, Station.processed, Loc.looping,
            Loc.busyTasks, none]
      | startDrained k drain => cases k <;> rfl
      | rollback k => cases k <;> rfl
      | spawnFailed k => cases k <;> rfl
      | _ => rfl
  | _ => rfl

/-- Only `lam_thread_pool_run` sets the numbers of a task, before the task is queued. -/
theorem measures_numbers (measured : Measures Tid s p s' p') :
    (s'.numbers = s.numbers) ∨ ∃ task numbers, p.loc = .readIdle task ∧ numbers.Ordered ∧
      s'.taken = s.taken ∧
      s'.numbers = Function.update s.numbers task.serial numbers := by
  cases measured with
  | surveys task numbers point ordered moved => exact .inr ⟨task, numbers, point, ordered, rfl, rfl⟩
  | follows a folded surveyed moved => exact .inl (accounts_shared s p a).2.2.2
  | _ => exact .inl rfl

theorem measures_taken (measured : Measures Tid s p s' p') :
    s'.taken = s.taken ∨ ∃ task now, s'.taken = ⟨task, s'.numbers task.serial, now⟩ :: s.taken := by
  cases measured with
  | follows a folded surveyed moved =>
      simp only [(accounts_shared s p a).2.2.2]
      unfold Measured.accounts
      split
      · exact .inr ⟨_, _, rfl⟩
      · split <;> exact .inl rfl
      · exact .inl rfl
      · exact .inl rfl
  | _ => exact .inl rfl

theorem measures_taken_le (measured : Measures Tid s p s' p') :
    s.taken.length ≤ s'.taken.length := by
  rcases measures_taken measured with same | ⟨task, now, more⟩
  · rw [same]
  · rw [more]
    exact Nat.le_succ _

theorem measures_surveyed (measured : Measures Tid s p s' p') {serial : ℕ}
    (inside : serial ∈ p'.loc.surveyed) :
    serial ∈ p.loc.surveyed ∨ (s'.numbers serial).Ordered := by
  cases measured with
  | surveys task numbers point ordered moved =>
      have own : serial = task.serial := by
        cases moved <;> exact List.mem_singleton.mp inside
      simp only [own, Function.update_self]
      exact .inr ordered
  | unlocks point stage => cases inside
  | resumes k point =>
      rw [point]
      cases k <;> exact .inl inside
  | begins point => cases inside
  | follows a folded surveyed moved =>
      simp only at inside
      refine .inl ?_
      generalize p.loc = loc at moved folded surveyed ⊢
      cases moved with
      | noneIdle task none => exact absurd rfl (surveyed task)
      | someIdle task idle => exact absurd rfl (surveyed task)
      | startDrained k drain => cases k <;> cases inside
      | rollback k => cases k <;> exact inside
      | spawnFailed k => cases k <;> cases inside
      | _ => first | exact inside | cases inside
  | _ => exact .inl inside

theorem measures_accepted (measured : Measures Tid s p s' p') {task : Task Ptr}
    (inside : task ∈ s'.pool.accepted) : task ∈ s.pool.accepted ∨ task.serial ∈ p.loc.surveyed := by
  cases measured with
  | surveys _ numbers point ordered moved =>
      simp only at inside
      cases moved <;> exact .inl inside
  | follows a folded surveyed moved =>
      simp only at inside
      generalize p.loc = loc at moved ⊢
      cases moved with
      | push task' =>
          rcases List.mem_cons.mp inside with rfl | before
          · exact .inr (List.mem_singleton.mpr rfl)
          · exact .inl before
      | _ => exact .inl inside
  | _ => exact .inl inside

theorem move_freed {g g' : Pool Ptr} {l l' : Loc Ptr} {a : Act Tid Ptr} (moved : Move g l a g' l')
    (freed : g.freed = true) : g'.freed = true := by
  cases moved <;> first | exact freed | rfl

theorem measures_reported (measured : Measures Tid s p s' p') :
    (s'.reported = s.reported ∧ (s.pool.freed = true → s'.pool.freed = true)) ∨
    (s'.pool.freed = true ∧ ∃ created tasks, s'.reported = some ⟨created, tasks, s'.stats⟩) := by
  cases measured with
  | surveys task numbers point ordered moved => exact .inl ⟨rfl, move_freed moved⟩
  | follows a folded surveyed moved =>
      simp only [(accounts_shared s p a).1]
      have kept := move_freed moved
      unfold Measured.accounts
      split
      · exact .inl ⟨rfl, kept⟩
      · split <;> exact .inl ⟨rfl, kept⟩
      · rename_i point
        rw [point] at moved
        cases moved
        exact .inr ⟨rfl, _, _, rfl⟩
      · exact .inl ⟨rfl, kept⟩
  | _ => exact .inl ⟨rfl, id⟩

end Accesses

section Runs

variable [Fintype Tid] {c c' : Config Tid (Measured Ptr) (Station Ptr)}

/-- Each value is with the pool or with one worker, and each task is in them once. -/
structure Tallied (c : Config Tid (Measured Ptr) (Station Ptr)) : Prop where
  values : ∀ m, m.perTask = true → (c.shared.taken.filterMap (Taken.value m) : Multiset UInt64) =
    c.shared.merged m + tally (fun p => (p.kept m : Multiset UInt64)) c.pc
  tasks : (c.shared.taken.map Taken.task : Multiset (Task Ptr)) =
    (c.shared.pool.executed.map Prod.fst : List (Task Ptr)) + tally (fun p => p.loc.underway) c.pc
  streaks : c.shared.taken.length < 2 ^ 64 →
    c.shared.taken.length = sumOf (c.shared.merged .busyTaskNum) + tally Station.streaks c.pc
  processed : c.shared.taken.length < 2 ^ 64 →
    c.shared.taken.length = sumOf (c.shared.merged .tasksProcessed) + c.shared.stopped +
      tally Station.processed c.pc

structure Surveyed (c : Config Tid (Measured Ptr) (Station Ptr)) : Prop where
  recorded : ∀ e ∈ c.shared.taken, c.shared.numbers e.task.serial = e.numbers
  accepted : ∀ task ∈ c.shared.pool.accepted, (c.shared.numbers task.serial).Ordered
  calls : ∀ t, ∀ serial ∈ (c.pc t).loc.surveyed, (c.shared.numbers serial).Ordered

def Announced (c : Config Tid (Measured Ptr) (Station Ptr)) : Prop :=
  ∀ stats, c.shared.reported = some stats → stats.ranges = c.shared.stats ∧
    c.shared.pool.freed = true

structure Sensible (s : Measured Ptr) (p : Station Ptr) : Prop where
  streak : p.loc.Streak
  fresh : ∀ e ∈ s.taken, ∀ task, p.loc = .readIdle task → e.task.serial ≠ task.serial
  done : s.pool.freed = true → p.loc.working = false

theorem accepted_of_taken (accounted : Accounted (plainly c)) (tallied : Tallied c) {e : Taken Ptr}
    (inside : e ∈ c.shared.taken) : e.task ∈ c.shared.pool.accepted := by
  have member : e.task ∈ (c.shared.taken.map Taken.task : Multiset (Task Ptr)) :=
    Multiset.mem_coe.mpr (List.mem_map_of_mem inside)
  have tasks : (c.shared.pool.accepted : Multiset (Task Ptr)) =
      c.shared.pool.placed + tally Loc.hands (plainly c).pc := accounted.tasks
  rw [← Multiset.mem_coe, tasks]
  rw [tallied.tasks, Multiset.mem_add] at member
  rcases member with executed | underway
  · exact Multiset.mem_add.mpr (.inl (Multiset.mem_add.mpr (.inr executed)))
  · obtain ⟨u, -, held⟩ := Multiset.mem_sum.mp underway
    have handed := Multiset.mem_of_le (underway_le_hands (c.pc u).loc) held
    exact Multiset.mem_add.mpr (.inr (Multiset.mem_sum.mpr ⟨u, Finset.mem_univ u, handed⟩))

theorem sensible_of_plain (counted : Counted (plainly c)) (accounted : Accounted (plainly c))
    (draining : Draining (plainly c)) (tallied : Tallied c) (t : Tid) :
    Sensible c.shared (c.pc t) := by
  refine ⟨counted.streak t, fun e inside task point same => ?_, fun freed =>
    (draining.freed (.inl freed)).2 t⟩
  have serial : e.task.serial ∈ c.shared.pool.serials :=
    Multiset.mem_coe.mpr (List.mem_map_of_mem (accepted_of_taken accounted tallied inside))
  have carried : task.serial ∈ tally Loc.carried (plainly c).pc := by
    refine Multiset.mem_sum.mpr ⟨t, Finset.mem_univ t, ?_⟩
    rw [show (plainly c).pc t = _ from point]
    exact Multiset.mem_singleton_self _
  exact Multiset.disjoint_left.mp (Multiset.disjoint_of_nodup_add accounted.distinct) serial
    (same ▸ carried)

variable [DecidableEq Tid] {t : Tid} {s : Measured Ptr} {p : Station Ptr}

theorem Tallied.step (tallied : Tallied c) (streak : (c.pc t).loc.Streak)
    (measured : Measures Tid c.shared (c.pc t) s p) : Tallied ⟨s, Function.update c.pc t p⟩ := by
  have grows := measures_taken_le measured
  have within (weight : Station Ptr → ℕ) : weight (c.pc t) ≤ tally weight c.pc :=
    Finset.single_le_sum (f := fun u => weight (c.pc u)) (fun _ _ => Nat.zero_le _)
      (Finset.mem_univ t)
  constructor
  · intro m perTask
    exact tally_balance _ (tallied.values m perTask) (measures_values perTask measured)
  · exact tally_balance (fun p : Station Ptr => p.loc.underway) tallied.tasks
      (measures_tasks measured)
  · intro few
    have before := tallied.streaks (by simp only at few; omega)
    have own := within Station.streaks
    simp only at few
    exact tally_balance Station.streaks before (measures_streaks streak (by omega) measured)
  · intro few
    have before := tallied.processed (by simp only at few; omega)
    have own := within Station.processed
    simp only at few
    exact tally_balance Station.processed before (measures_processed streak (by omega) measured)

omit [Fintype Tid] in
theorem Surveyed.step (surveyed : Surveyed c) (sensible : Sensible c.shared (c.pc t))
    (measured : Measures Tid c.shared (c.pc t) s p) : Surveyed ⟨s, Function.update c.pc t p⟩ := by
  have ordered {serial : ℕ} (before : (c.shared.numbers serial).Ordered) :
      (s.numbers serial).Ordered := by
    rcases measures_numbers measured with same | ⟨task, numbers, -, sound, -, set⟩
    · rwa [same]
    · rw [set]
      by_cases own : serial = task.serial
      · rwa [own, Function.update_self]
      · rwa [Function.update_of_ne own]
  have kept (e : Taken Ptr) (inside : e ∈ c.shared.taken) :
      s.numbers e.task.serial = e.numbers := by
    have recorded := surveyed.recorded e inside
    rcases measures_numbers measured with same | ⟨task, numbers, point, -, -, set⟩
    · rw [same, recorded]
    · rw [set, Function.update_of_ne (sensible.fresh e inside task point), recorded]
  constructor
  · intro e inside
    rcases measures_taken measured with same | ⟨task, now, more⟩
    · exact kept e (same ▸ inside)
    · simp only [more, List.mem_cons] at inside
      rcases inside with rfl | before
      · rfl
      · exact kept e before
  · intro task inside
    rcases measures_accepted measured inside with before | called
    · exact ordered (surveyed.accepted task before)
    · exact ordered (surveyed.calls t _ called)
  · intro u serial inside
    simp only at inside ⊢
    by_cases self : u = t
    · rw [self, Function.update_self] at inside
      rcases measures_surveyed measured inside with before | set
      · exact ordered (surveyed.calls t serial before)
      · exact set
    · rw [Function.update_of_ne self] at inside
      exact ordered (surveyed.calls u serial inside)

theorem Announced.step (announced : Announced c) (folding : Folding c)
    (sensible : Sensible c.shared (c.pc t)) (measured : Measures Tid c.shared (c.pc t) s p) :
    Announced ⟨s, Function.update c.pc t p⟩ := by
  intro stats reported
  simp only at reported ⊢
  rcases measures_reported measured with ⟨same, kept⟩ | ⟨freed, created, tasks, now⟩
  · obtain ⟨ranges, freed⟩ := announced stats (same ▸ reported)
    refine ⟨?_, kept freed⟩
    rcases measures_stats measured with unchanged | locking
    · exact ranges.trans unchanged.1.symm
    · have point := (folding.keeps t).inside locking
      have idle := sensible.done freed
      rw [point] at idle
      cases idle
  · cases reported.symm.trans now
    exact ⟨rfl, freed⟩

omit [DecidableEq Tid] in
theorem tallied_start {config : PoolConfig Ptr} {pc : Tid → Loc Ptr} {main : Tid}
    (starting : Starting main pc) (unmeasured : Unmeasured config pc c) : Tallied c := by
  have pool : c.shared.pool = (start config pc).shared := congrArg Config.shared unmeasured.plain
  have loc (t : Tid) : (c.pc t).loc = pc t := congrFun (congrArg Config.pc unmeasured.plain) t
  have kept (t : Tid) (m : Measure) : (c.pc t).kept m = [] := congrFun (unmeasured.threads t).2 m
  have busy (t : Tid) : (c.pc t).loc.busyTasks = 0 := by
    rw [loc]
    exact starting.all (fun l => l.busyTasks = 0) rfl rfl rfl t
  have outside (t : Tid) : (c.pc t).loc.looping = false := by
    rw [loc]
    exact starting.all (fun l => l.looping = false) rfl rfl rfl t
  constructor
  · intro m _
    rw [unmeasured.taken, unmeasured.merged, tally_eq_zero _ _ fun t => by rw [kept]; rfl]
    rfl
  · rw [unmeasured.taken, pool, tally_eq_zero _ _ fun t => by
      rw [loc]
      exact starting.all (fun l => l.underway = 0) rfl rfl rfl t]
    rfl
  · intro _
    rw [unmeasured.taken, unmeasured.merged, tally_eq_zero _ _ fun t => by
      rw [Station.streaks, kept, busy]
      rfl]
    rfl
  · intro _
    rw [unmeasured.taken, unmeasured.merged, unmeasured.stopped, tally_eq_zero _ _ fun t => by
      rw [Station.processed, kept, busy, outside]
      rfl]
    rfl

omit [Fintype Tid] [DecidableEq Tid] in
theorem surveyed_start {config : PoolConfig Ptr} {pc : Tid → Loc Ptr} {main : Tid}
    (starting : Starting main pc) (unmeasured : Unmeasured config pc c) : Surveyed c := by
  have pool : c.shared.pool = (start config pc).shared := congrArg Config.shared unmeasured.plain
  have loc (t : Tid) : (c.pc t).loc = pc t := congrFun (congrArg Config.pc unmeasured.plain) t
  constructor
  · rw [unmeasured.taken]
    exact fun e inside => absurd inside List.not_mem_nil
  · rw [pool]
    exact fun task inside => absurd inside List.not_mem_nil
  · intro t serial inside
    rw [loc, starting.all (fun l => l.surveyed = []) rfl rfl rfl t] at inside
    exact absurd inside List.not_mem_nil

structure Orderly (c : Config Tid (Pool Ptr) (Loc Ptr)) : Prop where
  roles : Roles c
  counted : Counted c
  draining : Draining c
  accounted : Accounted c

theorem orderly_run {config : PoolConfig Ptr} {pc : Tid → Loc Ptr} {main : Tid}
    (starting : Starting main pc) {actions : List (Tid × Act Tid Ptr)}
    {c : Config Tid (Pool Ptr) (Loc Ptr)} (run : Run step Patient (start config pc) actions c) :
    Orderly c := by
  refine run.invariant Orderly ⟨roles_start config starting, counted_start config starting,
    draining_start config starting, accounted_start config starting⟩
    fun c act c' orderly fired patient => ?_
  exact ⟨roles_step c act c' orderly.roles fired, counted_step c act c' orderly.counted fired,
    draining_step act orderly.roles orderly.draining fired patient,
    accounted_step c act c' orderly.accounted fired⟩

structure Accountable (c : Config Tid (Measured Ptr) (Station Ptr)) : Prop where
  folding : Folding c
  tallied : Tallied c
  surveyed : Surveyed c
  announced : Announced c

theorem accountable_run {config : PoolConfig Ptr} {pc : Tid → Loc Ptr} {main : Tid}
    (starting : Starting main pc) {c₀ : Config Tid (Measured Ptr) (Station Ptr)}
    (unmeasured : Unmeasured config pc c₀) {actions : List (Tid × Reading Tid Ptr)}
    (run : Run measuredStep MeasuredPatient c₀ actions c) :
    Orderly (plainly c) ∧ Accountable c := by
  have matched (c : Config Tid (Measured Ptr) (Station Ptr)) act c'
      (fired : measuredStep c act = some c')
      (patient : MeasuredPatient c act c') := measured_matched (t := act.1)
      (a := act.2) fired patient
  constructor
  · obtain ⟨actions', run'⟩ := run.stutters plainly matched
    rw [unmeasured.plain] at run'
    exact orderly_run starting run'
  · refine run.invariant_over plainly matched Accountable ⟨folding_start starting unmeasured,
      tallied_start starting unmeasured, surveyed_start starting unmeasured,
      fun stats reported => ?_⟩ ?_
    · cases unmeasured.reported.symm.trans reported
    · intro c act c' reached accountable fired
      obtain ⟨actions', run'⟩ := reached
      rw [unmeasured.plain] at run'
      have orderly := orderly_run starting run'
      have sensible := sensible_of_plain orderly.counted orderly.accounted orderly.draining
        accountable.tallied
      refine measuredStep_keeps (t := act.1) (a := act.2) Accountable Sensible sensible ?_
        fired accountable
      intro c t s p accountable sensible measured
      exact ⟨accountable.folding.step measured, accountable.tallied.step sensible.streak measured,
        accountable.surveyed.step sensible measured,
        accountable.announced.step accountable.folding sensible measured⟩

structure Reports (s : Measured Ptr) (stats : PoolStats) : Prop where
  exact : ∀ m, Tame (s.merged m) → stats.ranges m = build (s.merged m)
  tasks : (s.taken.map Taken.task).Perm (s.pool.executed.map Prod.fst)
  perTask : ∀ m, m.perTask = true → (s.merged m).Perm (s.taken.filterMap (Taken.value m))
  numbers : ∀ e ∈ s.taken, s.numbers e.task.serial = e.numbers ∧ e.numbers.Ordered
  streaks : s.taken.length < 2 ^ 64 → sumOf (s.merged .busyTaskNum) = s.taken.length
  processed : s.taken.length < 2 ^ 64 →
    sumOf (s.merged .tasksProcessed) + s.stopped = s.taken.length

variable {config : PoolConfig Ptr} {main : Tid} {pc : Tid → Loc Ptr}
  {actions : List (Tid × Reading Tid Ptr)} {c₀ : Config Tid (Measured Ptr) (Station Ptr)}
  {stats : PoolStats}

/-- Whatever the workers do in which order, the statistics that a destroyed pool hands out are those
of all the tasks that it has run, none forgotten and none counted twice: as far as the sums fit,
each range is what one collector would have, with the delay, the queue and the threads of each task
when it was queued. The streaks of busy workers add up to all the tasks, the numbers of processed
tasks to those of the workers that were idle too long. -/
theorem lam_thread_pool_destroy_reports (starting : Starting main pc)
    (unmeasured : Unmeasured config pc c₀) (run : Run measuredStep MeasuredPatient c₀ actions c)
    (destroyed : c.shared.reported = some stats) : Reports c.shared stats := by
  obtain ⟨orderly, accountable⟩ := accountable_run starting unmeasured run
  obtain ⟨folding, tallied, surveyed, announced⟩ := accountable
  obtain ⟨ranges, freed⟩ := announced stats destroyed
  have dead (t : Tid) : (c.pc t).loc.alive = false := by
    have idle : (c.pc t).loc.working = false := (orderly.draining.freed (.inl freed)).2 t
    simp only [Loc.working, Bool.or_eq_false_iff] at idle
    exact idle.1.1
  have kept (t : Tid) (m : Measure) : (c.pc t).kept m = [] := (folding.keeps t).idle
    (recording_of_dead (dead t)) m
  have underway : tally (fun p : Station Ptr => p.loc.underway) c.pc = 0 :=
    tally_eq_zero _ _ fun t => underway_of_dead (dead t)
  have tasks := tallied.tasks
  rw [underway, add_zero, Multiset.coe_eq_coe] at tasks
  have streaks (t : Tid) : (c.pc t).streaks = 0 := by
    rw [Station.streaks, kept, busyTasks_of_dead (dead t)]
    rfl
  have processed (t : Tid) : (c.pc t).processed = 0 := by
    rw [Station.processed, kept, busyTasks_of_dead (dead t), looping_of_dead (dead t)]
    rfl
  constructor
  · intro m tame
    rw [ranges]
    exact (folding.exact m tame).eq_build tame.bounded
  · exact tasks
  · intro m perTask
    have none : tally (fun p : Station Ptr => (p.kept m : Multiset UInt64)) c.pc = 0 :=
      tally_eq_zero _ _ fun t => congrArg _ (kept t m)
    have values := tallied.values m perTask
    rw [none, add_zero, Multiset.coe_eq_coe] at values
    exact values.symm
  · intro e inside
    have recorded := surveyed.recorded e inside
    have ordered := surveyed.accepted _ (accepted_of_taken orderly.accounted tallied inside)
    exact ⟨recorded, recorded ▸ ordered⟩
  · intro few
    have all := tallied.streaks few
    rw [tally_eq_zero _ _ streaks, add_zero] at all
    exact all.symm
  · intro few
    have all := tallied.processed few
    rw [tally_eq_zero _ _ processed, add_zero] at all
    exact all.symm

instance (c : Config Tid (Measured Ptr) (Station Ptr)) (act : Tid × Reading Tid Ptr)
    (c' : Config Tid (Measured Ptr) (Station Ptr)) : Decidable (MeasuredPatient c act c') :=
  inferInstanceAs (Decidable (Patient (plainly c) (act.1, (.tick : Act Tid Ptr)) (plainly c')))

/-- A task that has waited for 3 units of time in an empty queue, with one idle worker. -/
theorem lam_thread_pool_destroy_reports_sample :
    ∃ (c : Config (Fin 3) (Measured ℕ) (Station ℕ)) (stats : PoolStats),
    (stats.ranges .taskDelay).sum = 3 ∧ Reports c.shared stats := by
  have starting : Starting (0 : Fin 3) ![(.createLoop 0 : Loc ℕ), .outside, .absent] :=
    ⟨rfl, by decide⟩
  have unmeasured : Unmeasured ⟨false, false, none, 0, 0, 1⟩
      ![(.createLoop 0 : Loc ℕ), .outside, .absent]
      sampleUnmeasured :=
    ⟨rfl, rfl, rfl, rfl, rfl, rfl, rfl, fun _ => ⟨rfl, rfl⟩⟩
  have run : Run measuredStep MeasuredPatient sampleUnmeasured
      ([(0, .tick), (0, .tick), (0, .tick), (0, .tick), (0, .created 2), (0, .tick),
        (2, .tick), (2, .tick),
        (2, .clock 1), (2, .tick), (2, .tick), (1, .run (some 7) 5 none), (1, .tick), (1, .tick),
          (1, .clock 5)].map
          (fun act => (act.1, .act act.2)) ++ [((1 : Fin 3), .size 0)] ++
        [(1, .tick), (1, .tick), (1, .tick), (2, .tick), (2, .tick), (2, .clock 2), (2, .tick),
          (0, .destroy),
          (0, .tick), (2, .clock 8), (2, .result 9), (2, .tick), (2, .clock 9), (2, .tick),
          (2, .tick), (2, .tick),
          (2, .tick), (2, .tick), (2, .tick), (2, .tick), (2, .tick), (2, .tick), (2, .tick),
          (2, .tick), (2, .tick),
          (2, .tick), (2, .tick), (2, .tick), (2, .tick), (2, .tick), (2, .tick), (2, .tick),
          (2, .tick), (0, .tick), (0, .tick), (0, .tick)].map (fun act => (act.1, .act act.2))) _ :=
    run_of_runs (fun c act c' => decide (MeasuredPatient c act c'))
      (fun _ _ _ checked => of_decide_eq_true checked) rfl
      (by decide)
  exact ⟨_, _, by decide, lam_thread_pool_destroy_reports starting unmeasured run rfl⟩

end Runs

end Libam.ThreadPool
