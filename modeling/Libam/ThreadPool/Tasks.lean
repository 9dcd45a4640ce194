import Libam.ThreadPool.Counters
import Mathlib.Algebra.Order.Group.Multiset

/-! Where the accepted tasks of a pool are, and what comes of them. -/

namespace Libam.ThreadPool

open Libam.Interleaving

variable {Ptr : Type}

def Loc.hands : Loc Ptr → Multiset (Task Ptr)
  | .gotTask _ task => {task}
  | .process _ task => {task}
  | _ => 0

/-- What a task with result `ret` writes through its `ret_ptr`. -/
def Task.written (task : Task Ptr) (ret : Ptr) : List (Ptr × Ptr) :=
  (task.retPtr.map fun retPtr => (retPtr, ret)).toList

def Loc.results : Loc Ptr → Multiset (Ptr × Ptr)
  | .store _ task ret => task.written ret
  | _ => 0

def Caller.carried : Caller Ptr → Multiset ℕ
  | .run task => {task.serial}
  | _ => 0

/-- The serial number of the task that a call of `lam_thread_pool_run` has allocated. -/
def Loc.carried : Loc Ptr → Multiset ℕ
  | .countTask task => {task.serial}
  | .readIdle task => {task.serial}
  | .push task => {task.serial}
  | .checkDrain k => k.carried
  | .ticket k => k.carried
  | .compare k _ => k.carried
  | .rollback k => k.carried
  | .spawn k => k.carried
  | _ => 0

@[simp ↓] theorem resume_hands (k : Caller Ptr) (ret : Amrc) : (k.resume ret).hands = 0 := by
  cases k <;> cases ret <;> rfl

@[simp ↓] theorem resume_results (k : Caller Ptr) (ret : Amrc) : (k.resume ret).results = 0 := by
  cases k <;> cases ret <;> rfl

@[simp ↓] theorem resume_success_carried (k : Caller Ptr) :
    (k.resume .success).carried = k.carried := by
  cases k <;> rfl

theorem resume_carried_le (k : Caller Ptr) (ret : Amrc) : (k.resume ret).carried ≤ k.carried := by
  cases k <;> cases ret <;> first | exact le_rfl | exact Multiset.zero_le _

def Pool.placed (g : Pool Ptr) : Multiset (Task Ptr) :=
  (g.tasksQueue : Multiset (Task Ptr)) + (g.executed.map Prod.fst : List (Task Ptr))

def Pool.due (g : Pool Ptr) : Multiset (Ptr × Ptr) :=
  (g.executed.flatMap fun done => done.1.written done.2 : List (Ptr × Ptr))

def Pool.serials (g : Pool Ptr) : Multiset ℕ := (g.accepted.map Task.serial : List ℕ)

section Moves

variable {Tid : Type} {g g' : Pool Ptr} {l l' : Loc Ptr} {a : Act Tid Ptr}

theorem move_tasks (moved : Move g l a g' l') :
    (g'.accepted : Multiset (Task Ptr)) + g.placed + l.hands =
      g.accepted + g'.placed + l'.hands := by
  cases moved with
  | popTask w task rest queued =>
      simp only [Pool.placed, Loc.hands, queued, ← Multiset.cons_coe, ← Multiset.singleton_add]
      abel
  | process w task ret =>
      simp only [Pool.placed, Loc.hands, List.map_cons, ← Multiset.cons_coe,
        ← Multiset.singleton_add]
      abel
  | push task =>
      simp only [Pool.placed, Loc.hands, ← Multiset.cons_coe, ← Multiset.singleton_add]
      abel
  | _ => simp [Pool.placed, Loc.hands]

theorem move_results (moved : Move g l a g' l') :
    g'.due + (g.stored : Multiset (Ptr × Ptr)) + l.results = g.due + g'.stored + l'.results := by
  cases moved with
  | process w task ret =>
      simp only [Pool.due, Loc.results, List.flatMap_cons, ← Multiset.coe_add]
      abel
  | storeNone w task ret absent => simp [Pool.due, Loc.results, Task.written, absent]
  | store w task ret retPtr wanted =>
      simp only [Pool.due, Loc.results, Task.written, wanted, Option.map_some,
        Option.toList_some, ← Multiset.cons_coe, ← Multiset.singleton_add]
      simp only [Multiset.coe_nil]
      abel
  | _ => simp [Pool.due, Loc.results]

/-- A call allocates a task with a new serial number, or keeps its task, gives it to the
pool, or drops it. -/
theorem move_serials (moved : Move g l a g' l') :
    (g'.allocated = g.allocated ∧ g'.serials + l'.carried ≤ g.serials + l.carried) ∨
    (g'.allocated = g.allocated + 1 ∧ g'.serials = g.serials ∧ l.carried = 0 ∧
      l'.carried = {g.allocated}) := by
  cases moved with
  | allocate func arg retPtr chosen calm => exact .inr ⟨rfl, rfl, rfl, rfl⟩
  | push task =>
      refine .inl ⟨rfl, le_of_eq ?_⟩
      simp only [Pool.serials, Loc.carried, List.map_cons, ← Multiset.cons_coe,
        ← Multiset.singleton_add]
      abel
  | startDrained k drain =>
      exact .inl ⟨rfl, add_le_add_right (resume_carried_le k .error) _⟩
  | spawnFailed k => exact .inl ⟨rfl, add_le_add_right (resume_carried_le k .error) _⟩
  | rollback k => exact .inl ⟨rfl, add_le_add_right (resume_carried_le k .success) _⟩
  | _ => exact .inl (by simp [Pool.serials, Loc.carried, Caller.carried])

end Moves

section Runs

variable {Tid : Type} [Fintype Tid] [DecidableEq Tid]

theorem tally_spawn_kept {M : Type*} [AddCancelCommMonoid M] (weight : Loc Ptr → M)
    {c c' : Config Tid (Pool Ptr) (Loc Ptr)} {t child : Tid} {k : Caller Ptr}
    (spawned : Spawned c t k child c')
    (resumed : weight (k.resume .success) = weight (.spawn k)) (begin : weight .begin = 0)
    (absent : weight .absent = 0) : tally weight c'.pc = tally weight c.pc := by
  have balance := tally_spawn weight spawned
  rw [begin, absent, resumed] at balance
  exact add_right_cancel balance

/-- Each accepted task is in one place, each result is written or about to be, and tasks have
numbers of their own. -/
structure Accounted (c : Config Tid (Pool Ptr) (Loc Ptr)) : Prop where
  tasks : (c.shared.accepted : Multiset (Task Ptr)) = c.shared.placed + tally Loc.hands c.pc
  results : c.shared.due = c.shared.stored + tally Loc.results c.pc
  distinct : (c.shared.serials + tally Loc.carried c.pc).Nodup
  fresh : ∀ serial ∈ c.shared.serials + tally Loc.carried c.pc, serial < c.shared.allocated

/-- The serial numbers after a step: fewer, or one more that is new. -/
theorem serials_step {pc : Tid → Loc Ptr} {t : Tid} {a : Act Tid Ptr} {g g' : Pool Ptr}
    {l : Loc Ptr} (moved : Move g (pc t) a g' l) :
    (g'.allocated = g.allocated ∧
      g'.serials + tally Loc.carried (Function.update pc t l) ≤ g.serials + tally Loc.carried pc) ∨
    (g'.allocated = g.allocated + 1 ∧ g'.serials + tally Loc.carried (Function.update pc t l) =
      g.allocated ::ₘ (g.serials + tally Loc.carried pc)) := by
  have change := tally_update Loc.carried pc t l
  rcases move_serials moved with ⟨kept, fewer⟩ | ⟨more, same, before, after⟩
  · refine .inl ⟨kept, le_of_add_le_add_right (a := (pc t).carried) ?_⟩
    calc g'.serials + tally Loc.carried (Function.update pc t l) + (pc t).carried
        = g'.serials + l.carried + tally Loc.carried pc := by rw [add_assoc, change]; abel
      _ ≤ g.serials + (pc t).carried + tally Loc.carried pc := add_le_add_left fewer _
      _ = g.serials + tally Loc.carried pc + (pc t).carried := by abel
  · rw [before, after, add_zero] at change
    refine .inr ⟨more, ?_⟩
    rw [change, same, ← Multiset.singleton_add]
    abel

omit [DecidableEq Tid] in
theorem accounted_start (config : PoolConfig Ptr) {main : Tid} {pc : Tid → Loc Ptr}
    (starting : Starting main pc) : Accounted (start config pc) := by
  have hands := tally_eq_zero Loc.hands pc (starting.all (·.hands = 0) rfl rfl rfl)
  have results := tally_eq_zero Loc.results pc (starting.all (·.results = 0) rfl rfl rfl)
  have carried := tally_eq_zero Loc.carried pc (starting.all (·.carried = 0) rfl rfl rfl)
  constructor <;> simp [start, Pool.placed, Pool.due, Pool.serials, hands, results, carried]

theorem accounted_step (c : Config Tid (Pool Ptr) (Loc Ptr)) (act : Tid × Act Tid Ptr)
    (c' : Config Tid (Pool Ptr) (Loc Ptr)) (accounted : Accounted c)
    (fired : step c act = some c') : Accounted c' := by
  obtain ⟨t, a⟩ := act
  rcases step_cases fired with ⟨g, l, moved, rfl⟩ | ⟨k, child, spawned⟩
  · have serials := serials_step moved
    have fresh := accounted.fresh
    refine ⟨tally_balance Loc.hands accounted.tasks (move_tasks moved),
      tally_balance Loc.results accounted.results (move_results moved), ?_, ?_⟩
    · rcases serials with ⟨-, fewer⟩ | ⟨-, more⟩
      · exact Multiset.nodup_of_le fewer accounted.distinct
      · simp only [more, Multiset.nodup_cons]
        exact ⟨fun old => (fresh _ old).false, accounted.distinct⟩
    · rcases serials with ⟨kept, fewer⟩ | ⟨next, more⟩
      · exact fun serial member => kept ▸ fresh serial (Multiset.mem_of_le fewer member)
      · intro serial member
        simp only [more, Multiset.mem_cons] at member
        simp only [next]
        rcases member with rfl | old
        · omega
        · exact (fresh serial old).trans (Nat.lt_succ_self _)
  · have hands := tally_spawn_kept Loc.hands spawned (resume_hands ..) rfl rfl
    have results := tally_spawn_kept Loc.results spawned (resume_results ..) rfl rfl
    have carried := tally_spawn_kept Loc.carried spawned (resume_success_carried _) rfl rfl
    constructor
    · rw [hands, spawned.shared]
      exact accounted.tasks
    · rw [results, spawned.shared]
      exact accounted.results
    · rw [carried, spawned.shared]
      exact accounted.distinct
    · rw [carried, spawned.shared]
      exact accounted.fresh

end Runs

end Libam.ThreadPool
