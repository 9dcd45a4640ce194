import Libam.CQueue.Model
import Libam.Concurrency.Cells
import Mathlib.Data.Int.ModEq

/-! Every slot of the circular queue is accounted for by the queue and its running calls. -/

namespace Libam.CQueue

open Libam.Interleaving

variable {V : Type}

def AmcqueuePc.filling (i : ℕ) : AmcqueuePc V → Bool
  | .enqFill _ slot _ => slot == i
  | _ => false

def AmcqueuePc.emptying (i : ℕ) : AmcqueuePc V → Bool
  | .deqUnlock _ slot _ => slot == i
  | .deqLoad _ slot _ => slot == i
  | .deqTake _ slot _ _ => slot == i
  | _ => false

def AmcqueuePc.inLock : AmcqueuePc V → Bool
  | .deqRead _ => true
  | .deqTest _ _ _ => true
  | .deqSwap _ _ _ => true
  | .deqUnlockEmpty _ => true
  | .deqUnlock _ _ _ => true
  | _ => false

def AmcqueuePc.filled [DecidableEq V] (v : V) : AmcqueuePc V → Bool
  | .enqDone data rc => data == some v && rc == .success
  | _ => false

def AmcqueuePc.taken [DecidableEq V] (v : V) : AmcqueuePc V → Bool
  | .deqDone _ out rc => out == some v && rc == .success
  | _ => false

def InRange (head tail i : ℕ) : Prop :=
  if head ≤ tail then head ≤ i ∧ i < tail else head ≤ i ∨ i < tail

instance (head tail i : ℕ) : Decidable (InRange head tail i) :=
  inferInstanceAs (Decidable (if head ≤ tail then head ≤ i ∧ i < tail else head ≤ i ∨ i < tail))

def AmcqueuePc.Checked (g : Shared V) : AmcqueuePc V → Prop
  | .enqSwap _ tail newTail => newTail = (tail + 1) % g.cq.capacity
  | .enqFill _ slot _ => slot < g.cq.capacity
  | .deqTest _ head newHead => head = g.cq.head ∧ newHead = (head + 1) % g.cq.capacity
  | .deqSwap _ head newHead =>
      head = g.cq.head ∧ newHead = (head + 1) % g.cq.capacity ∧
        g.claimed.length < g.reserved.length
  | .deqUnlock _ slot _ => slot < g.cq.capacity
  | .deqLoad _ slot _ => slot < g.cq.capacity
  | .deqTake _ slot _ _ => slot < g.cq.capacity
  | _ => True

structure Indexed (slots : ℕ) (g : Shared V) : Prop where
  capacity : g.cq.capacity = slots
  head : g.cq.head = g.claimed.length % slots
  tail : g.cq.tail = g.reserved.length % slots
  behind : g.claimed.length ≤ g.reserved.length
  room : g.reserved.length < g.claimed.length + slots

theorem mod_ne_of_close {a b n : ℕ} (behind : a < b) (close : b < a + n) : b % n ≠ a % n := by
  intro same
  have divides : n ∣ b - a := (Nat.modEq_iff_dvd' behind.le).mp same.symm
  have large := Nat.le_of_dvd (by omega) divides
  omega

theorem next_index (i n : ℕ) (bound : i < n) :
    (i + 1) % n = if i + 1 = n then 0 else i + 1 := by
  split_ifs with wraps
  · rw [wraps, Nat.mod_self]
  · exact Nat.mod_eq_of_lt (by omega)

theorem range_reserve {n head tail i : ℕ} (headBound : head < n) (tailBound : tail < n)
    (bound : i < n) (room : (tail + 1) % n ≠ head) :
    (if InRange head ((tail + 1) % n) i then 1 else 0) =
      (if InRange head tail i then 1 else 0) + (if tail = i then 1 else 0) := by
  rw [next_index tail n tailBound] at room ⊢
  simp only [InRange]
  split_ifs at room ⊢ <;> omega

theorem range_claim {n head tail i : ℕ} (headBound : head < n) (tailBound : tail < n)
    (bound : i < n) (nonempty : head ≠ tail) :
    (if InRange ((head + 1) % n) tail i then 1 else 0) + (if head = i then 1 else 0) =
      (if InRange head tail i then 1 else 0) := by
  rw [next_index head n headBound]
  simp only [InRange]
  split_ifs <;> omega

section Moves

variable {slots : ℕ} {g g' : Shared V} {pc pc' : AmcqueuePc V}

theorem move_indexed (move : Move g pc g' pc') (indexed : Indexed slots g)
    (checked : pc.Checked g) (room : g'.reserved.length < g'.claimed.length + slots) :
    Indexed slots g' := by
  obtain ⟨capacity, head, tail, behind, _⟩ := indexed
  cases move
  case enqReserve data newTail =>
    refine ⟨capacity, head, ?_, by simp; omega, room⟩
    simp only [AmcqueuePc.Checked] at checked
    simp [checked, capacity, tail]
  case deqClaim call newHead =>
    simp only [AmcqueuePc.Checked] at checked
    refine ⟨capacity, ?_, tail, by simp; omega, room⟩
    simp [checked.2.1, capacity, head]
  all_goals exact ⟨capacity, head, tail, behind, room⟩

theorem move_checked (move : Move g pc g' pc') (indexed : Indexed slots g)
    (positive : 0 < slots) (checked : pc.Checked g) : pc'.Checked g' := by
  have tailBound : g.cq.tail < g.cq.capacity := by
    rw [indexed.tail, indexed.capacity]
    exact Nat.mod_lt _ positive
  have headBound : g.cq.head < g.cq.capacity := by
    rw [indexed.head, indexed.capacity]
    exact Nat.mod_lt _ positive
  cases move
  case enqRead => rfl
  case enqReserve => exact tailBound
  case enqWait => exact checked
  case deqRead => exact ⟨rfl, rfl⟩
  case deqNonempty call head newHead nonempty =>
    refine ⟨checked.1, checked.2, lt_of_le_of_ne indexed.behind fun same => nonempty ?_⟩
    rw [checked.1, indexed.head, indexed.tail, same]
  case deqClaim => exact headBound
  case deqRelease held after =>
    cases after
    · trivial
    · exact checked
  case deqUnheld free after =>
    cases after
    · trivial
    · exact checked
  case deqWait => exact checked
  case deqLoad => exact checked
  case deqLost => exact checked
  all_goals trivial

/-- What one call has checked stays true while another call moves, unless both hold the lock. -/
theorem move_others (move : Move g pc g' pc') {other : AmcqueuePc V}
    (exclusive : pc.inLock = true → other.inLock = true → False) (checked : other.Checked g) :
    other.Checked g' := by
  cases move
  case enqReserve data newTail =>
    cases other <;> simp_all [AmcqueuePc.Checked]
    omega
  case deqClaim call newHead =>
    cases other <;> simp_all [AmcqueuePc.Checked, AmcqueuePc.inLock]
  all_goals cases other <;> exact checked

theorem move_lock (move : Move g pc g' pc') (held : pc.inLock = true → g.cq.readLock = 1) :
    g'.cq.readLock + (if pc.inLock then 1 else 0) =
      g.cq.readLock + (if pc'.inLock then 1 else 0) := by
  cases move
  case deqLock call free => simp [AmcqueuePc.inLock, free]
  case deqRelease locked after => cases after <;> simp [AmcqueuePc.inLock, locked]
  case deqUnheld free after => cases after <;> simp_all [AmcqueuePc.inLock]
  all_goals simp [AmcqueuePc.inLock]

theorem move_exclusive (move : Move g pc g' pc') (exclusive : g.cq.readLock ≤ 1) :
    g'.cq.readLock ≤ 1 := by
  cases move
  case deqLock => exact Nat.le_refl _
  case deqRelease => exact Nat.zero_le _
  all_goals exact exclusive

/-- One move shifts slot `i` between the queue and the call, never out of the account. -/
theorem move_slot (move : Move g pc g' pc') (indexed : Indexed slots g) (checked : pc.Checked g)
    (room : g'.reserved.length < g'.claimed.length + slots) {i : ℕ} (bound : i < slots) :
    Cells.occupied g'.cq.data i + (if pc'.filling i then 1 else 0) +
        (if pc.emptying i then 1 else 0) + (if InRange g.cq.head g.cq.tail i then 1 else 0) =
      Cells.occupied g.cq.data i + (if pc.filling i then 1 else 0) +
        (if pc'.emptying i then 1 else 0) + (if InRange g'.cq.head g'.cq.tail i then 1 else 0) := by
  have positive : 0 < slots := by omega
  obtain ⟨capacity, head, tail, behind, close⟩ := indexed
  have headBound : g.cq.head < slots := head ▸ Nat.mod_lt _ positive
  have tailBound : g.cq.tail < slots := tail ▸ Nat.mod_lt _ positive
  cases move
  case enqReserve data newTail =>
    simp only [AmcqueuePc.Checked, capacity] at checked
    have apart : (g.cq.tail + 1) % slots ≠ g.cq.head := by
      rw [tail, head, Nat.mod_add_mod]
      simp only [List.length_append, List.length_singleton] at room
      exact mod_ne_of_close (by omega) room
    simp only [checked, range_reserve headBound tailBound bound apart]
    simp [AmcqueuePc.filling, AmcqueuePc.emptying]
    omega
  case enqStore data slot ticket empty =>
    rw [Cells.occupied_fill _ _ _ _ empty]
    simp [AmcqueuePc.filling, AmcqueuePc.emptying]
  case deqClaim call newHead =>
    simp only [AmcqueuePc.Checked, capacity] at checked
    have nonempty : g.cq.head ≠ g.cq.tail := by
      rw [tail, head]
      exact (mod_ne_of_close checked.2.2 close).symm
    rw [← range_claim headBound tailBound bound nonempty]
    simp [AmcqueuePc.filling, AmcqueuePc.emptying, checked.2.1]
    omega
  case deqRelease held after =>
    cases after <;> simp [AmcqueuePc.filling, AmcqueuePc.emptying]
  case deqUnheld free after =>
    cases after <;> simp [AmcqueuePc.filling, AmcqueuePc.emptying]
  case deqTake call slot ticket ptr full =>
    rw [← Cells.occupied_take _ slot i _ full]
    simp [AmcqueuePc.filling, AmcqueuePc.emptying]
  all_goals simp [AmcqueuePc.filling, AmcqueuePc.emptying]

def Event.returns [DecidableEq V] (v : V) : Event V → Bool
  | .deqRet _ data => data == v
  | _ => false

def Amcqueue.stored [DecidableEq V] (cq : Amcqueue V) (v : V) : ℕ :=
  Cells.stored cq.data cq.capacity v

theorem count_enqReturn [DecidableEq V] (data : Option V) (rc : Amrc) (v : V) :
    (enqReturn data rc).count (.enqRet v) =
      if AmcqueuePc.filled v (.enqDone data rc) then 1 else 0 := by
  cases data <;> cases rc <;> simp [enqReturn, AmcqueuePc.filled, List.count_singleton]

theorem count_deqReturn [DecidableEq V] (call : ℕ) (out : Option V) (rc : Amrc) (v : V) :
    (deqReturn call out rc).countP (Event.returns v) =
      if AmcqueuePc.taken v (.deqDone call out rc) then 1 else 0 := by
  cases out <;> cases rc <;> simp [deqReturn, AmcqueuePc.taken, Event.returns, List.countP_cons]

theorem enqReturn_returns [DecidableEq V] (data : Option V) (rc : Amrc) (v : V) :
    (enqReturn data rc).countP (Event.returns v) = 0 := by
  cases data <;> cases rc <;> rfl

theorem deqReturn_enqRet [DecidableEq V] (call : ℕ) (out : Option V) (rc : Amrc) (v : V) :
    (deqReturn call out rc).count (.enqRet v) = 0 := by
  cases out <;> cases rc <;> simp [deqReturn]

/-- One move shifts `v` between the slots, the call and the history, never out of the account. -/
theorem move_value [DecidableEq V] (move : Move g pc g' pc') (checked : pc.Checked g) (v : V) :
    (g'.history.count (.enqRet v) + (if pc'.filled v then 1 else 0)) + g.cq.stored v +
        (g.history.countP (Event.returns v) + (if pc.taken v then 1 else 0)) =
      (g.history.count (.enqRet v) + (if pc.filled v then 1 else 0)) + g'.cq.stored v +
        (g'.history.countP (Event.returns v) + (if pc'.taken v then 1 else 0)) := by
  cases move
  case enqNull => simp [AmcqueuePc.filled, AmcqueuePc.taken]
  case enqCall data =>
    simp [AmcqueuePc.filled, AmcqueuePc.taken, List.count_append, Event.returns]
  case enqStore data slot ticket empty =>
    have moved := Cells.stored_fill g.cq.data g.cq.capacity slot v data empty checked
    simp [AmcqueuePc.filled, AmcqueuePc.taken, Amcqueue.stored, moved]
    omega
  case enqReturn data rc =>
    have idle : AmcqueuePc.filled v (.idle : AmcqueuePc V) = false := rfl
    rw [List.count_append, List.countP_append, count_enqReturn, enqReturn_returns, idle]
    simp [AmcqueuePc.taken]
  case deqCall =>
    simp [AmcqueuePc.filled, AmcqueuePc.taken, List.count_append, Event.returns]
  case deqReturn call out rc =>
    have idle : AmcqueuePc.taken v (.idle : AmcqueuePc V) = false := rfl
    rw [List.count_append, List.countP_append, count_deqReturn, deqReturn_enqRet, idle]
    simp [AmcqueuePc.filled]
  case deqRelease held after =>
    cases after <;> simp [AmcqueuePc.filled, AmcqueuePc.taken, Amcqueue.stored]
  case deqUnheld free after =>
    cases after <;> simp [AmcqueuePc.filled, AmcqueuePc.taken]
  case deqTake call slot ticket ptr full =>
    have moved := Cells.stored_take g.cq.data g.cq.capacity slot v ptr full checked
    simp [AmcqueuePc.filled, AmcqueuePc.taken, Amcqueue.stored, ← moved]
    omega
  all_goals simp [AmcqueuePc.filled, AmcqueuePc.taken, Amcqueue.stored]

end Moves

section Runs

variable [DecidableEq V] {Tid : Type} [Fintype Tid] [DecidableEq Tid] {slots : ℕ}

structure Accounted (slots : ℕ) (c : Config Tid (Shared V) (AmcqueuePc V)) : Prop where
  indexed : Indexed slots c.shared
  locked : count (fun l => l.inLock) c.pc = c.shared.cq.readLock
  exclusive : c.shared.cq.readLock ≤ 1
  range : ∀ i < slots, Cells.occupied c.shared.cq.data i + count (fun l => l.filling i) c.pc =
    (if InRange c.shared.cq.head c.shared.cq.tail i then 1 else 0) +
      count (fun l => l.emptying i) c.pc
  values : ∀ v, c.shared.history.count (.enqRet v) + count (fun l => l.filled v) c.pc =
    c.shared.cq.stored v +
      (c.shared.history.countP (Event.returns v) + count (fun l => l.taken v) c.pc)
  checked : ∀ t, (c.pc t).Checked c.shared

/-- Enqueue reservations never exceed dequeue reservations by more than the capacity. -/
def WithinCapacity (capacity : ℕ) (_ : Config Tid (Shared V) (AmcqueuePc V)) (_ : Tid × Act V)
    (c' : Config Tid (Shared V) (AmcqueuePc V)) : Prop :=
  c'.shared.reserved.length ≤ c'.shared.claimed.length + capacity

omit [DecidableEq V] in
theorem alloc_empty {malloc : UInt64 → Bool} {capacity : UInt64} {cq : Amcqueue V}
    (allocated : amcqueueAlloc malloc capacity = some cq) (small : capacity.toNat + 1 < wordSize) :
    cq = ⟨0, capacity.toNat + 1, 0, 0, fun _ => none⟩ := by
  obtain ⟨-, fresh⟩ := alloc_eq_some.mp allocated
  rw [fresh, toNat_succ small]

omit [DecidableEq Tid] in
theorem accounted_start (capacity : ℕ) :
    Accounted (capacity + 1) (start Tid (⟨0, capacity + 1, 0, 0, fun _ => none⟩ : Amcqueue V)) := by
  have none (p : AmcqueuePc V → Bool) (idle : p .idle = false) :
      count (fun l => p l) (fun _ : Tid => AmcqueuePc.idle) = 0 :=
    count_eq_zero.mpr fun _ => by simp [idle]
  refine ⟨⟨rfl, ?_, ?_, Nat.le_refl _, ?_⟩, none _ rfl, Nat.zero_le _, fun i _ => ?_, fun v => ?_,
    fun _ => trivial⟩
  · simp [start]
  · simp [start]
  · simp [start]
  · rw [start, none (·.filling i) rfl, none (·.emptying i) rfl]
    simp [Cells.occupied, InRange]
  · rw [start, none (·.filled v) rfl, none (·.taken v) rfl]
    simp [Amcqueue.stored, Cells.stored]

theorem accounted_step (c : Config Tid (Shared V) (AmcqueuePc V)) (act : Tid × Act V)
    (c' : Config Tid (Shared V) (AmcqueuePc V)) (accounted : Accounted slots c)
    (fired : c.step next act = some c')
    (room : c'.shared.reserved.length < c'.shared.claimed.length + slots) :
    Accounted slots c' := by
  obtain ⟨indexed, locked, exclusive, range, values, checked⟩ := accounted
  obtain ⟨g, l, stepped, rfl⟩ := Config.step_eq_some.mp fired
  have move := next_move stepped
  have positive : 0 < slots := by
    have close := indexed.room
    have behind := indexed.behind
    omega
  have held : (c.pc act.1).inLock = true → c.shared.cq.readLock = 1 := by
    intro inside
    have some : 0 < count (fun l : AmcqueuePc V => l.inLock) c.pc := count_pos.mpr ⟨act.1, inside⟩
    omega
  have lock := move_lock move held
  have lockCount := count_update (fun l : AmcqueuePc V => l.inLock) c.pc act.1 l
  refine ⟨move_indexed move indexed (checked act.1) room, ?_, move_exclusive move exclusive,
    fun i bound => ?_, fun v => ?_, ?_⟩
  · simp only
    omega
  · have moved := move_slot move indexed (checked act.1) room bound
    have filling := count_update (fun l : AmcqueuePc V => l.filling i) c.pc act.1 l
    have emptying := count_update (fun l : AmcqueuePc V => l.emptying i) c.pc act.1 l
    have before := range i bound
    simp only
    omega
  · have moved := move_value move (checked act.1) v
    have filled := count_update (fun l : AmcqueuePc V => l.filled v) c.pc act.1 l
    have taken := count_update (fun l : AmcqueuePc V => l.taken v) c.pc act.1 l
    have before := values v
    simp only
    omega
  · refine (Function.forall_update_iff c.pc fun _ (l : AmcqueuePc V) => l.Checked g).mpr ?_
    refine ⟨move_checked move indexed positive (checked _), fun u other => ?_⟩
    refine move_others move (fun first second => other ?_) (checked u)
    exact count_le_one (locked ▸ exclusive) second first

theorem accounted_run {capacity : ℕ} {actions : List (Tid × Act V)}
    {c : Config Tid (Shared V) (AmcqueuePc V)}
    (run : Run (Config.step next) (WithinCapacity capacity)
      (start Tid ⟨0, capacity + 1, 0, 0, fun _ => none⟩) actions c) :
    Accounted (capacity + 1) c :=
  run.invariant (Accounted (capacity + 1)) (accounted_start capacity)
    fun c act c' accounted fired room => accounted_step c act c' accounted fired (by
      simp only [WithinCapacity] at room
      omega)

theorem amcqueue_slots_accounted {malloc : UInt64 → Bool} {capacity : UInt64} {cq : Amcqueue V}
    (allocated : amcqueueAlloc malloc capacity = some cq) (small : capacity.toNat + 1 < wordSize)
    {actions : List (Tid × Act V)} {c : Config Tid (Shared V) (AmcqueuePc V)}
    (run : Run (Config.step next) (WithinCapacity capacity.toNat) (start Tid cq) actions c) :
    (∀ i < capacity.toNat + 1, ((if (c.shared.cq.data i).isSome then 1 else 0 : ℤ) +
        count (fun l => l.filling i) c.pc - count (fun l => l.emptying i) c.pc) =
      if InRange c.shared.cq.head c.shared.cq.tail i then 1 else 0) ∧
    (∀ v, c.shared.history.count (.enqRet v) + count (fun l => l.filled v) c.pc =
      c.shared.cq.stored v +
        (c.shared.history.countP (Event.returns v) + count (fun l => l.taken v) c.pc)) ∧
    c.shared.cq.head < capacity.toNat + 1 ∧ c.shared.cq.tail < capacity.toNat + 1 ∧
    ((∀ t, c.pc t = .idle) →
      (∀ i < capacity.toNat + 1,
        (c.shared.cq.data i).isSome ↔ InRange c.shared.cq.head c.shared.cq.tail i) ∧
      ∀ v, c.shared.history.count (.enqRet v) =
        c.shared.cq.stored v + c.shared.history.countP (Event.returns v)) := by
  obtain rfl := alloc_empty allocated small
  obtain ⟨indexed, _, _, range, values, _⟩ := accounted_run run
  have quiet (p : AmcqueuePc V → Bool) (idle : p .idle = false) (all : ∀ t, c.pc t = .idle) :
      count (fun l => p l) c.pc = 0 :=
    count_eq_zero.mpr fun t => by simp [all t, idle]
  refine ⟨fun i bound => ?_, values, ?_, ?_, fun all => ⟨fun i bound => ?_, fun v => ?_⟩⟩
  · have account := range i bound
    simp only [Cells.occupied] at account
    split_ifs at account ⊢ <;> omega
  · exact indexed.head ▸ Nat.mod_lt _ (Nat.succ_pos _)
  · exact indexed.tail ▸ Nat.mod_lt _ (Nat.succ_pos _)
  · have account := range i bound
    rw [quiet (·.filling i) rfl all, quiet (·.emptying i) rfl all] at account
    simp only [Cells.occupied] at account
    split_ifs at account with full inside inside <;> simp_all
  · have account := values v
    rw [quiet (·.filled v) rfl all, quiet (·.taken v) rfl all] at account
    exact account

/-- An enqueue overlaps a dequeue of the same slot in a queue for one value. -/
theorem amcqueue_slots_accounted_sample : ∃ c : Config (Fin 2) (Shared ℕ) (AmcqueuePc ℕ),
    c.shared.history.countP (Event.returns 7) = 1 ∧ c.shared.cq.head < 2 ∧
      c.shared.history.count (.enqRet 7) =
        c.shared.cq.stored 7 + c.shared.history.countP (Event.returns 7) := by
  have allocated : amcqueueAlloc (fun _ => true) 1 =
    some (⟨0, 2, 0, 0, fun _ => none⟩ : Amcqueue ℕ) := rfl
  have run : Run (Config.step next) (WithinCapacity 1)
      (start (Fin 2) (⟨0, 2, 0, 0, fun _ => none⟩ : Amcqueue ℕ))
      [(0, .enq (some 7)), (0, .tick), (0, .tick), (1, .deq), (1, .tick), (1, .tick), (1, .tick),
        (1, .tick), (1, .tick), (1, .tick), (0, .tick), (1, .tick), (1, .tick), (1, .tick),
        (0, .tick)] _ :=
    run_of_runs (fun _ _ c' => decide (c'.shared.reserved.length ≤ c'.shared.claimed.length + 1))
      (fun _ _ _ checked => by simpa [WithinCapacity] using checked) rfl rfl
  have account := amcqueue_slots_accounted allocated (by decide) run
  have idle := account.2.2.2.2 (by decide)
  exact ⟨_, rfl, account.2.2.1, idle.2 7⟩

end Runs

end Libam.CQueue
