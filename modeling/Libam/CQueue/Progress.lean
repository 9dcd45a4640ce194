import Libam.Concurrency.Completion
import Libam.Concurrency.Contention
import Libam.CQueue.Invariant

/-! While the clients never call for more enqueues than the queue can take, none of its calls gets
stuck; and a swap of `tail` is repeated only when another enqueue has succeeded. -/

namespace Libam.CQueue

open Libam.Interleaving Libam.History Libam.Contention

variable {V : Type}

/-- How many accesses a call has still to make when nothing is in its way. -/
@[simp] def AmcqueuePc.ahead : AmcqueuePc V → ℕ
  | .idle => 0
  | .enqRead _ => 4
  | .enqSwap _ _ _ => 3
  | .enqFill _ _ _ => 2
  | .enqDone _ _ => 1
  | .deqLock _ => 8
  | .deqRead _ => 7
  | .deqTest _ _ _ => 6
  | .deqSwap _ _ _ => 5
  | .deqUnlockEmpty _ => 2
  | .deqUnlock _ _ _ => 4
  | .deqLoad _ _ _ => 3
  | .deqTake _ _ _ _ => 2
  | .deqDone _ _ _ => 1

theorem ahead_le (pc : AmcqueuePc V) : pc.ahead ≤ 8 := by
  cases pc <;> simp

section Alone

variable [DecidableEq V] {g : Shared V} {slot : ℕ}

def Nearer (g : Shared V) (pc : AmcqueuePc V) : Prop :=
  Reaches next .tick (fun l => l.ahead < pc.ahead) 3 g pc

theorem nearer_one {pc l : AmcqueuePc V} {g' : Shared V} (fired : next g pc .tick = some (g', l))
    (less : l.ahead < pc.ahead) : Nearer g pc := .tick fired (.here less)

theorem enqRead_fires (data : V) (positive : g.cq.capacity ≠ 0) : next g (.enqRead data) .tick =
    some (g, .enqSwap data g.cq.tail ((g.cq.tail + 1) % g.cq.capacity)) := by
  simp [next, amcqueueAccess, advance, positive]

theorem nearer_enqSwap (data : V) (tail newTail : ℕ) (positive : g.cq.capacity ≠ 0) :
    Nearer g (.enqSwap data tail newTail) := by
  have swaps : ∀ tail newTail, g.cq.tail = tail → next g (.enqSwap data tail newTail) .tick =
      some ({ g with cq := { g.cq with tail := newTail }, reserved := g.reserved ++ [data] },
        .enqFill data tail g.reserved.length) := by
    intro tail newTail same
    simp [next, amcqueueAccess, same]
  by_cases same : g.cq.tail = tail
  · exact nearer_one (swaps tail newTail same) (by simp)
  · have stale : next g (.enqSwap data tail newTail) .tick = some (g, .enqRead data) := by
      simp [next, amcqueueAccess, same]
    exact .tick stale (.tick (enqRead_fires data positive)
      (.tick (swaps _ _ rfl) (.here (by simp))))

theorem nearer_deqTest (call head newHead : ℕ) : Nearer g (.deqTest call head newHead) := by
  by_cases empty : head = g.cq.tail
  · have fired : next g (.deqTest call head newHead) .tick = some (g, .deqUnlockEmpty call) := by
      simp [next, amcqueueAccess, empty]
    exact nearer_one fired (by simp)
  · have fired : next g (.deqTest call head newHead) .tick =
        some (g, .deqSwap call head newHead) := by
      simp [next, amcqueueAccess, empty]
    exact nearer_one fired (by simp)

theorem nearer_deqUnlockEmpty (call : ℕ) : Nearer g (.deqUnlockEmpty call) := by
  by_cases held : g.cq.readLock = 1
  · have fired : next g (.deqUnlockEmpty call) .tick =
        some ({ g with cq := { g.cq with readLock := 0 } }, .deqDone call none .error) := by
      simp [next, amcqueueAccess, held]
    exact nearer_one fired (by simp)
  · have fired : next g (.deqUnlockEmpty call) .tick = some (g, .deqDone call none .error) := by
      simp [next, amcqueueAccess, held]
    exact nearer_one fired (by simp)

theorem nearer_deqUnlock (call ticket : ℕ) : Nearer g (.deqUnlock call slot ticket) := by
  by_cases held : g.cq.readLock = 1
  · have fired : next g (.deqUnlock call slot ticket) .tick =
        some ({ g with cq := { g.cq with readLock := 0 } }, .deqLoad call slot ticket) := by
      simp [next, amcqueueAccess, held]
    exact nearer_one fired (by simp)
  · have fired : next g (.deqUnlock call slot ticket) .tick =
        some (g, .deqLoad call slot ticket) := by
      simp [next, amcqueueAccess, held]
    exact nearer_one fired (by simp)

theorem nearer_enqFill (data : V) (ticket : ℕ) (empty : g.cq.data slot = none) :
    Nearer g (.enqFill data slot ticket) := by
  have filled : next g (.enqFill data slot ticket) .tick =
      some ({ g with cq := { g.cq with data := Function.update g.cq.data slot (some data) } },
        .enqDone (some data) .success) := by
    simp [next, amcqueueAccess, empty]
  exact nearer_one filled (by simp)

theorem deqLoad_fires (call ticket : ℕ) {ptr : V} (full : g.cq.data slot = some ptr) :
    next g (.deqLoad call slot ticket) .tick = some (g, .deqTake call slot ticket ptr) := by
  simp [next, amcqueueAccess, full]

theorem nearer_deqTake (call ticket : ℕ) {ptr : V} (other : V) (full : g.cq.data slot = some ptr) :
    Nearer g (.deqTake call slot ticket other) := by
  have takes : next g (.deqTake call slot ticket ptr) .tick =
      some ({ g with cq := { g.cq with data := Function.update g.cq.data slot none } },
        .deqDone call (some ptr) .success) := by
    simp [next, amcqueueAccess, full]
  by_cases same : ptr = other
  · subst same
    exact nearer_one takes (by simp)
  · have lost : next g (.deqTake call slot ticket other) .tick =
        some (g, .deqLoad call slot ticket) := by
      simp [next, amcqueueAccess, full, same]
    exact .tick lost (.tick (deqLoad_fires call ticket full) (.tick takes (.here (by simp))))

end Alone

section Waiting

variable [DecidableEq V] {Tid : Type} [Fintype Tid] {c : Config Tid (Shared V) (AmcqueuePc V)}
  {slots slot : ℕ}

omit [Fintype Tid] in
theorem nearer_emptying {u : Tid} {ptr : V} (waits : (c.pc u).emptying slot = true)
    (full : c.shared.cq.data slot = some ptr) : Nearer c.shared (c.pc u) := by
  cases here : c.pc u with
  | deqUnlock call own ticket => exact nearer_deqUnlock call ticket
  | deqLoad call own ticket =>
      rw [here] at waits
      obtain rfl : own = slot := beq_iff_eq.mp waits
      exact nearer_one (deqLoad_fires call ticket full) (by simp)
  | deqTake call own ticket other =>
      rw [here] at waits
      obtain rfl : own = slot := beq_iff_eq.mp waits
      exact nearer_deqTake call ticket other full
  | _ =>
      rw [here] at waits
      cases waits

omit [Fintype Tid] in
theorem nearer_filling {u : Tid} (waits : (c.pc u).filling slot = true)
    (empty : c.shared.cq.data slot = none) : Nearer c.shared (c.pc u) := by
  cases here : c.pc u with
  | enqFill data own ticket =>
      rw [here] at waits
      obtain rfl : own = slot := beq_iff_eq.mp waits
      exact nearer_enqFill data ticket empty
  | _ =>
      rw [here] at waits
      cases waits

theorem nearer_slot (accounted : Accounted slots c) (bound : slot < slots) {t : Tid}
    (waits : (c.pc t).filling slot = true ∨ (c.pc t).emptying slot = true) :
    ∃ u, Nearer c.shared (c.pc u) := by
  have account := accounted.range slot bound
  have atMostOne : (if InRange c.shared.cq.head c.shared.cq.tail slot then 1 else 0) ≤ 1 := by
    split_ifs <;> omega
  cases cell : c.shared.cq.data slot with
  | none =>
      have occupied : Cells.occupied c.shared.cq.data slot = 0 := by simp [Cells.occupied, cell]
      have there : 0 < count (fun l : AmcqueuePc V => l.filling slot) c.pc := by
        rcases waits with fills | empties
        · exact count_pos.mpr ⟨t, fills⟩
        · have mine : 0 < count (fun l : AmcqueuePc V => l.emptying slot) c.pc :=
              count_pos.mpr ⟨t, empties⟩
          omega
      obtain ⟨u, fills⟩ := count_pos.mp there
      exact ⟨u, nearer_filling fills cell⟩
  | some ptr =>
      have occupied : Cells.occupied c.shared.cq.data slot = 1 := by simp [Cells.occupied, cell]
      have there : 0 < count (fun l : AmcqueuePc V => l.emptying slot) c.pc := by
        rcases waits with fills | empties
        · have mine : 0 < count (fun l : AmcqueuePc V => l.filling slot) c.pc :=
              count_pos.mpr ⟨t, fills⟩
          omega
        · exact count_pos.mpr ⟨t, empties⟩
      obtain ⟨u, empties⟩ := count_pos.mp there
      exact ⟨u, nearer_emptying empties cell⟩

theorem nearer_inLock (accounted : Accounted slots c) {t : Tid} (inside : (c.pc t).inLock = true) :
    Nearer c.shared (c.pc t) := by
  have checked := accounted.checked t
  cases here : c.pc t with
  | deqRead call =>
      have positive : c.shared.cq.capacity ≠ 0 := by
        have room := accounted.indexed.room
        have behind := accounted.indexed.behind
        have capacity := accounted.indexed.capacity
        omega
      have fired : next c.shared (.deqRead call) .tick =
          some (c.shared, .deqTest call c.shared.cq.head
            ((c.shared.cq.head + 1) % c.shared.cq.capacity)) := by
        simp [next, amcqueueAccess, advance, positive]
      exact nearer_one fired (by simp)
  | deqTest call head newHead => exact nearer_deqTest call head newHead
  | deqSwap call head newHead =>
      -- Under the lock `head` is still what the call has read.
      rw [here] at checked
      have fired : next c.shared (.deqSwap call head newHead) .tick =
          some ({ c.shared with
            cq := { c.shared.cq with head := newHead }, claimed := c.shared.claimed ++ [call] },
            .deqUnlock call head c.shared.claimed.length) := by
        simp [next, amcqueueAccess, checked.1]
      exact nearer_one fired (by simp)
  | deqUnlockEmpty call => exact nearer_deqUnlockEmpty call
  | deqUnlock call slot ticket => exact nearer_deqUnlock call ticket
  | _ =>
      rw [here] at inside
      cases inside

theorem exists_nearer (accounted : Accounted slots c) {t : Tid} (running : (c.pc t).ahead ≠ 0) :
    ∃ u, Nearer c.shared (c.pc u) := by
  have checked := accounted.checked t
  have capacity := accounted.indexed.capacity
  have positive : c.shared.cq.capacity ≠ 0 := by
    have room := accounted.indexed.room
    have behind := accounted.indexed.behind
    omega
  by_cases inside : (c.pc t).inLock = true
  · exact ⟨t, nearer_inLock accounted inside⟩
  · cases here : c.pc t with
    | idle =>
        rw [here] at running
        exact absurd rfl running
    | enqRead data => exact ⟨t, here ▸ nearer_one (enqRead_fires data positive) (by simp)⟩
    | enqSwap data tail newTail => exact ⟨t, here ▸ nearer_enqSwap data tail newTail positive⟩
    | enqFill data slot ticket =>
        rw [here] at checked
        exact nearer_slot accounted (lt_of_lt_of_eq checked capacity)
          (.inl (by rw [here]; exact beq_self_eq_true slot))
    | enqDone data rc => exact ⟨t, here ▸ nearer_one rfl (by simp)⟩
    | deqLock call =>
        by_cases free : c.shared.cq.readLock = 0
        · have fired : next c.shared (.deqLock call) .tick =
              some ({ c.shared with cq := { c.shared.cq with readLock := 1 } }, .deqRead call) := by
            simp [next, amcqueueAccess, free]
          exact ⟨t, here ▸ nearer_one fired (by simp)⟩
        · have held : 0 < count (fun l : AmcqueuePc V => l.inLock) c.pc := by
            rw [accounted.locked]
            exact Nat.pos_of_ne_zero free
          obtain ⟨u, theirs⟩ := count_pos.mp held
          exact ⟨u, nearer_inLock accounted theirs⟩
    | deqLoad call slot ticket =>
        rw [here] at checked
        exact nearer_slot accounted (lt_of_lt_of_eq checked capacity)
          (.inr (by rw [here]; exact beq_self_eq_true slot))
    | deqTake call slot ticket ptr =>
        rw [here] at checked
        exact nearer_slot accounted (lt_of_lt_of_eq checked capacity)
          (.inr (by rw [here]; exact beq_self_eq_true slot))
    | deqDone call out rc => exact ⟨t, here ▸ nearer_one rfl (by simp)⟩
    | _ =>
        rw [here] at inside
        exact absurd rfl inside

end Waiting

section Completion

variable {Tid : Type} [Fintype Tid]

def AmcqueuePc.reserving : AmcqueuePc V → Bool
  | .enqRead _ => true
  | .enqSwap _ _ _ => true
  | _ => false

/-- The enqueues called for fit in the queue: all that have advanced `tail` and all
that are about to. -/
def Roomy (capacity : ℕ) (c : Config Tid (Shared V) (AmcqueuePc V)) : Prop :=
  c.shared.reserved.length + count (fun l => l.reserving) c.pc ≤ c.shared.claimed.length + capacity

instance (capacity : ℕ) (c : Config Tid (Shared V) (AmcqueuePc V)) : Decidable (Roomy capacity c) :=
  inferInstanceAs (Decidable (_ ≤ _))

/-- The queue accommodates all concurrent adds, as its header demands of the clients. -/
def Accommodated (capacity : ℕ) (_ : Config Tid (Shared V) (AmcqueuePc V)) (_ : Tid × Act V)
    (c' : Config Tid (Shared V) (AmcqueuePc V)) : Prop := Roomy capacity c'

theorem move_reserving {g g' : Shared V} {pc pc' : AmcqueuePc V} (move : Move g pc g' pc')
    (running : pc ≠ .idle) :
    g'.reserved.length + (if pc'.reserving then 1 else 0) + g.claimed.length ≤
      g.reserved.length + (if pc.reserving then 1 else 0) + g'.claimed.length := by
  cases move with
  | enqNull => exact absurd rfl running
  | enqCall data => exact absurd rfl running
  | deqCall => exact absurd rfl running
  | deqRelease _ _ held after => cases after <;> exact Nat.le_refl _
  | deqUnheld _ _ free after => cases after <;> exact Nat.le_refl _
  | _ => simp [AmcqueuePc.reserving]

variable [DecidableEq V] [DecidableEq Tid] {c : Config Tid (Shared V) (AmcqueuePc V)}

theorem roomy_tick {capacity : ℕ} {act : Tid × Act V} {c' : Config Tid (Shared V) (AmcqueuePc V)}
    (roomy : Roomy capacity c) (fired : c.step next act = some c') (ticks : act.2 = .tick) :
    Roomy capacity c' := by
  obtain ⟨g, l, stepped, rfl⟩ := Config.step_eq_some.mp fired
  rw [ticks] at stepped
  have running : c.pc act.1 ≠ .idle := by
    intro idle
    rw [idle] at stepped
    cases stepped
  have change := move_reserving (next_move stepped) running
  have counted := count_update (fun l : AmcqueuePc V => l.reserving) c.pc act.1 l
  simp only [Roomy] at roomy ⊢
  omega

omit [DecidableEq V] [DecidableEq Tid] in
theorem Roomy.room {capacity : ℕ} (roomy : Roomy capacity c) :
    c.shared.reserved.length < c.shared.claimed.length + (capacity + 1) := by
  simp only [Roomy] at roomy
  omega

/-- As long as the clients keep to the capacity, all calls that are under way can return without
another call being made. -/
theorem amcqueue_completes {malloc : UInt64 → Bool} {capacity : UInt64} {cq : Amcqueue V}
    (allocated : amcqueueAlloc malloc capacity = some cq) (small : capacity.toNat + 1 < wordSize)
    {actions : List (Tid × Act V)}
    (run : Run (Config.step next) (Accommodated capacity.toNat) (start Tid cq) actions c) :
    ∃ ticks c', Run (Config.step next) (Only .tick) c ticks c' ∧
      ticks.length ≤ 24 * Fintype.card Tid ∧
      ∀ t, c'.pc t = .idle := by
  obtain rfl := alloc_empty allocated small
  let Inv (c : Config Tid (Shared V) (AmcqueuePc V)) := Accounted (capacity.toNat + 1) c ∧
    Roomy capacity.toNat c
  have stays : ∀ (c : Config Tid (Shared V) (AmcqueuePc V)) act c', Inv c →
      c.step next act = some c' →
      Roomy capacity.toNat c' → Inv c' := fun c act c' inv fired roomy =>
    ⟨accounted_step c act c' inv.1 fired roomy.room, roomy⟩
  have fresh : count (fun l : AmcqueuePc V => l.reserving) (fun _ : Tid => AmcqueuePc.idle) = 0 :=
    count_eq_zero.mpr fun _ => Bool.false_ne_true
  have initial : Inv (start Tid (⟨0, capacity.toNat + 1, 0, 0, fun _ => none⟩ : Amcqueue V)) :=
    ⟨accounted_start capacity.toNat, by simp [Roomy, start, fresh]⟩
  have inv : Inv c := run.invariant Inv initial stays
  have kept : ∀ (c : Config Tid (Shared V) (AmcqueuePc V)) act c', Inv c →
      c.step next act = some c' →
      act.2 = .tick → Inv c' := fun c act c' inv fired ticks =>
    stays c act c' inv fired (roomy_tick inv.2 fired ticks)
  obtain ⟨ticks, c', ran, short, rest⟩ := all_come_to_rest AmcqueuePc.ahead kept ahead_le
    (fun c inv t running => exists_nearer inv.1 running) inv
  refine ⟨ticks, c', ran, short, fun t => ?_⟩
  have none := rest t
  cases here : c'.pc t with
  | idle => rfl
  | _ =>
      rw [here] at none
      cases none

/-- One dequeue has the lock, another waits for it, and an enqueue has not filled its slot. -/
theorem amcqueue_completes_sample : ∃ c : Config (Fin 3) (Shared ℕ) (AmcqueuePc ℕ),
    (∀ t, c.pc t ≠ .idle) ∧ ∃ ticks c', Run (Config.step next) (Only .tick) c ticks c' ∧
      ticks.length ≤ 72 ∧
      ∀ t, c'.pc t = .idle := by
  have allocated : amcqueueAlloc
      (fun _ => true) 1 = some (⟨0, 2, 0, 0, fun _ => none⟩ : Amcqueue ℕ) := rfl
  have run : Run (Config.step next) (Accommodated 1)
      (start (Fin 3) (⟨0, 2, 0, 0, fun _ => none⟩ : Amcqueue ℕ))
      [(0, .enq (some 7)), (0, .tick), (0, .tick), (1, .deq), (1, .tick), (1, .tick), (2, .deq),
        (2, .tick)] _ :=
    run_of_runs (fun _ _ c' => decide (Roomy 1 c'))
      (fun _ _ c' checked => show Roomy 1 c' from of_decide_eq_true checked)
      rfl (by decide)
  exact ⟨_, by decide, amcqueue_completes allocated (by decide) run⟩

end Completion

section Contention

/-- What the calls read and swap: the two indices and the slots. -/
inductive Word
  | head
  | tail
  | slot (i : ℕ)

def Shared.cell (g : Shared V) : Word → ℕ ⊕ Option V
  | .head => .inl g.cq.head
  | .tail => .inl g.cq.tail
  | .slot i => .inr (g.cq.data i)

def AmcqueuePc.view : AmcqueuePc V → Option (Word × (ℕ ⊕ Option V))
  | .enqSwap _ tail _ => some (.tail, .inl tail)
  | .deqTest _ head _ => some (.head, .inl head)
  | .deqSwap _ head _ => some (.head, .inl head)
  | .deqTake _ slot _ ptr => some (.slot slot, .inr (some ptr))
  | _ => none

variable [DecidableEq V]

/-- An enqueue waits while its slot is full, a dequeue while the lock is taken or
its slot is empty. -/
def effort (g : Shared V) : AmcqueuePc V → Act V → Effort
  | _, .enq _ => .call
  | _, .deq => .call
  | .enqSwap _ tail _, .tick => if g.cq.tail = tail then .swap else .retry
  | .enqFill _ slot _, .tick => if g.cq.data slot = none then .swap else .wait
  | .deqLock _, .tick => if g.cq.readLock = 0 then .access else .wait
  | .deqSwap _ head _, .tick => if g.cq.head = head then .swap else .retry
  | .deqLoad _ slot _, .tick => if g.cq.data slot = none then .wait else .access
  | .deqTake _ slot _ ptr, .tick => if g.cq.data slot = some ptr then .swap else .retry
  | _, .tick => .access

theorem tick_contends {g g' : Shared V} {pc l : AmcqueuePc V}
    (fired : next g pc .tick = some (g', l)) :
    Contends Shared.cell AmcqueuePc.view AmcqueuePc.ahead 8 3 g pc g' l (effort g pc .tick) := by
  have moved := next_move fired
  cases moved with
  | enqNull => cases fired
  | enqCall data => cases fired
  | deqCall => cases fired
  | enqRead data positive =>
      refine .access rfl ?_ (by simp)
      rintro _ _ ⟨⟩
      exact .inr rfl
  | enqReserve data newTail =>
      have same : effort g (.enqSwap data g.cq.tail newTail) .tick = .swap := if_pos rfl
      rw [same]
      exact .swap rfl (by simp)
  | enqRetry data tail newTail stale =>
      have other : effort g (.enqSwap data tail newTail) .tick = .retry := if_neg stale
      rw [other]
      exact .retry .tail (.inl tail) rfl rfl (by simp [Shared.cell, stale]) rfl (by simp)
  | enqStore data slot ticket empty =>
      have fills : effort g (.enqFill data slot ticket) .tick = .swap := if_pos empty
      rw [fills]
      exact .swap rfl (by simp)
  | enqWait data slot ticket full =>
      have waits : effort g (.enqFill data slot ticket) .tick = .wait := if_neg full
      rw [waits]
      exact .wait rfl rfl (Nat.le_refl _)
  | enqReturn data rc => exact .access rfl (by simp [AmcqueuePc.view]) (by simp)
  | deqLock call free =>
      have locks : effort g (.deqLock call) .tick = .access := if_pos free
      rw [locks]
      exact .access rfl (by simp [AmcqueuePc.view]) (by simp)
  | deqSpin call held =>
      have spins : effort g (.deqLock call) .tick = .wait := if_neg held
      rw [spins]
      exact .wait rfl rfl (Nat.le_refl _)
  | deqRead call positive =>
      refine .access rfl ?_ (by simp)
      rintro _ _ ⟨⟩
      exact .inr rfl
  | deqEmpty call head newHead empty => exact .access rfl (by simp [AmcqueuePc.view]) (by simp)
  | deqNonempty call head newHead nonempty =>
      exact .access rfl (fun _ _ read => .inl read) (by simp)
  | deqClaim call newHead =>
      have same : effort g (.deqSwap call g.cq.head newHead) .tick = .swap := if_pos rfl
      rw [same]
      exact .swap rfl (by simp)
  | deqRetry call head newHead stale =>
      have other : effort g (.deqSwap call head newHead) .tick = .retry := if_neg stale
      rw [other]
      exact .retry .head (.inl head) rfl rfl (by simp [Shared.cell, stale]) rfl (by simp)
  | deqRelease _ _ held after =>
      cases after <;> exact .access rfl (by simp [AmcqueuePc.view]) (by simp)
  | deqUnheld _ _ free after =>
      cases after <;> exact .access rfl (by simp [AmcqueuePc.view]) (by simp)
  | deqWait call slot ticket empty =>
      have waits : effort g (.deqLoad call slot ticket) .tick = .wait := if_pos empty
      rw [waits]
      exact .wait rfl rfl (Nat.le_refl _)
  | deqLoad call slot ticket ptr full =>
      have loads : effort g (.deqLoad call slot ticket) .tick = .access := if_neg (by simp [full])
      rw [loads]
      refine .access rfl ?_ (by simp)
      rintro _ _ ⟨⟩
      exact .inr (by simp [Shared.cell, full])
  | deqTake call slot ticket ptr full =>
      have takes : effort g (.deqTake call slot ticket ptr) .tick = .swap := if_pos full
      rw [takes]
      exact .swap rfl (by simp)
  | deqLost call slot ticket ptr changed =>
      have other : effort g (.deqTake call slot ticket ptr) .tick = .retry := if_neg changed
      rw [other]
      exact .retry (.slot slot) (.inr (some ptr)) rfl rfl
        (by simp [Shared.cell, changed]) rfl (by simp)
  | deqReturn call out rc => exact .access rfl (by simp [AmcqueuePc.view]) (by simp)

theorem next_contends (g : Shared V) (pc : AmcqueuePc V) (a : Act V) (g' : Shared V)
    (l : AmcqueuePc V) (fired : next g pc a = some (g', l)) :
    Contends Shared.cell AmcqueuePc.view AmcqueuePc.ahead 8 3 g pc g' l (effort g pc a) := by
  cases a with
  | enq data =>
      simp only [next] at fired
      split at fired
      · cases data <;> cases fired <;> exact .call rfl rfl (by simp)
      · cases fired
  | deq =>
      simp only [next] at fired
      split at fired
      · cases fired
        exact .call rfl rfl (by simp)
      · cases fired
  | tick => exact tick_contends fired

variable {Tid : Type} [DecidableEq Tid]

/-- Apart from its waits for the lock and for a slot, a thread makes eight accesses for a
call and three for each swap of another thread, and it repeats no swap that no other thread
has forestalled. -/
theorem amcqueue_accesses {c c' : Config Tid (Shared V) (AmcqueuePc V)} {t : Tid}
    (idle : c.pc t = .idle) {actions : List (Tid × Act V)}
    (run : Run (Config.step next) Any c actions c') :
    let events := history next (fun g pc a => some (effort g pc a)) c actions
    retries t events ≤ swapsOfOthers t events ∧
    spent t events ≤ 8 * calls t events + 3 * swapsOfOthers t events :=
  spent_le effort next_contends (by rw [idle]; rfl) (by rw [idle]; rfl) run

/-- An enqueue loses its swap of `tail` to another one. -/
theorem amcqueue_accesses_sample : ∃ events : List (Fin 2 × Effort), retries 0 events = 1 ∧
    spent 0 events = 6 ∧
    retries 0 events ≤ swapsOfOthers 0 events ∧
    spent 0 events ≤ 8 * calls 0 events + 3 * swapsOfOthers 0 events := by
  have run : Run (Config.step next) Any (start (Fin 2) (⟨0, 3, 0, 0, fun _ => none⟩ : Amcqueue ℕ))
      [(0, .enq (some 7)), (0, .tick), (1, .enq (some 8)), (1, .tick), (1, .tick), (0, .tick),
        (0, .tick), (0, .tick), (0, .tick), (0, .tick)] _ := run_any rfl
  refine ⟨_, ?_, ?_, amcqueue_accesses (t := 0) rfl run⟩
  · rfl
  · rfl

end Contention

end Libam.CQueue
