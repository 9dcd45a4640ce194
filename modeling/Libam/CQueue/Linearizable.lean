import Libam.Concurrency.Linearizable
import Libam.CQueue.Fifo

/-! With one consumer the circular queue is linearizable, whatever the number of producers:
every call takes effect at one moment between its call and its return, on a first-in
first-out queue. An enqueue does so when it advances `tail`, a dequeue when it advances
`head` or finds the two equal. -/

namespace Libam.CQueue

open Libam.Interleaving Libam.History Libam.TicketRing

variable {V : Type}

section Object

inductive Op (V : Type)
  | enq (data : Option V)
  | deq
  deriving DecidableEq, Repr

inductive Result (V : Type)
  | enqueued (rc : Amrc)
  | dequeued (out : Option V)
  deriving DecidableEq, Repr

/-- The first-in first-out queue that the header promises; NULL cannot be enqueued. -/
def fifoObject : Object (List V) (Op V) (Result V) where
  init := []
  apply
    | values, .enq none => (values, .enqueued .error)
    | values, .enq (some data) => (values ++ [data], .enqueued .success)
    | [], .deq => ([], .dequeued none)
    | first :: rest, .deq => (rest, .dequeued (some first))

def see (_ : Shared V) : AmcqueuePc V → Act V → Option (Seen (Op V) (Result V))
  | .idle, .enq data => some (.call (.enq data))
  | .idle, .deq => some (.call .deq)
  | .enqDone _ rc, .tick => some (.ret (.enqueued rc))
  | .deqDone _ out _, .tick => some (.ret (.dequeued out))
  | _, _ => none

/-- Whether a call has had its effect. What a dequeue will return is the value of its ticket. -/
def AmcqueuePc.status (g : Shared V) : AmcqueuePc V → Status (Op V) (Result V)
  | .idle => .idle
  | .enqRead data => .called (.enq (some data))
  | .enqSwap data _ _ => .called (.enq (some data))
  | .enqFill _ _ _ => .done (.enqueued .success)
  | .enqDone _ rc => .done (.enqueued rc)
  | .deqLock _ => .called .deq
  | .deqRead _ => .called .deq
  | .deqTest _ _ _ => .called .deq
  | .deqSwap _ _ _ => .called .deq
  | .deqUnlockEmpty _ => .done (.dequeued none)
  | .deqUnlock _ _ ticket => .done (.dequeued g.reserved[ticket]?)
  | .deqLoad _ _ ticket => .done (.dequeued g.reserved[ticket]?)
  | .deqTake _ _ ticket _ => .done (.dequeued g.reserved[ticket]?)
  | .deqDone _ out _ => .done (.dequeued out)

def Shared.values (g : Shared V) : List V := g.reserved.drop g.claimed.length

end Object

section Consumer

variable {Tid : Type} {slots : ℕ} {g g' : Shared V} {pc pc' : AmcqueuePc V}

def AmcqueuePc.dequeues : AmcqueuePc V → Bool
  | .deqLock _ => true
  | .deqRead _ => true
  | .deqTest _ _ _ => true
  | .deqSwap _ _ _ => true
  | .deqUnlockEmpty _ => true
  | .deqUnlock _ _ _ => true
  | .deqLoad _ _ _ => true
  | .deqTake _ _ _ _ => true
  | .deqDone _ _ _ => true
  | _ => false

/-- Only one thread dequeues, and the ticket that it holds is the last one of its side. -/
structure Single (consumer : Tid) (c : Config Tid (Shared V) (AmcqueuePc V)) : Prop where
  others : ∀ t, t ≠ consumer → (c.pc t).dequeues = false
  last : ∀ slot k, (c.pc consumer).takeTicket = some (slot, k) → k + 1 = c.shared.claimed.length

theorem takeTicket_dequeues {slot k : ℕ} (holds : pc.takeTicket = some (slot, k)) :
    pc.dequeues = true := by
  cases pc <;> first | rfl | cases holds

theorem move_claimed (move : Move g pc g' pc') (producer : pc.dequeues = false) :
    g'.claimed = g.claimed := by
  cases move with
  | deqRelease _ _ held after => cases after <;> cases producer
  | _ => first | rfl | cases producer

theorem move_last (move : Move g pc g' pc')
    (last : ∀ slot k, pc.takeTicket = some (slot, k) → k + 1 = g.claimed.length) (slot k : ℕ)
    (holds : pc'.takeTicket = some (slot, k)) : k + 1 = g'.claimed.length := by
  cases move with
  | deqClaim call newHead =>
      cases holds
      simp
  | deqRelease _ _ held after =>
      cases after with
      | empty call => cases holds
      | claimed call slot ticket => exact last _ _ holds
  | deqUnheld _ _ free after =>
      cases after with
      | empty call => cases holds
      | claimed call slot ticket => exact last _ _ holds
  | deqWait call slot ticket empty => exact last _ _ holds
  | deqLoad call slot ticket ptr full => exact last _ _ holds
  | deqLost call slot ticket ptr changed => exact last _ _ holds
  | _ => cases holds

theorem next_producer [DecidableEq V] {a : Act V} (fired : next g pc a = some (g', pc'))
    (producer : pc.dequeues = false) (calls : a ≠ .deq) : pc'.dequeues = false := by
  cases a with
  | deq => exact absurd rfl calls
  | enq data =>
      simp only [next] at fired
      split at fired
      · cases data <;> cases fired <;> rfl
      · cases fired
  | tick =>
      have move := next_move fired
      cases move with
      | deqCall =>
          simp only [next, amcqueueAccess, reduceCtorEq] at fired
      | deqRelease _ _ held after => cases after <;> cases producer
      | deqUnheld _ _ free after => cases after <;> cases producer
      | _ => first | rfl | cases producer

variable [DecidableEq V] [DecidableEq Tid]

theorem single_step {consumer : Tid} {c c' : Config Tid (Shared V) (AmcqueuePc V)}
    {act : Tid × Act V} (single : Single consumer c) (fired : c.step next act = some c')
    (calls : act.2 = .deq → act.1 = consumer) : Single consumer c' := by
  obtain ⟨g, l, stepped, rfl⟩ := Config.step_eq_some.mp fired
  have move := next_move stepped
  by_cases own : act.1 = consumer
  · constructor
    · intro t other
      simp only
      rw [Function.update_of_ne (own ▸ other)]
      exact single.others t other
    · intro slot k holds
      simp only at holds
      rw [own, Function.update_self] at holds
      exact move_last (own ▸ move) single.last slot k holds
  · have producer := single.others act.1 own
    constructor
    · intro t other
      simp only
      by_cases here : t = act.1
      · rw [here, Function.update_self]
        exact next_producer stepped producer fun deq => own (calls deq)
      · rw [Function.update_of_ne here]
        exact single.others t other
    · intro slot k holds
      simp only at holds
      rw [Function.update_of_ne fun same => own same.symm] at holds
      rw [move_claimed move producer]
      exact single.last slot k holds

omit [DecidableEq V] [DecidableEq Tid] in
theorem eq_of_window {n j k : ℕ} (low : ℕ) (lowJ : low ≤ j) (lowK : low ≤ k) (highJ : j < low + n)
    (highK : k < low + n) (same : j % n = k % n) : j = k := by
  rcases Nat.lt_trichotomy j k with less | equal | more
  · exact absurd same.symm (mod_ne_of_close less (by omega))
  · exact equal
  · exact absurd same (mod_ne_of_close more (by omega))

omit [DecidableEq V] [DecidableEq Tid] in
theorem single_inTurn {consumer : Tid} {c : Config Tid (Shared V) (AmcqueuePc V)}
    (single : Single consumer c) (served : Served slots c)
    (room : c.shared.reserved.length < c.shared.claimed.length + slots) (t : Tid) : InTurn c t := by
  obtain ⟨cell, ordered, -⟩ := served.cells
  -- A ticket that waits to be filled is at most one behind those that the consumer has taken.
  have waits : ∀ u slot k, (c.pc u).fillTicket = some (slot, k) →
      slot = k % slots ∧ k < c.shared.reserved.length ∧ c.shared.claimed.length ≤ k + 1 := by
    intro u slot k holds
    obtain ⟨place, bound⟩ := fillTicket_ticketed (served.calls u) holds
    refine ⟨place, bound, ?_⟩
    by_contra behind
    have taken : (ring c cell).Taken k := by
      refine ⟨by simp only [ring]; omega, ?_⟩
      rintro ⟨w, slot', theirs⟩
      by_cases own : w = consumer
      · have last := single.last slot' k (own ▸ theirs)
        omega
      · have inside := takeTicket_dequeues theirs
        rw [single.others w own] at inside
        cases inside
    exact (ordered.takenFilled k taken).2 ⟨u, slot, holds⟩
  constructor
  · intro data slot ticket here _ u other holds
    obtain ⟨place, bound, near⟩ := waits t slot ticket (by rw [here]; rfl)
    obtain ⟨place', bound', near'⟩ := waits u slot other holds
    have same : ticket = other :=
      eq_of_window (c.shared.claimed.length - 1) (by omega) (by omega) (by omega) (by omega)
        (place.symm.trans place')
    exact same.le
  · intro call slot ticket ptr here _ u other holds
    have mine : t = consumer := by
      by_contra apart
      have outside := single.others t apart
      rw [here] at outside
      cases outside
    have theirs : u = consumer := by
      by_contra apart
      have outside := single.others u apart
      rw [takeTicket_dequeues holds] at outside
      cases outside
    rw [theirs, ← mine, here] at holds
    cases holds
    exact Nat.le_refl _

end Consumer

section Linearizable

variable [DecidableEq V] {Tid : Type} [Fintype Tid] [DecidableEq Tid] {slots : ℕ}

structure Shows (slots : ℕ) (consumer : Tid) (c : Config Tid (Shared V) (AmcqueuePc V))
    (values : List V) : Prop where
  accounted : Accounted slots c
  served : Served slots c
  single : Single consumer c
  between : c.shared.values = values

/-- Only the consumer dequeues, and reservations keep within the capacity. -/
def OneConsumer (capacity : ℕ) (consumer : Tid) (c : Config Tid (Shared V) (AmcqueuePc V))
    (act : Tid × Act V) (c' : Config Tid (Shared V) (AmcqueuePc V)) : Prop :=
  WithinCapacity capacity c act c' ∧ (act.2 = .deq → act.1 = consumer)

instance (capacity : ℕ) (consumer : Tid) (c : Config Tid (Shared V) (AmcqueuePc V))
    (act : Tid × Act V) (c' : Config Tid (Shared V) (AmcqueuePc V)) :
    Decidable (OneConsumer capacity consumer c act c') :=
  inferInstanceAs (Decidable
    (c'.shared.reserved.length ≤ c'.shared.claimed.length + capacity ∧
      (act.2 = .deq → act.1 = consumer)))

omit [DecidableEq V] in
theorem status_kept {g g' : Shared V} {pc pc' other : AmcqueuePc V} (move : Move g pc g' pc')
    (ticketed : other.Ticketed slots g) (behind : g.claimed.length ≤ g.reserved.length) :
    other.status g' = other.status g := by
  have kept : ∀ k : ℕ, k < g.claimed.length → g'.reserved[k]? = g.reserved[k]? := by
    intro k bound
    have inside : k < g.reserved.length := by omega
    rw [List.getElem?_eq_getElem inside]
    exact (move_records move).1 k _ (List.getElem?_eq_getElem inside)
  cases other with
  | deqUnlock call slot ticket =>
      simp only [AmcqueuePc.status, kept ticket (List.getElem?_eq_some_iff.mp ticketed.2).1]
  | deqLoad call slot ticket =>
      simp only [AmcqueuePc.status, kept ticket (List.getElem?_eq_some_iff.mp ticketed.2).1]
  | deqTake call slot ticket ptr =>
      simp only [AmcqueuePc.status, kept ticket (List.getElem?_eq_some_iff.mp ticketed.2).1]
  | _ => rfl

omit [DecidableEq V] in
theorem Indexed.empty {g : Shared V} (indexed : Indexed slots g) (same : g.cq.head = g.cq.tail) :
    g.values = [] := by
  rcases indexed.behind.eq_or_lt with equal | less
  · rw [Shared.values, equal, List.drop_length]
  · rw [indexed.head, indexed.tail] at same
    exact absurd same.symm (mod_ne_of_close less indexed.room)

omit [Fintype Tid] [DecidableEq Tid] in
theorem access_explained {c : Config Tid (Shared V) (AmcqueuePc V)} {t : Tid} {g : Shared V}
    {l : AmcqueuePc V} (indexed : Indexed slots c.shared) (checked : (c.pc t).Checked c.shared)
    (served : Served slots c) (turn : InTurn c t)
    (fired : next c.shared (c.pc t) .tick = some (g, l)) :
    Explains fifoObject c.shared.values ((c.pc t).status c.shared)
      (see c.shared (c.pc t) .tick) g.values
      (l.status g) := by
  have moved := next_move fired
  have own : ∀ call slot ticket ptr, c.pc t = .deqTake call slot ticket ptr →
      c.shared.cq.data slot = some ptr →
      c.shared.reserved[ticket]? = some ptr := fun _ _ _ _ => served_own served turn
  have behind := indexed.behind
  generalize c.pc t = pc at moved fired checked own
  cases moved with
  | enqNull => cases fired
  | enqCall data => cases fired
  | deqCall => cases fired
  | enqReserve data newTail =>
      have grown : Shared.values
          { c.shared with
            cq := { c.shared.cq with tail := newTail }
            reserved := c.shared.reserved ++ [data] } =
          c.shared.values ++ [data] := List.drop_append_of_le_length behind
      rw [grown]
      exact .effect c.shared.values (Op.enq (some data))
  | enqReturn data rc => exact .ret _ _
  | deqEmpty call head newHead same =>
      rw [indexed.empty (checked.1.symm.trans same)]
      exact .effect [] Op.deq
  | deqClaim call newHead =>
      have inside := checked.2.2
      have first : c.shared.values = c.shared.reserved[c.shared.claimed.length] ::
          c.shared.reserved.drop (c.shared.claimed.length + 1) := List.drop_eq_getElem_cons inside
      have rest : Shared.values
          { c.shared with
            cq := { c.shared.cq with head := newHead }
            claimed := c.shared.claimed ++ [call] } =
          c.shared.reserved.drop (c.shared.claimed.length + 1) := by
        simp [Shared.values]
      have owed : c.shared.reserved[c.shared.claimed.length]? =
          some c.shared.reserved[c.shared.claimed.length] := List.getElem?_eq_getElem inside
      rw [first, rest]
      simp only [AmcqueuePc.status, owed]
      exact .effect _ Op.deq
  | deqRelease _ _ held after => cases after <;> exact .quiet _ _
  | deqUnheld _ _ free after => cases after <;> exact .quiet _ _
  | deqTake call slot ticket ptr full =>
      simp only [AmcqueuePc.status, own call slot ticket ptr rfl full]
      exact .quiet _ _
  | deqReturn call out rc => exact .ret _ _
  | _ => exact .quiet _ _

omit [Fintype Tid] [DecidableEq Tid] in
theorem next_explained {c : Config Tid (Shared V) (AmcqueuePc V)} {t : Tid} {a : Act V}
    {g : Shared V} {l : AmcqueuePc V} (indexed : Indexed slots c.shared)
    (checked : (c.pc t).Checked c.shared) (served : Served slots c) (turn : InTurn c t)
    (fired : next c.shared (c.pc t) a = some (g, l)) :
    Explains fifoObject c.shared.values ((c.pc t).status c.shared)
      (see c.shared (c.pc t) a) g.values
      (l.status g) := by
  cases a with
  | enq data =>
      simp only [next] at fired
      split at fired
      · rename_i idle
        rw [idle]
        cases data with
        | none =>
            cases fired
            exact .callEffect c.shared.values (Op.enq none)
        | some data =>
            cases fired
            exact .call c.shared.values (Op.enq (some data))
      · cases fired
  | deq =>
      simp only [next] at fired
      split at fired
      · rename_i idle
        rw [idle]
        cases fired
        exact .call c.shared.values Op.deq
      · cases fired
  | tick => exact access_explained indexed checked served turn fired

/-- Every interleaving of enqueues of any threads and dequeues of one, with reservations that
keep within the capacity, is seen by its clients as calls on a first-in first-out queue, one
after the other. -/
theorem amcqueue_linearizable {malloc : UInt64 → Bool} {capacity : UInt64} {cq : Amcqueue V}
    (allocated : amcqueueAlloc malloc capacity = some cq) (small : capacity.toNat + 1 < wordSize)
    {consumer : Tid} {actions : List (Tid × Act V)} {c : Config Tid (Shared V) (AmcqueuePc V)}
    (run : Run (Config.step next) (OneConsumer capacity.toNat consumer) (start Tid cq) actions c) :
    Linearizable fifoObject (history next see (start Tid cq) actions) := by
  obtain rfl := alloc_empty allocated small
  apply linearizable_run (Shows (capacity.toNat + 1) consumer) (fun g l => l.status g) ?_
    (fun _ => rfl) ?_ run
  · refine ⟨accounted_start capacity.toNat, served_start _, ⟨fun _ _ => rfl, ?_⟩, rfl⟩
    intro slot k holds
    cases holds
  · intro c act g l values shows stepped allowed
    obtain ⟨accounted, served, single, rfl⟩ := shows
    have fired : c.step next act = some ⟨g, Function.update c.pc act.1 l⟩ :=
      Config.step_eq_some.mpr ⟨g, l, stepped, rfl⟩
    have room : g.reserved.length < g.claimed.length + (capacity.toNat + 1) := by
      have within := allowed.1
      simp only [WithinCapacity] at within
      omega
    have turn := single_inTurn single served accounted.indexed.room act.1
    have move := next_move stepped
    refine ⟨fun u _ => status_kept move (served.calls u) accounted.indexed.behind, g.values, ?_, ?_⟩
    · exact ⟨accounted_step c act _ accounted fired room, served_move served turn move,
        single_step single fired allowed.2, rfl⟩
    · exact next_explained accounted.indexed (accounted.checked act.1) served turn stepped

/-- The consumer advances `head` before the producer has stored its value. -/
theorem amcqueue_linearizable_sample : Linearizable fifoObject
    [((0 : Fin 3), .call (.enq (some 7))), (1, .call .deq), (2, .call (.enq (some 8))),
      (2, .ret (.enqueued .success)), (0, .ret (.enqueued .success)),
      (1, .ret (.dequeued (some 7)))] := by
  have allocated : amcqueueAlloc (fun _ => true) 2 =
    some (⟨0, 3, 0, 0, fun _ => none⟩ : Amcqueue ℕ) := rfl
  have run : Run (Config.step next) (OneConsumer 2 1)
      (start (Fin 3) (⟨0, 3, 0, 0, fun _ => none⟩ : Amcqueue ℕ))
      ((0, .enq (some 7)) :: List.replicate 2 (0, .tick) ++ (1, .deq) :: List.replicate
        5 (1, .tick) ++
        (2, .enq (some 8)) :: List.replicate 4 (2, .tick) ++ List.replicate 2 (0, .tick) ++
        List.replicate 3 (1, .tick)) _ :=
    run_of_runs (fun c act c' => decide (OneConsumer 2 1 c act c'))
      (fun _ _ _ checked => of_decide_eq_true checked) rfl (by decide)
  exact amcqueue_linearizable allocated (by decide) run

end Linearizable

end Libam.CQueue
