import Libam.CQueue.Model
import Libam.Concurrency.TicketRing

/-! The tickets of the circular queue: which call reserved which slot, and when it is served. -/

namespace Libam.CQueue

open Libam.Interleaving Libam.TicketRing

variable {V : Type}

def AmcqueuePc.fillTicket : AmcqueuePc V → Option (ℕ × ℕ)
  | .enqFill _ slot ticket => some (slot, ticket)
  | _ => none

def AmcqueuePc.takeTicket : AmcqueuePc V → Option (ℕ × ℕ)
  | .deqUnlock _ slot ticket => some (slot, ticket)
  | .deqLoad _ slot ticket => some (slot, ticket)
  | .deqTake _ slot ticket _ => some (slot, ticket)
  | _ => none

def AmcqueuePc.Ticketed (slots : ℕ) (g : Shared V) : AmcqueuePc V → Prop
  | .enqSwap _ tail newTail => newTail = (tail + 1) % slots
  | .enqFill data slot ticket => slot = ticket % slots ∧ g.reserved[ticket]? = some data
  | .deqTest _ head newHead => newHead = (head + 1) % slots
  | .deqSwap _ head newHead => newHead = (head + 1) % slots
  | .deqUnlock call slot ticket => slot = ticket % slots ∧ g.claimed[ticket]? = some call
  | .deqLoad call slot ticket => slot = ticket % slots ∧ g.claimed[ticket]? = some call
  | .deqTake call slot ticket _ => slot = ticket % slots ∧ g.claimed[ticket]? = some call
  | .deqDone call (some data) _ =>
      ∃ ticket : ℕ, g.reserved[ticket]? = some data ∧ g.claimed[ticket]? = some call
  | _ => True

def tickets {Tid L : Type} (held : L → Option (ℕ × ℕ)) (pc : Tid → L) : Set ℕ :=
  {k | ∃ t slot, held (pc t) = some (slot, k)}

def ring {Tid : Type} (c : Config Tid (Shared V) (AmcqueuePc V)) (cell : ℕ → Option ℕ) : Ring where
  reserved := c.shared.reserved.length
  claimed := c.shared.claimed.length
  filling := tickets AmcqueuePc.fillTicket c.pc
  taking := tickets AmcqueuePc.takeTicket c.pc
  cell := cell

/-- The thread does not overtake a call that reserved the same slot before it: it fills a slot
only as the oldest enqueue that waits for it, and empties one only as the oldest dequeue. -/
def InTurn {Tid : Type} (c : Config Tid (Shared V) (AmcqueuePc V)) (t : Tid) : Prop :=
  (∀ data slot ticket, c.pc t = .enqFill data slot ticket → c.shared.cq.data slot = none →
    ∀ u other, (c.pc u).fillTicket = some (slot, other) → ticket ≤ other) ∧
  (∀ call slot ticket ptr, c.pc t = .deqTake call slot ticket ptr →
    c.shared.cq.data slot = some ptr →
    ∀ u other, (c.pc u).takeTicket = some (slot, other) → ticket ≤ other)

section Tickets

variable {Tid L : Type} [DecidableEq Tid] {held : L → Option (ℕ × ℕ)} {pc : Tid → L} {t : Tid}
  {l : L}

theorem tickets_same (same : held l = held (pc t)) :
    tickets held (Function.update pc t l) = tickets held pc := by
  have pointwise (u : Tid) : held (Function.update pc t l u) = held (pc u) :=
    update_kept held same u
  simp only [tickets, pointwise]

theorem tickets_insert {slot k : ℕ} (before : held (pc t) = none)
    (after : held l = some (slot, k)) :
    tickets held (Function.update pc t l) = insert k (tickets held pc) := by
  ext j
  simp only [tickets, Set.mem_ofPred_eq, Set.mem_insert_iff]
  constructor
  · rintro ⟨u, s, holds⟩
    by_cases here : u = t
    · subst here
      rw [Function.update_self, after] at holds
      cases holds
      exact .inl rfl
    · rw [Function.update_of_ne here] at holds
      exact .inr ⟨u, s, holds⟩
  · rintro (rfl | ⟨u, s, holds⟩)
    · exact ⟨t, slot, by rwa [Function.update_self]⟩
    · have elsewhere : u ≠ t := by
        rintro rfl
        rw [before] at holds
        cases holds
      exact ⟨u, s, by rwa [Function.update_of_ne elsewhere]⟩

theorem tickets_remove {slot k : ℕ} (before : held (pc t) = some (slot, k))
    (after : held l = none) (once : ∀ u s, held (pc u) = some (s, k) → u = t) :
    tickets held (Function.update pc t l) = tickets held pc \ {k} := by
  ext j
  simp only [tickets, Set.mem_ofPred_eq, Set.mem_sdiff, Set.mem_singleton_iff]
  constructor
  · rintro ⟨u, s, holds⟩
    by_cases here : u = t
    · subst here
      rw [Function.update_self, after] at holds
      cases holds
    · rw [Function.update_of_ne here] at holds
      refine ⟨⟨u, s, holds⟩, ?_⟩
      rintro rfl
      exact here (once u s holds)
  · rintro ⟨⟨u, s, holds⟩, other⟩
    have elsewhere : u ≠ t := by
      rintro rfl
      rw [before] at holds
      cases holds
      exact other rfl
    exact ⟨u, s, by rwa [Function.update_of_ne elsewhere]⟩

def Once (held : L → Option (ℕ × ℕ)) (pc : Tid → L) : Prop :=
  ∀ t u slot slot' k, held (pc t) = some (slot, k) → held (pc u) = some (slot', k) → t = u

theorem once_update (once : Once held pc)
    (fresh : ∀ slot k, held l = some (slot, k) → held (pc t) = some (slot, k) ∨
      k ∉ tickets held pc) :
    Once held (Function.update pc t l) := by
  have alone : ∀ t u k, (∃ slot, held (pc t) = some (slot, k)) →
      (∃ slot, held (pc u) = some (slot, k)) → t = u := by
    rintro t u k ⟨slot, first⟩ ⟨slot', second⟩
    exact once t u slot slot' k first second
  intro u v slot slot' k first second
  refine alone_update (fun l k => ∃ slot, held l = some (slot, k)) alone ?_ u v k ⟨slot, first⟩
    ⟨slot', second⟩
  rintro k ⟨slot, here⟩ u other ⟨slot', there⟩
  rcases fresh slot k here with same | new
  · exact other (once u t slot' slot k there same)
  · exact new ⟨u, slot', there⟩

end Tickets

section Moves

variable {slots : ℕ} {g g' : Shared V} {pc pc' : AmcqueuePc V}

structure Still (g : Shared V) (pc : AmcqueuePc V) (g' : Shared V) (pc' : AmcqueuePc V) : Prop where
  data : g'.cq.data = g.cq.data
  reserved : g'.reserved = g.reserved
  claimed : g'.claimed = g.claimed
  fillTicket : pc'.fillTicket = pc.fillTicket
  takeTicket : pc'.takeTicket = pc.takeTicket

theorem move_cases (move : Move g pc g' pc') :
    Still g pc g' pc' ∨
    (∃ data newTail, pc = .enqSwap data g.cq.tail newTail ∧
      pc' = .enqFill data g.cq.tail g.reserved.length ∧
      g' = { g with cq := { g.cq with tail := newTail }, reserved := g.reserved ++ [data] }) ∨
    (∃ data slot ticket, pc = .enqFill data slot ticket ∧ pc' = .enqDone (some data) .success ∧
      g.cq.data slot = none ∧
      g' = { g with cq := { g.cq with data := Function.update g.cq.data slot (some data) } }) ∨
    (∃ call newHead, pc = .deqSwap call g.cq.head newHead ∧
      pc' = .deqUnlock call g.cq.head g.claimed.length ∧
      g' = { g with cq := { g.cq with head := newHead }, claimed := g.claimed ++ [call] }) ∨
    (∃ call slot ticket ptr, pc = .deqTake call slot ticket ptr ∧
      pc' = .deqDone call (some ptr) .success ∧ g.cq.data slot = some ptr ∧
      g' = { g with cq := { g.cq with data := Function.update g.cq.data slot none } }) := by
  cases move
  case enqReserve data newTail => exact .inr (.inl ⟨data, newTail, rfl, rfl, rfl⟩)
  case enqStore data slot ticket empty =>
    exact .inr (.inr (.inl ⟨data, slot, ticket, rfl, rfl, empty, rfl⟩))
  case deqClaim call newHead => exact .inr (.inr (.inr (.inl ⟨call, newHead, rfl, rfl, rfl⟩)))
  case deqTake call slot ticket ptr full =>
    exact .inr (.inr (.inr (.inr ⟨call, slot, ticket, ptr, rfl, rfl, full, rfl⟩)))
  case deqRelease held after => cases after <;> exact .inl ⟨rfl, rfl, rfl, rfl, rfl⟩
  case deqUnheld free after => cases after <;> exact .inl ⟨rfl, rfl, rfl, rfl, rfl⟩
  all_goals exact .inl ⟨rfl, rfl, rfl, rfl, rfl⟩

structure Counted (slots : ℕ) (g : Shared V) : Prop where
  capacity : g.cq.capacity = slots
  head : g.cq.head = g.claimed.length % slots
  tail : g.cq.tail = g.reserved.length % slots

theorem move_counted (move : Move g pc g' pc') (counted : Counted slots g)
    (ticketed : pc.Ticketed slots g) : Counted slots g' := by
  obtain ⟨capacity, head, tail⟩ := counted
  cases move
  case enqReserve data newTail =>
    simp only [AmcqueuePc.Ticketed] at ticketed
    refine ⟨capacity, head, ?_⟩
    simp [ticketed, tail]
  case deqClaim call newHead =>
    simp only [AmcqueuePc.Ticketed] at ticketed
    refine ⟨capacity, ?_, tail⟩
    simp [ticketed, head]
  all_goals exact ⟨capacity, head, tail⟩

theorem move_records (move : Move g pc g' pc') :
    (∀ (k : ℕ) v, g.reserved[k]? = some v → g'.reserved[k]? = some v) ∧
    ∀ (k : ℕ) call, g.claimed[k]? = some call → g'.claimed[k]? = some call := by
  have grows {α : Type} (l : List α) (a : α) (k : ℕ) (v : α) (found : l[k]? = some v) :
      (l ++ [a])[k]? = some v := by
    rw [List.getElem?_append_left (List.getElem?_eq_some_iff.mp found).1, found]
  cases move
  case enqReserve data newTail => exact ⟨grows _ data, fun _ _ found => found⟩
  case deqClaim call newHead => exact ⟨fun _ _ found => found, grows _ call⟩
  all_goals exact ⟨fun _ _ found => found, fun _ _ found => found⟩

theorem ticketed_grows {other : AmcqueuePc V} (move : Move g pc g' pc')
    (ticketed : other.Ticketed slots g) : other.Ticketed slots g' := by
  obtain ⟨reserved, claimed⟩ := move_records move
  cases other
  case enqFill => exact ⟨ticketed.1, reserved _ _ ticketed.2⟩
  case deqUnlock => exact ⟨ticketed.1, claimed _ _ ticketed.2⟩
  case deqLoad => exact ⟨ticketed.1, claimed _ _ ticketed.2⟩
  case deqTake => exact ⟨ticketed.1, claimed _ _ ticketed.2⟩
  case deqDone call out rc =>
    cases out with
    | none => trivial
    | some data =>
        obtain ⟨ticket, found, own⟩ := ticketed
        exact ⟨ticket, reserved _ _ found, claimed _ _ own⟩
  all_goals exact ticketed

/-- What a call knows about its ticket after its own move; a dequeue needs to know in addition
that the value it takes is the one of its ticket. -/
theorem move_ticketed (move : Move g pc g' pc') (counted : Counted slots g)
    (ticketed : pc.Ticketed slots g)
    (own : ∀ call slot ticket ptr, pc = .deqTake call slot ticket ptr →
      g.cq.data slot = some ptr → g.reserved[ticket]? = some ptr) : pc'.Ticketed slots g' := by
  cases move
  case enqRead => exact counted.capacity ▸ rfl
  case enqReserve => exact ⟨counted.tail, by simp⟩
  case deqRead => exact counted.capacity ▸ rfl
  case deqClaim => exact ⟨counted.head, by simp⟩
  case deqRelease held after => cases after <;> exact ticketed
  case deqUnheld free after => cases after <;> exact ticketed
  case deqTake call slot ticket ptr full =>
    exact ⟨ticket, own call slot ticket ptr rfl full, ticketed.2⟩
  case enqWait => exact ticketed
  case deqNonempty => exact ticketed
  case deqWait => exact ticketed
  case deqLoad => exact ticketed
  case deqLost => exact ticketed
  all_goals trivial

theorem fillTicket_ticketed {slot k : ℕ} (ticketed : pc.Ticketed slots g)
    (holds : pc.fillTicket = some (slot, k)) : slot = k % slots ∧ k < g.reserved.length := by
  cases pc <;> simp only [AmcqueuePc.fillTicket, Option.some.injEq, Prod.mk.injEq] at holds
  case enqFill data slot' ticket =>
    obtain ⟨rfl, rfl⟩ := holds
    exact ⟨ticketed.1, (List.getElem?_eq_some_iff.mp ticketed.2).1⟩
  all_goals cases holds

theorem takeTicket_ticketed {slot k : ℕ} (ticketed : pc.Ticketed slots g)
    (holds : pc.takeTicket = some (slot, k)) : slot = k % slots ∧ k < g.claimed.length := by
  cases pc <;> simp only [AmcqueuePc.takeTicket, Option.some.injEq, Prod.mk.injEq] at holds
  case deqUnlock call slot' ticket =>
    obtain ⟨rfl, rfl⟩ := holds
    exact ⟨ticketed.1, (List.getElem?_eq_some_iff.mp ticketed.2).1⟩
  case deqLoad call slot' ticket =>
    obtain ⟨rfl, rfl⟩ := holds
    exact ⟨ticketed.1, (List.getElem?_eq_some_iff.mp ticketed.2).1⟩
  case deqTake call slot' ticket ptr =>
    obtain ⟨rfl, rfl⟩ := holds
    exact ⟨ticketed.1, (List.getElem?_eq_some_iff.mp ticketed.2).1⟩
  all_goals cases holds

end Moves

section Rings

variable {Tid : Type} {slots : ℕ}

/-- The indices count tickets, every call has its own, and each slot serves its tickets in the
order of their reservations. -/
structure Served (slots : ℕ) (c : Config Tid (Shared V) (AmcqueuePc V)) : Prop where
  counted : Counted slots c.shared
  calls : ∀ t, (c.pc t).Ticketed slots c.shared
  fillOnce : Once AmcqueuePc.fillTicket c.pc
  takeOnce : Once AmcqueuePc.takeTicket c.pc
  cells : ∃ cell, (ring c cell).Ordered slots ∧
    ∀ i, c.shared.cq.data i = (cell i).bind fun k => c.shared.reserved[k]?

theorem served_turn {c : Config Tid (Shared V) (AmcqueuePc V)} (served : Served slots c) {t : Tid}
    (turn : InTurn c t) {call slot ticket : ℕ} {ptr : V}
    (here : c.pc t = .deqTake call slot ticket ptr) (full : c.shared.cq.data slot = some ptr)
    (cell : ℕ → Option ℕ) : slot = ticket % slots ∧ (ring c cell).TakeTurn slots ticket := by
  have place : slot = ticket % slots := by
    have known := served.calls t
    rw [here] at known
    exact known.1
  refine ⟨place, ?_⟩
  rintro j ⟨u, slot', holds⟩ same
  have known := (takeTicket_ticketed (served.calls u) holds).1
  apply turn.2 call slot ticket ptr here full u j
  rw [holds, known, same, place]

theorem served_own {c : Config Tid (Shared V) (AmcqueuePc V)} (served : Served slots c) {t : Tid}
    (turn : InTurn c t) {call slot ticket : ℕ} {ptr : V}
    (here : c.pc t = .deqTake call slot ticket ptr) (full : c.shared.cq.data slot = some ptr) :
    c.shared.reserved[ticket]? = some ptr := by
  obtain ⟨cell, ordered, data⟩ := served.cells
  obtain ⟨place, first⟩ := served_turn served turn here full cell
  have waits : ticket ∈ (ring c cell).taking := ⟨t, slot, by rw [here]; rfl⟩
  rw [data slot, Option.bind_eq_some_iff] at full
  obtain ⟨j, inside, value⟩ := full
  rw [place] at inside
  have own := Ring.take_own ordered waits first inside
  rwa [← own]

variable [DecidableEq Tid]

/-- No ticket is handed out twice, and each slot serves its tickets in the order of their
reservations. -/
structure Rotating (slots : ℕ) (c : Config Tid (Shared V) (AmcqueuePc V)) : Prop where
  fillOnce : Once AmcqueuePc.fillTicket c.pc
  takeOnce : Once AmcqueuePc.takeTicket c.pc
  cells : ∃ cell, (ring c cell).Ordered slots ∧
    ∀ i, c.shared.cq.data i = (cell i).bind fun k => c.shared.reserved[k]?

theorem rotating_still {c : Config Tid (Shared V) (AmcqueuePc V)} {t : Tid} {g' : Shared V}
    {pc' : AmcqueuePc V} (served : Served slots c) (still : Still c.shared (c.pc t) g' pc') :
    Rotating slots ⟨g', Function.update c.pc t pc'⟩ := by
  obtain ⟨cell, ordered, data⟩ := served.cells
  refine ⟨once_update served.fillOnce ?_, once_update served.takeOnce ?_, cell, ?_, ?_⟩
  · exact fun slot k holds => .inl (still.fillTicket ▸ holds)
  · exact fun slot k holds => .inl (still.takeTicket ▸ holds)
  · simpa only [ring, still.reserved, still.claimed, tickets_same still.fillTicket,
      tickets_same still.takeTicket] using ordered
  · simpa only [still.data, still.reserved] using data

theorem rotating_reserve {c : Config Tid (Shared V) (AmcqueuePc V)} {t : Tid} {value : V}
    {newTail : ℕ} (served : Served slots c)
    (here : c.pc t = .enqSwap value c.shared.cq.tail newTail) :
    Rotating slots
      ⟨{ c.shared with
          cq := { c.shared.cq with tail := newTail }
          reserved := c.shared.reserved ++ [value] },
        Function.update c.pc t (.enqFill value c.shared.cq.tail c.shared.reserved.length)⟩ := by
  obtain ⟨cell, ordered, data⟩ := served.cells
  have fresh : c.shared.reserved.length ∉ tickets AmcqueuePc.fillTicket c.pc := by
    rintro ⟨u, slot, holds⟩
    exact Nat.lt_irrefl _ (fillTicket_ticketed (served.calls u) holds).2
  have before : (c.pc t).fillTicket = none := by rw [here]; rfl
  have after : (AmcqueuePc.enqFill value c.shared.cq.tail c.shared.reserved.length).fillTicket =
    some (c.shared.cq.tail, c.shared.reserved.length) := rfl
  have unmoved : (AmcqueuePc.enqFill value c.shared.cq.tail c.shared.reserved.length).takeTicket =
    (c.pc t).takeTicket := by rw [here]; rfl
  refine ⟨once_update served.fillOnce ?_, once_update served.takeOnce ?_, cell, ?_, ?_⟩
  · rintro slot k holds
    cases holds
    exact .inr fresh
  · exact fun slot k holds => .inl (unmoved ▸ holds)
  · have reserved := Ring.ordered_reserve ordered
    simpa only [ring, Ring.reserve, List.length_append, List.length_singleton,
      tickets_insert before after, tickets_same unmoved] using reserved
  · intro i
    rw [data i]
    cases inside : cell i with
    | none => rfl
    | some k =>
        have bound : k < c.shared.reserved.length := (ordered.full i k inside).2.1.1
        simp [List.getElem?_append_left bound]

theorem rotating_fill {c : Config Tid (Shared V) (AmcqueuePc V)} {t : Tid} {value : V}
    {slot ticket : ℕ} (served : Served slots c) (turn : InTurn c t)
    (here : c.pc t = .enqFill value slot ticket) (empty : c.shared.cq.data slot = none) :
    Rotating slots
      ⟨{ c.shared with
          cq := { c.shared.cq with data := Function.update c.shared.cq.data slot (some value) } },
        Function.update c.pc t (.enqDone (some value) .success)⟩ := by
  obtain ⟨cell, ordered, data⟩ := served.cells
  have known := served.calls t
  rw [here] at known
  obtain ⟨place, own⟩ := known
  have before : (c.pc t).fillTicket = some (slot, ticket) := by rw [here]; rfl
  have after : (AmcqueuePc.enqDone (some value) .success).fillTicket = none := rfl
  have unmoved : (AmcqueuePc.enqDone (some value) .success).takeTicket = (c.pc t).takeTicket := by
    rw [here]; rfl
  have waits : ticket ∈ (ring c cell).filling := ⟨t, slot, before⟩
  have first : (ring c cell).FillTurn slots ticket := by
    rintro j ⟨u, slot', holds⟩ same
    have known := (fillTicket_ticketed (served.calls u) holds).1
    apply turn.1 value slot ticket here empty u j
    rw [holds, known, same, place]
  have vacant : cell (ticket % slots) = none := by
    cases inside : cell (ticket % slots) with
    | none => rfl
    | some k =>
        have bound : k < c.shared.reserved.length := (ordered.full _ k inside).2.1.1
        rw [place, data, inside] at empty
        simp [List.getElem?_eq_getElem bound] at empty
  refine ⟨once_update served.fillOnce ?_, once_update served.takeOnce ?_,
    Function.update cell (ticket % slots) (some ticket), ?_, ?_⟩
  · intro slot k holds
    cases holds
  · exact fun slot k holds => .inl (unmoved ▸ holds)
  · have filled := Ring.ordered_fill ordered waits first vacant
    have once (u : Tid) (s : ℕ) (holds : (c.pc u).fillTicket = some (s, ticket)) : u = t :=
      served.fillOnce u t s slot ticket holds before
    simpa only [ring, Ring.fill, tickets_remove before after once, tickets_same unmoved]
      using filled
  · intro i
    change Function.update c.shared.cq.data slot (some value) i =
      (Function.update cell (ticket % slots) (some ticket) i).bind fun k => c.shared.reserved[k]?
    by_cases same : i = slot
    · subst same
      rw [Function.update_self, ← place, Function.update_self]
      exact own.symm
    · rw [Function.update_of_ne same, data i, Function.update_of_ne (place ▸ same)]

theorem rotating_claim {c : Config Tid (Shared V) (AmcqueuePc V)} {t : Tid} {call newHead : ℕ}
    (served : Served slots c) (here : c.pc t = .deqSwap call c.shared.cq.head newHead) :
    Rotating slots
      ⟨{ c.shared with
          cq := { c.shared.cq with head := newHead }
          claimed := c.shared.claimed ++ [call] },
        Function.update c.pc t (.deqUnlock call c.shared.cq.head c.shared.claimed.length)⟩ := by
  obtain ⟨cell, ordered, data⟩ := served.cells
  have fresh : c.shared.claimed.length ∉ tickets AmcqueuePc.takeTicket c.pc := by
    rintro ⟨u, slot, holds⟩
    exact Nat.lt_irrefl _ (takeTicket_ticketed (served.calls u) holds).2
  have before : (c.pc t).takeTicket = none := by rw [here]; rfl
  have after : (AmcqueuePc.deqUnlock call c.shared.cq.head c.shared.claimed.length :
    AmcqueuePc V).takeTicket = some (c.shared.cq.head, c.shared.claimed.length) := rfl
  have unmoved : (AmcqueuePc.deqUnlock call c.shared.cq.head c.shared.claimed.length :
    AmcqueuePc V).fillTicket = (c.pc t).fillTicket := by rw [here]; rfl
  refine ⟨once_update served.fillOnce ?_, once_update served.takeOnce ?_, cell, ?_, data⟩
  · exact fun slot k holds => .inl (unmoved ▸ holds)
  · rintro slot k holds
    cases holds
    exact .inr fresh
  · have claimed := Ring.ordered_claim ordered
    simpa only [ring, Ring.claim, List.length_append, List.length_singleton,
      tickets_insert before after, tickets_same unmoved] using claimed

theorem rotating_take {c : Config Tid (Shared V) (AmcqueuePc V)} {t : Tid} {call slot ticket : ℕ}
    {ptr : V} (served : Served slots c) (turn : InTurn c t)
    (here : c.pc t = .deqTake call slot ticket ptr) (full : c.shared.cq.data slot = some ptr) :
    Rotating slots
      ⟨{ c.shared with cq :=
        { c.shared.cq with data := Function.update c.shared.cq.data slot none } },
        Function.update c.pc t (.deqDone call (some ptr) .success)⟩ := by
  obtain ⟨cell, ordered, data⟩ := served.cells
  obtain ⟨place, first⟩ := served_turn served turn here full cell
  have before : (c.pc t).takeTicket = some (slot, ticket) := by rw [here]; rfl
  have after : (AmcqueuePc.deqDone call (some ptr) .success).takeTicket = none := rfl
  have unmoved : (AmcqueuePc.deqDone call (some ptr) .success).fillTicket =
      (c.pc t).fillTicket := by
    rw [here]; rfl
  have waits : ticket ∈ (ring c cell).taking := ⟨t, slot, before⟩
  rw [data slot, Option.bind_eq_some_iff] at full
  obtain ⟨j, inside, value⟩ := full
  rw [place] at inside
  refine ⟨once_update served.fillOnce ?_, once_update served.takeOnce ?_,
    Function.update cell (ticket % slots) none, ?_, ?_⟩
  · exact fun slot k holds => .inl (unmoved ▸ holds)
  · intro slot k holds
    cases holds
  · have taken := Ring.ordered_take ordered waits first inside
    have once (u : Tid) (s : ℕ) (holds : (c.pc u).takeTicket = some (s, ticket)) : u = t :=
      served.takeOnce u t s slot ticket holds before
    simpa only [ring, Ring.take, tickets_remove before after once, tickets_same unmoved]
      using taken
  · intro i
    change Function.update c.shared.cq.data slot none i =
      (Function.update cell (ticket % slots) none i).bind fun k => c.shared.reserved[k]?
    by_cases same : i = slot
    · subst same
      rw [Function.update_self, ← place, Function.update_self]
      rfl
    · rw [Function.update_of_ne same, data i, Function.update_of_ne (place ▸ same)]

theorem served_move {c : Config Tid (Shared V) (AmcqueuePc V)} {t : Tid} {g' : Shared V}
    {pc' : AmcqueuePc V} (served : Served slots c) (turn : InTurn c t)
    (move : Move c.shared (c.pc t) g' pc') : Served slots ⟨g', Function.update c.pc t pc'⟩ := by
  have counted := move_counted move served.counted (served.calls t)
  have own : pc'.Ticketed slots g' := move_ticketed move served.counted (served.calls t)
    fun call slot ticket ptr here full => served_own served turn here full
  have calls : ∀ u, (Function.update c.pc t pc' u).Ticketed slots g' :=
    (Function.forall_update_iff c.pc fun _ (l : AmcqueuePc V) => l.Ticketed slots g').mpr
      ⟨own, fun u _ => ticketed_grows move (served.calls u)⟩
  suffices rotating : Rotating slots ⟨g', Function.update c.pc t pc'⟩ from
    ⟨counted, calls, rotating.fillOnce, rotating.takeOnce, rotating.cells⟩
  rcases move_cases move with still | ⟨value, newTail, here, rfl, rfl⟩ |
    ⟨value, slot, ticket, here, rfl, empty, rfl⟩ | ⟨call, newHead, here, rfl, rfl⟩ |
    ⟨call, slot, ticket, ptr, here, rfl, full, rfl⟩
  · exact rotating_still served still
  · exact rotating_reserve served here
  · exact rotating_fill served turn here empty
  · exact rotating_claim served here
  · exact rotating_take served turn here full

end Rings

end Libam.CQueue
