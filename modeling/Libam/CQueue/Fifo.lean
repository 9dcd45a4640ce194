import Libam.CQueue.Invariant
import Libam.CQueue.Tickets

/-! The order in which the circular queue serves its callers. -/

namespace Libam.CQueue

open Libam.Interleaving Libam.TicketRing

variable {V : Type}

section Records

def enqueued (history : List (Event V)) : List V :=
  history.filterMap fun
    | .enqCall data => some data
    | _ => none

def AmcqueuePc.offered : AmcqueuePc V → Option V
  | .enqRead data => some data
  | .enqSwap data _ _ => some data
  | _ => none

/-- The value an enqueue has placed, when it is about to return AMRC_SUCCESS. -/
def AmcqueuePc.placed : AmcqueuePc V → Option V
  | .enqDone data .success => data
  | _ => none

def AmcqueuePc.calling : AmcqueuePc V → Option ℕ
  | .deqLock call => some call
  | .deqRead call => some call
  | .deqTest call _ _ => some call
  | .deqSwap call _ _ => some call
  | _ => none

structure Recorded (g : Shared V) : Prop where
  nodup : g.reserved.Nodup
  reservedCalled : ∀ v ∈ g.reserved, v ∈ enqueued g.history
  claimedEarlier : ∀ call ∈ g.claimed, call < g.history.length
  returned : ∀ v, .enqRet v ∈ g.history → v ∈ g.reserved
  delivered : ∀ call v, .deqRet call v ∈ g.history →
    ∃ k : ℕ, g.reserved[k]? = some v ∧ g.claimed[k]? = some call
  enqOrder : ∀ (i j : ℕ) a b, i < j → g.history[i]? = some (.enqRet a) →
    g.history[j]? = some (.enqCall b) → ∀ kb : ℕ, g.reserved[kb]? = some b →
    ∃ ka < kb, g.reserved[ka]? = some a
  deqOrder : ∀ (p : ℕ) call b, g.history[p]? = some (.deqRet call b) → ∀ kb : ℕ,
    g.reserved[kb]? = some b → ∀ ka ≤ kb, ∃ earlier < p, g.claimed[ka]? = some earlier

structure AmcqueuePc.Known (g : Shared V) (pc : AmcqueuePc V) : Prop where
  offered : ∀ v, pc.offered = some v → v ∉ g.reserved ∧ v ∈ enqueued g.history
  placed : ∀ v, pc.placed = some v → v ∈ g.reserved
  calling : ∀ call, pc.calling = some call → call < g.history.length

variable {slots : ℕ} {g g' : Shared V} {pc pc' : AmcqueuePc V}

structure Silent (g : Shared V) (pc : AmcqueuePc V) (g' : Shared V) (pc' : AmcqueuePc V) :
    Prop where
  history : g'.history = g.history
  reserved : g'.reserved = g.reserved
  claimed : g'.claimed = g.claimed
  offered : pc'.offered = pc.offered
  placed : ∀ v, pc'.placed = some v → v ∈ g.reserved
  calling : ∀ call, pc'.calling = some call → pc.calling = some call

theorem move_recorded (move : Move g pc g' pc') (ticketed : pc.Ticketed slots g) :
    Silent g pc g' pc' ∨
    (∃ data, pc' = .enqRead data ∧ g' = { g with history := g.history ++ [.enqCall data] }) ∨
    (∃ data newTail, pc = .enqSwap data g.cq.tail newTail ∧
      pc' = .enqFill data g.cq.tail g.reserved.length ∧
      g' = { g with cq := { g.cq with tail := newTail }, reserved := g.reserved ++ [data] }) ∨
    (∃ data rc, pc = .enqDone data rc ∧ pc' = .idle ∧
      g' = { g with history := g.history ++ enqReturn data rc }) ∨
    (pc' = .deqLock g.history.length ∧
      g' = { g with history := g.history ++ [.deqCall g.history.length] }) ∨
    (∃ call newHead, pc = .deqSwap call g.cq.head newHead ∧
      pc' = .deqUnlock call g.cq.head g.claimed.length ∧
      g' = { g with cq := { g.cq with head := newHead }, claimed := g.claimed ++ [call] }) ∨
    (∃ call out rc, pc = .deqDone call out rc ∧ pc' = .idle ∧
      g' = { g with history := g.history ++ deqReturn call out rc }) := by
  have none (v : V) (absent : (none : Option V) = some v) : v ∈ g.reserved := by cases absent
  have other (call : ℕ) (absent : (Option.none : Option ℕ) = some call) :
      pc.calling = some call := by cases absent
  cases move
  case enqCall data => exact .inr (.inl ⟨data, rfl, rfl⟩)
  case enqReserve data newTail => exact .inr (.inr (.inl ⟨data, newTail, rfl, rfl, rfl⟩))
  case enqReturn data rc => exact .inr (.inr (.inr (.inl ⟨data, rc, rfl, rfl, rfl⟩)))
  case deqCall => exact .inr (.inr (.inr (.inr (.inl ⟨rfl, rfl⟩))))
  case deqClaim call newHead =>
    exact .inr (.inr (.inr (.inr (.inr (.inl ⟨call, newHead, rfl, rfl, rfl⟩)))))
  case deqReturn call out rc =>
    exact .inr (.inr (.inr (.inr (.inr (.inr ⟨call, out, rc, rfl, rfl, rfl⟩)))))
  case enqStore data slot ticket empty =>
    refine .inl ⟨rfl, rfl, rfl, rfl, ?_, other⟩
    intro v holds
    cases holds
    exact List.mem_of_getElem? ticketed.2
  case deqRelease held after => cases after <;> exact .inl ⟨rfl, rfl, rfl, rfl, none, other⟩
  case deqUnheld free after => cases after <;> exact .inl ⟨rfl, rfl, rfl, rfl, none, other⟩
  all_goals
    first
    | exact .inl ⟨rfl, rfl, rfl, rfl, none, other⟩
    | exact .inl ⟨rfl, rfl, rfl, rfl, none, fun _ holds => holds⟩

theorem mem_enqueued {history : List (Event V)} {v : V} :
    v ∈ enqueued history ↔ .enqCall v ∈ history := by
  simp only [enqueued, List.mem_filterMap]
  constructor
  · rintro ⟨event, member, same⟩
    cases event <;> cases same
    exact member
  · exact fun member => ⟨_, member, rfl⟩

theorem getElem?_snoc {α : Type} {l : List α} {a v : α} {k : ℕ} (found : (l ++ [a])[k]? = some v) :
    l[k]? = some v ∨ (k = l.length ∧ v = a) := by
  rcases Nat.lt_or_ge k l.length with before | after
  · rw [List.getElem?_append_left before] at found
    exact .inl found
  · rw [List.getElem?_append_right after, List.getElem?_singleton] at found
    split_ifs at found with last
    cases found
    exact .inr ⟨by omega, rfl⟩

theorem getElem?_kept {α : Type} {l : List α} {a v : α} {k : ℕ} (found : l[k]? = some v) :
    (l ++ [a])[k]? = some v := by
  rw [List.getElem?_append_left (List.getElem?_eq_some_iff.mp found).1, found]

theorem recorded_congr (recorded : Recorded g) (history : g'.history = g.history)
    (reserved : g'.reserved = g.reserved) (claimed : g'.claimed = g.claimed) : Recorded g' := by
  obtain ⟨nodup, reservedCalled, claimedEarlier, returned, delivered, enqOrder, deqOrder⟩ :=
    recorded
  constructor <;> simpa only [history, reserved, claimed]

theorem recorded_event (recorded : Recorded g) (event : Event V)
    (called : ∀ data, event = .enqCall data → data ∉ g.reserved)
    (returned : ∀ data, event = .enqRet data → data ∈ g.reserved)
    (delivered : ∀ call data, event = .deqRet call data →
      ∃ k : ℕ, g.reserved[k]? = some data ∧ g.claimed[k]? = some call) :
    Recorded { g with history := g.history ++ [event] } := by
  refine ⟨recorded.nodup, fun v member => ?_, fun call member => ?_, fun v member => ?_,
    fun call v member => ?_, fun i j a b before ret call kb place => ?_,
    fun p call b ret kb place ka bound => ?_⟩
  · rw [mem_enqueued]
    exact List.mem_append_left _ (mem_enqueued.mp (recorded.reservedCalled v member))
  · have earlier := recorded.claimedEarlier call member
    simp only [List.length_append, List.length_singleton]
    omega
  · rcases List.mem_append.mp member with old | new
    · exact recorded.returned v old
    · exact returned v (List.mem_singleton.mp new).symm
  · rcases List.mem_append.mp member with old | new
    · exact recorded.delivered call v old
    · exact delivered call v (List.mem_singleton.mp new).symm
  · rcases getElem?_snoc call with oldCall | ⟨last, same⟩
    · rcases getElem?_snoc ret with oldRet | ⟨late, _⟩
      · exact recorded.enqOrder i j a b before oldRet oldCall kb place
      · have bound := (List.getElem?_eq_some_iff.mp oldCall).1
        omega
    · exact absurd (List.mem_of_getElem? place) (called b same.symm)
  · rcases getElem?_snoc ret with oldRet | ⟨last, same⟩
    · exact recorded.deqOrder p call b oldRet kb place ka bound
    · obtain ⟨k, value, own⟩ := delivered call b same.symm
      have ticket : k = kb := by
        obtain ⟨inside, found⟩ := List.getElem?_eq_some_iff.mp place
        obtain ⟨inside', found'⟩ := List.getElem?_eq_some_iff.mp value
        exact recorded.nodup.getElem_inj_iff.mp (found'.trans found.symm)
      have claims := (List.getElem?_eq_some_iff.mp own).1
      have inside : ka < g.claimed.length := by omega
      exact ⟨g.claimed[ka], last ▸ recorded.claimedEarlier _ (List.getElem_mem inside),
        List.getElem?_eq_getElem inside⟩

theorem recorded_reserve (recorded : Recorded g) (cq : Amcqueue V) {data : V}
    (fresh : data ∉ g.reserved) (called : data ∈ enqueued g.history) :
    Recorded { g with cq := cq, reserved := g.reserved ++ [data] } := by
  refine ⟨?_, fun v member => ?_, recorded.claimedEarlier, fun v member => ?_,
    fun call v member => ?_, fun i j a b before ret call kb place => ?_,
    fun p call b ret kb place => ?_⟩
  · rw [List.nodup_append]
    refine ⟨recorded.nodup, List.nodup_singleton _, fun a first b second => ?_⟩
    rw [List.mem_singleton.mp second]
    rintro rfl
    exact fresh first
  · rcases List.mem_append.mp member with old | new
    · exact recorded.reservedCalled v old
    · exact List.mem_singleton.mp new ▸ called
  · exact List.mem_append_left _ (recorded.returned v member)
  · obtain ⟨k, value, own⟩ := recorded.delivered call v member
    exact ⟨k, getElem?_kept value, own⟩
  · rcases getElem?_snoc place with old | ⟨last, same⟩
    · obtain ⟨ka, bound, value⟩ := recorded.enqOrder i j a b before ret call kb old
      exact ⟨ka, bound, getElem?_kept value⟩
    · obtain ⟨ka, value⟩ := List.mem_iff_getElem?.mp
          (recorded.returned a (List.mem_of_getElem? ret))
      exact ⟨ka, last ▸ (List.getElem?_eq_some_iff.mp value).1, getElem?_kept value⟩
  · rcases getElem?_snoc place with old | ⟨last, same⟩
    · exact recorded.deqOrder p call b ret kb old
    · obtain ⟨k, value, _⟩ := recorded.delivered call b (List.mem_of_getElem? ret)
      exact absurd (List.mem_of_getElem? value) (same ▸ fresh)

theorem recorded_claim (recorded : Recorded g) (cq : Amcqueue V) {call : ℕ}
    (earlier : call < g.history.length) :
    Recorded { g with cq := cq, claimed := g.claimed ++ [call] } := by
  refine ⟨recorded.nodup, recorded.reservedCalled, fun other member => ?_, recorded.returned,
    fun other v member => ?_, recorded.enqOrder, fun p other b ret kb place ka bound => ?_⟩
  · rcases List.mem_append.mp member with old | new
    · exact recorded.claimedEarlier other old
    · exact List.mem_singleton.mp new ▸ earlier
  · obtain ⟨k, value, own⟩ := recorded.delivered other v member
    exact ⟨k, value, getElem?_kept own⟩
  · obtain ⟨first, before, own⟩ := recorded.deqOrder p other b ret kb place ka bound
    exact ⟨first, before, getElem?_kept own⟩

theorem known_event {other : AmcqueuePc V} (known : other.Known g) (event : Event V) :
    other.Known { g with history := g.history ++ [event] } := by
  refine ⟨fun v holds => ⟨(known.offered v holds).1, ?_⟩, known.placed, fun call holds => ?_⟩
  · rw [mem_enqueued]
    exact List.mem_append_left _ (mem_enqueued.mp (known.offered v holds).2)
  · have earlier := known.calling call holds
    simp only [List.length_append, List.length_singleton]
    omega

end Records

section Times

variable {Tid : Type} {slots : ℕ}

/-- The records are right, every call knows its part of them, and no two calls offer one value. -/
structure Timed (c : Config Tid (Shared V) (AmcqueuePc V)) : Prop where
  recorded : Recorded c.shared
  known : ∀ t, (c.pc t).Known c.shared
  offeredOnce : ∀ t u v, (c.pc t).offered = some v → (c.pc u).offered = some v → t = u

theorem known_congr {g g' : Shared V} {other : AmcqueuePc V} (known : other.Known g)
    (history : g'.history = g.history) (reserved : g'.reserved = g.reserved) : other.Known g' := by
  obtain ⟨offered, placed, calling⟩ := known
  constructor <;> simpa only [history, reserved]

variable [DecidableEq Tid]

theorem known_update {g : Shared V} {pc : Tid → AmcqueuePc V} {t : Tid} {pc' : AmcqueuePc V}
    (mover : pc'.Known g) (others : ∀ u, u ≠ t → (pc u).Known g) (u : Tid) :
    (Function.update pc t pc' u).Known g :=
  (Function.forall_update_iff pc fun _ (l : AmcqueuePc V) => l.Known g).mpr ⟨mover, others⟩ u

theorem offeredOnce_update {pc : Tid → AmcqueuePc V} {t : Tid} {pc' : AmcqueuePc V}
    (once : ∀ t u v, (pc t).offered = some v → (pc u).offered = some v → t = u)
    (fresh : ∀ v, pc'.offered = some v → (pc t).offered = some v ∨ ∀ u, (pc u).offered ≠ some v) :
    ∀ u w v, (Function.update pc t pc' u).offered = some v →
      (Function.update pc t pc' w).offered = some v → u = w := by
  refine alone_update (fun (l : AmcqueuePc V) v => l.offered = some v) once ?_
  intro v here u other there
  rcases fresh v here with same | new
  · exact other (once u t v there same)
  · exact new u there

theorem timed_event {c : Config Tid (Shared V) (AmcqueuePc V)} (timed : Timed c) {t : Tid}
    {event : Event V} {pc' : AmcqueuePc V}
    (recorded : Recorded { c.shared with history := c.shared.history ++ [event] })
    (offered : pc'.offered = none) (placed : pc'.placed = none)
    (calling : ∀ call, pc'.calling = some call → call = c.shared.history.length) :
    Timed ⟨{ c.shared with history := c.shared.history ++ [event] },
      Function.update c.pc t pc'⟩ := by
  refine ⟨recorded, known_update ⟨?_, ?_, ?_⟩ fun u _ => known_event (timed.known u) event,
    offeredOnce_update timed.offeredOnce ?_⟩
  · simp [offered]
  · simp [placed]
  · intro call holds
    simp [calling call holds]
  · simp [offered]

theorem timed_move {c : Config Tid (Shared V) (AmcqueuePc V)} {t : Tid} {g' : Shared V}
    {pc' : AmcqueuePc V} (served : Served slots c) (timed : Timed c)
    (move : Move c.shared (c.pc t) g' pc') (distinct : (enqueued g'.history).Nodup) :
    Timed ⟨g', Function.update c.pc t pc'⟩ := by
  have ticketed := served.calls t
  have idle (event : List (Event V)) (none : event = []) : Timed
      ⟨{ c.shared with history := c.shared.history ++ event }, Function.update c.pc t .idle⟩ := by
    subst none
    refine ⟨recorded_congr timed.recorded (List.append_nil _) rfl rfl,
      known_update ⟨by simp [AmcqueuePc.offered], by simp [AmcqueuePc.placed],
        by simp [AmcqueuePc.calling]⟩ fun u _ => known_congr (timed.known u)
        (List.append_nil _) rfl,
      offeredOnce_update timed.offeredOnce (by simp [AmcqueuePc.offered])⟩
  rcases move_recorded move ticketed with silent | ⟨data, rfl, rfl⟩ |
    ⟨data, newTail, here, rfl, rfl⟩ | ⟨data, rc, here, rfl, rfl⟩ | ⟨rfl, rfl⟩ |
    ⟨call, newHead, here, rfl, rfl⟩ | ⟨call, out, rc, here, rfl, rfl⟩
  · have known := timed.known t
    refine ⟨recorded_congr timed.recorded silent.history silent.reserved silent.claimed,
      known_update ⟨?_, ?_, ?_⟩ fun u _ =>
      known_congr (timed.known u) silent.history silent.reserved,
      offeredOnce_update timed.offeredOnce fun v holds => .inl (silent.offered ▸ holds)⟩
    · intro v holds
      rw [silent.reserved, silent.history]
      exact known.offered v (silent.offered ▸ holds)
    · intro v holds
      rw [silent.reserved]
      exact silent.placed v holds
    · intro call holds
      rw [silent.history]
      exact known.calling call (silent.calling call holds)
  · have fresh : data ∉ enqueued c.shared.history := by
      simp only [enqueued, List.filterMap_append, List.nodup_append] at distinct
      exact fun member => distinct.2.2 data member data (by simp) rfl
    have unreserved : data ∉ c.shared.reserved :=
      fun member => fresh (timed.recorded.reservedCalled data member)
    have recorded := recorded_event timed.recorded (.enqCall data)
      (fun v same => by cases same; exact unreserved) (fun v same => by cases same)
      (fun call v same => by cases same)
    refine ⟨recorded, known_update ⟨?_, ?_, ?_⟩ fun u _ => known_event (timed.known u) _,
      offeredOnce_update timed.offeredOnce fun v holds => .inr fun u there => ?_⟩
    · intro v holds
      cases holds
      exact ⟨unreserved, mem_enqueued.mpr (by simp)⟩
    · simp [AmcqueuePc.placed]
    · simp [AmcqueuePc.calling]
    · cases holds
      exact fresh ((timed.known u).offered _ there).2
  · have offering : (c.pc t).offered = some data := by rw [here]; rfl
    obtain ⟨fresh, called⟩ := (timed.known t).offered data offering
    refine ⟨recorded_reserve timed.recorded _ fresh called,
      known_update ⟨?_, ?_, ?_⟩ fun u away => ⟨fun v holds => ?_, fun v holds => ?_,
        (timed.known u).calling⟩, offeredOnce_update timed.offeredOnce ?_⟩
    · simp [AmcqueuePc.offered]
    · simp [AmcqueuePc.placed]
    · simp [AmcqueuePc.calling]
    · obtain ⟨absent, past⟩ := (timed.known u).offered v holds
      refine ⟨fun member => ?_, past⟩
      rcases List.mem_append.mp member with old | new
      · exact absent old
      · rw [List.mem_singleton.mp new] at holds
        exact away (timed.offeredOnce u t data holds offering)
    · exact List.mem_append_left _ ((timed.known u).placed v holds)
    · simp [AmcqueuePc.offered]
  · have placed : ∀ v, data = some v → rc = .success → v ∈ c.shared.reserved := by
      rintro v rfl rfl
      exact (timed.known t).placed v (by rw [here]; rfl)
    rcases data with _ | v
    · exact idle _ rfl
    · cases rc with
      | success =>
          have recorded := recorded_event timed.recorded (.enqRet v) (fun w same => by cases same)
            (fun w same => by cases same; exact placed v rfl rfl) (fun call w same => by cases same)
          exact timed_event timed recorded rfl rfl (by simp [AmcqueuePc.calling])
      | error => exact idle _ rfl
  · have recorded := recorded_event timed.recorded (.deqCall c.shared.history.length)
      (fun w same => by cases same) (fun w same => by cases same) (fun call w same => by cases same)
    exact timed_event timed recorded rfl rfl (by simp [AmcqueuePc.calling])
  · have earlier := (timed.known t).calling call (by rw [here]; rfl)
    refine ⟨recorded_claim timed.recorded _ earlier,
      known_update ⟨?_, ?_, ?_⟩ fun u _ => known_congr (timed.known u) rfl rfl,
      offeredOnce_update timed.offeredOnce ?_⟩
    · simp [AmcqueuePc.offered]
    · simp [AmcqueuePc.placed]
    · simp [AmcqueuePc.calling]
    · simp [AmcqueuePc.offered]
  · rcases out with _ | v
    · exact idle _ rfl
    · cases rc with
      | success =>
          rw [here] at ticketed
          have recorded := recorded_event timed.recorded (.deqRet call v)
            (fun w same => by cases same) (fun w same => by cases same)
            (fun call w same => by cases same; exact ticketed)
          exact timed_event timed recorded rfl rfl (by simp [AmcqueuePc.calling])
      | error => exact idle _ rfl

end Times

section Fifo

def Event.isDeqRet : Event V → Bool
  | .deqRet _ _ => true
  | _ => false

/-- First-in first-out in real time: when `a` was enqueued before the enqueue of `b` was called,
the dequeue that returns `a` was called before the one that returns `b` returned. -/
def RealTimeFifo (history : List (Event V)) : Prop :=
  ∀ (i j p q : ℕ) (a b : V) (callA callB : ℕ), i < j → history[i]? = some (.enqRet a) →
    history[j]? = some (.enqCall b) → history[p]? = some (.deqRet callB b) →
    history[q]? = some (.deqRet callA a) → callA < p

/-- All values are distinct, and at most `capacity` of them are enqueued, or being enqueued,
without a dequeue having returned them. -/
def Admissible {Tid : Type} (capacity : ℕ) (_ : Config Tid (Shared V) (AmcqueuePc V))
    (_ : Tid × Act V) (c' : Config Tid (Shared V) (AmcqueuePc V)) : Prop :=
  (enqueued c'.shared.history).Nodup ∧
    (enqueued c'.shared.history).length ≤ c'.shared.history.countP Event.isDeqRet + capacity

variable {Tid : Type} {slots : ℕ}

theorem served_start (slots : ℕ) :
    Served slots (start Tid (⟨0, slots, 0, 0, fun _ => none⟩ : Amcqueue V)) := by
  refine ⟨⟨rfl, rfl, rfl⟩, fun _ => trivial, ?_, ?_, fun _ => none, ?_, fun _ => rfl⟩
  · intro t u slot slot' k holds
    cases holds
  · intro t u slot slot' k holds
    cases holds
  · have none (held : AmcqueuePc V → Option (ℕ × ℕ)) (idle : held .idle = none) :
        tickets held (fun _ : Tid => .idle) = ∅ := by
      ext k
      simp [tickets, idle]
    simp only [ring, start, List.length_nil, none AmcqueuePc.fillTicket rfl,
      none AmcqueuePc.takeTicket rfl]
    exact Ring.ordered_empty slots

theorem timed_start (slots : ℕ) :
    Timed (start Tid (⟨0, slots, 0, 0, fun _ => none⟩ : Amcqueue V)) := by
  refine ⟨⟨List.nodup_nil, ?_, ?_, ?_, ?_, ?_, ?_⟩, fun t => ⟨?_, ?_, ?_⟩, ?_⟩ <;>
    simp [start, AmcqueuePc.offered, AmcqueuePc.placed, AmcqueuePc.calling]

theorem timed_fifo {c : Config Tid (Shared V) (AmcqueuePc V)} (timed : Timed c) :
    RealTimeFifo c.shared.history := by
  intro i j p q a b callA callB before ret call deqB deqA
  obtain ⟨kb, placeB, _⟩ := timed.recorded.delivered callB b (List.mem_of_getElem? deqB)
  obtain ⟨ka, bound, placeA⟩ := timed.recorded.enqOrder i j a b before ret call kb placeB
  obtain ⟨earlier, past, claimed⟩ := timed.recorded.deqOrder p callB b deqB kb placeB ka bound.le
  obtain ⟨k, value, own⟩ := timed.recorded.delivered callA a (List.mem_of_getElem? deqA)
  have ticket : k = ka := by
    obtain ⟨inside, found⟩ := List.getElem?_eq_some_iff.mp value
    obtain ⟨inside', found'⟩ := List.getElem?_eq_some_iff.mp placeA
    exact timed.recorded.nodup.getElem_inj_iff.mp (found.trans found'.symm)
  rw [ticket, claimed] at own
  exact Option.some.inj own ▸ past

variable [DecidableEq V] [DecidableEq Tid]

omit [DecidableEq Tid] in
instance (capacity : ℕ) (c : Config Tid (Shared V) (AmcqueuePc V)) (act : Tid × Act V)
    (c' : Config Tid (Shared V) (AmcqueuePc V)) : Decidable (Admissible capacity c act c') :=
  inferInstanceAs (Decidable (_ ∧ _))

theorem timed_run {actions : List (Tid × Act V)} {c : Config Tid (Shared V) (AmcqueuePc V)}
    (run : Run (Config.step next)
      (fun c act c' => (enqueued c'.shared.history).Nodup ∧ InTurn c act.1)
      (start Tid ⟨0, slots, 0, 0, fun _ => none⟩) actions c) : Served slots c ∧ Timed c := by
  refine run.invariant (fun c => Served slots c ∧ Timed c)
    ⟨served_start slots, timed_start slots⟩ ?_
  rintro c act c' ⟨served, timed⟩ fired ⟨distinct, turn⟩
  obtain ⟨g, l, stepped, rfl⟩ := Config.step_eq_some.mp fired
  have move := next_move stepped
  exact ⟨served_move served turn move, timed_move served timed move distinct⟩

/-- An enqueue and a dequeue stall on slot 0 while the others go once around the ring; the next
value stored in that slot overtakes the one before it. -/
def lapping : List (Fin 3 × Act ℕ) :=
  [(0, Act.enq (some 10)), (0, Act.tick), (0, Act.tick), (1, Act.deq)] ++ List.replicate 5
    (1, Act.tick) ++
  (2, Act.enq (some 11)) :: List.replicate 4 (2, Act.tick) ++
  (2, Act.enq (some 12)) :: List.replicate 4 (2, Act.tick) ++
  (2, Act.deq) :: List.replicate 8 (2, Act.tick) ++ (2, Act.deq) :: List.replicate 8
  (2, Act.tick) ++
  (2, Act.enq (some 13)) :: List.replicate 4 (2, Act.tick) ++
  (2, Act.enq (some 14)) :: List.replicate 4 (2, Act.tick) ++
  List.replicate 3 (1, Act.tick) ++ (2, Act.deq) :: List.replicate 8 (2, Act.tick)

theorem lapping_not_fifo : ∃ cq c, amcqueueAlloc (fun _ => true) 3 = some cq ∧
    Run (Config.step next) (Admissible 3) (start (Fin 3) cq) lapping c ∧
    ¬ RealTimeFifo c.shared.history := by
  have run : Run (Config.step next) (Admissible 3)
      (start (Fin 3) (⟨0, 4, 0, 0, fun _ => none⟩ : Amcqueue ℕ)) lapping _ :=
    run_of_runs (fun c act c' => decide (Admissible 3 c act c'))
      (fun _ _ _ checked => of_decide_eq_true checked) rfl (by decide)
  refine ⟨_, _, rfl, run, fun fifo => ?_⟩
  have early : 15 < 14 := fifo 11 12 14 16 13 14 15 1 (by decide) rfl rfl rfl rfl
  exact absurd early (by decide)

/-- First-in first-out holds in every run in which no call overtakes an older one on its slot. -/
theorem amcqueue_fifo_in_turn {malloc : UInt64 → Bool} {capacity : UInt64} {cq : Amcqueue V}
    (allocated : amcqueueAlloc malloc capacity = some cq) (small : capacity.toNat + 1 < wordSize)
    {actions : List (Tid × Act V)} {c : Config Tid (Shared V) (AmcqueuePc V)}
    (run : Run (Config.step next)
      (fun c act c' => Admissible capacity.toNat c act c' ∧ InTurn c act.1)
      (start Tid cq) actions c) : RealTimeFifo c.shared.history := by
  obtain rfl := alloc_empty allocated small
  exact timed_fifo (timed_run (run.mono fun _ _ _ ok => ⟨ok.1.1, ok.2⟩)).2

def inTurn [Fintype Tid] (c : Config Tid (Shared V) (AmcqueuePc V)) (t : Tid) : Bool :=
  match c.pc t with
  | .enqFill _ slot ticket => decide (c.shared.cq.data slot = none →
      ∀ u, ∀ held ∈ (c.pc u).fillTicket, held.1 = slot → ticket ≤ held.2)
  | .deqTake _ slot ticket ptr => decide (c.shared.cq.data slot = some ptr →
      ∀ u, ∀ held ∈ (c.pc u).takeTicket, held.1 = slot → ticket ≤ held.2)
  | _ => true

omit [DecidableEq Tid] in
theorem inTurn_sound [Fintype Tid] {c : Config Tid (Shared V) (AmcqueuePc V)} {t : Tid}
    (checked : inTurn c t = true) : InTurn c t := by
  constructor
  · intro data slot ticket here empty u other holds
    rw [inTurn, here] at checked
    exact of_decide_eq_true checked empty u (slot, other) holds rfl
  · intro call slot ticket ptr here full u other holds
    rw [inTurn, here] at checked
    exact of_decide_eq_true checked full u (slot, other) holds rfl

/-- An enqueue of `a` and a dequeue of `b` stall on slot 0 until one of `c` and one of `d` meet them
there, a lap later. -/
def lap (a b c d : Tid) : List (Tid × Act ℕ) :=
  [(a, Act.enq (some 10)), (a, Act.tick), (a, Act.tick), (b, Act.deq)] ++
  List.replicate 5 (b, Act.tick) ++
  (c, Act.enq (some 11)) :: List.replicate 4 (c, Act.tick) ++
  (c, Act.enq (some 12)) :: List.replicate 4 (c, Act.tick) ++
  (d, Act.deq) :: List.replicate 8 (d, Act.tick) ++
  (d, Act.deq) :: List.replicate 8 (d, Act.tick) ++
  (c, Act.enq (some 13)) :: List.replicate 4 (c, Act.tick) ++
  (c, Act.enq (some 14)) :: List.replicate 2 (c, Act.tick) ++
  (d, Act.deq) :: List.replicate 8 (d, Act.tick) ++
  (d, Act.deq) :: List.replicate 6 (d, Act.tick)

/-- Two enqueues and two dequeues meet on slot 0, and the older of each goes first. -/
theorem amcqueue_fifo_in_turn_sample : ∃ met c : Config (Fin 4) (Shared ℕ) (AmcqueuePc ℕ),
    Run (Config.step next) (fun c act c' => Admissible 3 c act c' ∧ InTurn c act.1)
      (start (Fin 4) (⟨0, 4, 0, 0, fun _ => none⟩ : Amcqueue ℕ)) (lap 0 1 2 3) met ∧
      (met.pc 0).fillTicket = some (0, 0) ∧ (met.pc 2).fillTicket = some (0, 4) ∧
      (met.pc 1).takeTicket = some (0, 0) ∧ (met.pc 3).takeTicket = some (0, 4) ∧
      Run (Config.step next) (fun c act c' => Admissible 3 c act c' ∧ InTurn c act.1) met
        ([0, 2, 0, 1, 1, 2, 3, 3, 3, 1, 2].map fun t => (t, .tick)) c ∧
      c.shared.history = [.enqCall 10, .deqCall 1, .enqCall 11, .enqRet 11, .enqCall 12,
        .enqRet 12, .deqCall 6, .deqRet 6 11, .deqCall 8, .deqRet 8 12, .enqCall 13, .enqRet 13,
        .enqCall 14, .deqCall 13, .deqRet 13 13, .deqCall 15, .enqRet 10, .deqRet 15 14,
        .deqRet 1 10, .enqRet 14] ∧
        RealTimeFifo c.shared.history := by
  have allocated : amcqueueAlloc (fun _ => true) 3 =
    some (⟨0, 4, 0, 0, fun _ => none⟩ : Amcqueue ℕ) := rfl
  have sound (c : Config (Fin 4) (Shared ℕ) (AmcqueuePc ℕ)) (act : Fin 4 × Act ℕ)
      (c' : Config (Fin 4) (Shared ℕ) (AmcqueuePc ℕ))
      (checked : (decide (Admissible 3 c act c') && inTurn c act.1) = true) :
      Admissible 3 c act c' ∧ InTurn c act.1 := by
    rw [Bool.and_eq_true] at checked
    exact ⟨of_decide_eq_true checked.1, inTurn_sound checked.2⟩
  have first : Run (Config.step next) (fun c act c' => Admissible 3 c act c' ∧ InTurn c act.1)
      (start (Fin 4) (⟨0, 4, 0, 0, fun _ => none⟩ : Amcqueue ℕ)) (lap 0 1 2 3) _ :=
    run_of_runs _ sound rfl (by decide)
  have whole : Run (Config.step next) (fun c act c' => Admissible 3 c act c' ∧ InTurn c act.1)
      (start (Fin 4) (⟨0, 4, 0, 0, fun _ => none⟩ : Amcqueue ℕ))
      (lap 0 1 2 3 ++ [0, 2, 0, 1, 1, 2, 3, 3, 3, 1, 2].map fun t => (t, .tick)) _ :=
    run_of_runs _ sound rfl (by decide)
  exact ⟨_, _, first, rfl, rfl, rfl, rfl, run_of_runs _ sound rfl (by decide), rfl,
    amcqueue_fifo_in_turn allocated (by decide) whole⟩

end Fifo

end Libam.CQueue
