import Libam.Time.Periodic
import Libam.Concurrency.Interleaving

/-! `amtime_preiodic_stop` against the thread that it stops: who frees the handle, and when. -/

namespace Libam.Time

open Libam.Interleaving

def ClientPc.owner : ClientPc → Option Party
  | .stopFree | .stopSignal | .stopTest | .stopDrift | .stopped _ => some .thread
  | .joinSignal | .joinThread | .join _ | .joinTest | .joinDrift | .joinFree _ | .joined
      _ => some .client
  | .idle | .now | .getRefreshPeriod | .getMaxDrift | .setIgnore _ | .setPeriod
      _ | .delMaxDrift | .done _ => none

def ClientPc.handed : ClientPc → Bool
  | .stopSignal | .stopTest | .stopDrift | .stopped _ => true
  | _ => false

def ClientPc.signalled : ClientPc → Bool
  | .stopTest | .stopDrift | .stopped _ | .joinThread | .join
      _ | .joinTest | .joinDrift | .joinFree _
  | .joined _ => true
  | .idle | .now | .getRefreshPeriod | .getMaxDrift | .setIgnore _ | .setPeriod
      _ | .delMaxDrift | .done _
  | .stopFree | .stopSignal | .joinSignal => false

/-- A call that does not block still wants `max_drift`. -/
def ClientPc.wantsDrift : ClientPc → Bool
  | .stopTest | .stopDrift => true
  | _ => false

def ClientPc.waited : ClientPc → Bool
  | .joinTest | .joinDrift | .joinFree _ | .joined _ => true
  | _ => false

def ClientPc.returned : ClientPc → Bool
  | .stopped _ | .joined _ => true
  | _ => false

def ThreadPc.left : ThreadPc → Bool
  | .readFree | .free | .ended => true
  | _ => false

/-- What a handle is promised: nobody reads or writes it after it was freed, it is freed by its
owner only and once, by a caller only after the thread has ended, and not left over. -/
structure Sound (s : State) : Prop where
  untouched : s.freed ≠ [] → ∀ a s', step s a = some s' → touches s a = false
  once : s.freed.length ≤ 1
  owner : ∀ p ∈ s.freed, s.client.owner = some p
  after : .client ∈ s.freed → s.thread = .ended
  handed : s.client.owner = some .thread → s.thread = .ended → s.freed = [.thread]
  joined : ∀ drift, s.client = .joined drift → s.freed = [.client]

/-- The thread frees the handle only when a call that does not block has read `max_drift` for the
last time, and `pthread_join` returns 0. -/
def Met (s : State) (a : Act) (_ : State) : Prop :=
  (a = .thread → s.thread = .free → s.client.wantsDrift = false) ∧ a ≠ .joinError

instance (s : State) (a : Act) (s' : State) : Decidable (Met s a s') :=
  inferInstanceAs (Decidable (_ ∧ _))

def due (client : ClientPc) (thread : ThreadPc) : List Party :=
  match client with
  | .joined _ => [.client]
  | _ => if client.owner = some .thread ∧ thread = .ended then [.thread] else []

structure Inv (s : State) : Prop where
  handed : s.handle.threadFree ≠ 0 ↔ s.client.handed = true
  signalled : s.handle.stop ≠ 0 ↔ s.client.signalled = true
  left : s.thread.left = true → s.client.signalled = true
  frees : s.thread = .free → s.client.owner = some .thread
  waited : s.client.waited = true → s.thread = .ended
  returned : s.client.owner = some .thread → s.thread = .ended → s.client.returned = true
  freed : s.freed = due s.client s.thread

theorem inv_start {refreshPeriod clock : UInt64} {malloc : Bool} {created : Option UInt64}
    {handle : AmtimeThread}
    (started : amtimePreiodicStart refreshPeriod malloc clock created = some handle) :
    Inv (start handle) := by
  simp only [amtimePreiodicStart, Option.ite_none_right_eq_some, Option.map_eq_some_iff] at started
  obtain ⟨-, thread, -, rfl⟩ := started
  constructor <;> simp [start, ClientPc.handed, ClientPc.signalled, ThreadPc.left, ClientPc.waited,
    ClientPc.owner, due]

section Steps

variable {handle handle' : AmtimeThread} {pc pc' : ThreadPc} {client client' : ClientPc}
  {s s' : State} {a : Act}

/-- The thread leaves its loop when it reads `stop`, and frees the handle when it reads
`thread_free`. -/
theorem threadAccess_flags (access : threadAccess handle pc = some (handle', pc')) :
    handle'.stop = handle.stop ∧ handle'.threadFree = handle.threadFree ∧
      (pc'.left = true → pc.left = true ∨ handle.stop ≠ 0) ∧
      (pc' = .free → handle.threadFree ≠ 0) ∧
      (pc' = .ended → pc = .free ∨ pc = .readFree ∧ handle.threadFree = 0) ∧
      (pc = .free → pc' = .ended) ∧ pc ≠ .ended := by
  cases pc <;> simp only [threadAccess, Option.some.injEq, Prod.mk.injEq, reduceCtorEq] at access
  case readStop =>
    obtain ⟨rfl, rfl⟩ := access
    by_cases stop : handle.stop = 0 <;> simp [stop, ThreadPc.left]
  case readFree =>
    obtain ⟨rfl, rfl⟩ := access
    by_cases free : handle.threadFree = 0 <;> simp [free, ThreadPc.left]
  case readIgnore =>
    obtain ⟨rfl, rfl⟩ := access
    split_ifs <;> simp [ThreadPc.left]
  case readNow =>
    obtain ⟨rfl, rfl⟩ := access
    split_ifs <;> simp [ThreadPc.left]
  case readDrift =>
    obtain ⟨rfl, rfl⟩ := access
    split_ifs <;> simp [ThreadPc.left]
  all_goals
    obtain ⟨rfl, rfl⟩ := access
    simp [ThreadPc.left]

theorem timed_flags {now : UInt64} (timed : pc.timed now = some pc') :
    pc.left = false ∧ pc'.left = false := by
  cases pc <;> simp only [ThreadPc.timed, Option.some.injEq, reduceCtorEq] at timed
  all_goals
    subst timed
    exact ⟨rfl, rfl⟩

theorem owner_of_handed (handed : client.handed = true) : client.owner = some .thread := by
  cases client <;> first | rfl | cases handed

/-- A call that leaves the handle to the thread has set both flags, and is done with it unless it
wants `max_drift`. -/
theorem handed_of_signalled (owner : client.owner = some .thread)
    (signalled : client.signalled = true) :
    client.handed = true ∧ (client.wantsDrift = false → client.returned = true) := by
  cases client <;> simp_all
    [ClientPc.owner, ClientPc.signalled, ClientPc.handed, ClientPc.wantsDrift,
    ClientPc.returned]

theorem due_of_not_waited (waited : client.waited = false) :
    due client pc = if client.owner = some .thread ∧ pc = .ended then [.thread] else [] := by
  cases client <;> first | rfl | cases waited

theorem inv_thread (inv : Inv s) (access : threadAccess s.handle s.thread = some (handle', pc'))
    (met : s.thread = .free → s.client.wantsDrift = false) :
    Inv { s with
      handle := handle'
      thread := pc'
      freed := if s.thread.frees then .thread :: s.freed else s.freed } := by
  obtain ⟨stop, threadFree, leaves, frees, ends, last, going⟩ := threadAccess_flags access
  have waits : s.client.waited = false := by
    by_contra waited
    exact going (inv.waited (by simpa using waited))
  have handed (owner : s.client.owner = some .thread) (out : s.thread.left = true) :=
    handed_of_signalled owner (inv.left out)
  refine ⟨by
      simpa only [threadFree] using inv.handed, by
        simpa only [stop] using inv.signalled, ?_, ?_, ?_,
    ?_, ?_⟩
  · intro out
    rcases leaves out with before | set
    · exact inv.left before
    · exact inv.signalled.mp set
  · intro free
    exact owner_of_handed (inv.handed.mp (frees free))
  · intro waited
    cases waits.symm.trans waited
  · intro owner ended
    rcases ends ended with free | ⟨read, unset⟩
    · exact (handed owner (by rw [free]; rfl)).2 (met free)
    · exact absurd unset (inv.handed.mpr (handed owner (by rw [read]; rfl)).1)
  · have none : s.freed = [] := by
      rw [inv.freed, due_of_not_waited waits, if_neg fun both => going both.2]
    simp only [none, due_of_not_waited waits]
    by_cases free : s.thread = .free
    · rw [last free, inv.frees free, free]
      rfl
    · have kept : s.thread.frees = false := by
        cases here : s.thread <;> first | rfl | exact absurd here free
      have other : ¬ (s.client.owner = some .thread ∧ pc' = .ended) := by
        rintro ⟨owner, ended⟩
        rcases ends ended with freed | ⟨read, unset⟩
        · exact free freed
        · exact absurd unset (inv.handed.mpr (handed owner (by rw [read]; rfl)).1)
      rw [kept, if_neg other]
      rfl

theorem due_of_lent (lent : client.owner = some .thread) :
    due client pc = if pc = .ended then [.thread] else [] := by
  cases client <;> simp_all [ClientPc.owner, due]

theorem due_going (waited : client.waited = false) (inside : pc.left = false) :
    due client pc = [] := by
  rw [due_of_not_waited waited, if_neg]
  rintro ⟨-, rfl⟩
  cases inside

theorem Inv.not_waited (inv : Inv s) (inside : s.thread.left = false) :
    s.client.waited = false := by
  by_contra waited
  rw [inv.waited (by simpa using waited)] at inside
  cases inside

theorem inv_inside (handed : s.handle.threadFree ≠ 0 ↔ s.client.handed = true)
    (signalled : s.handle.stop ≠ 0 ↔ s.client.signalled = true) (waits : s.client.waited = false)
    (inside : s.thread.left = false) (freed : s.freed = []) : Inv s := by
  refine ⟨handed, signalled, ?_, ?_, ?_, ?_, ?_⟩
  · intro out
    cases inside.symm.trans out
  · intro free
    rw [free] at inside
    cases inside
  · intro waited
    cases waits.symm.trans waited
  · intro _ ended
    rw [ended] at inside
    cases inside
  · rw [freed, due_going waits inside]

theorem inv_clock {now : UInt64} (inv : Inv s) (timed : s.thread.timed now = some pc') :
    Inv { s with thread := pc' } := by
  obtain ⟨inside, inside'⟩ := timed_flags timed
  have waits := inv.not_waited inside
  exact inv_inside inv.handed inv.signalled waits inside' (inv.freed.trans (due_going waits inside))

theorem inv_call (call : Call) (isNull : Bool) (inv : Inv s) (idle : s.client = .idle) :
    Inv { s with client := call.entry isNull } := by
  have handed : s.handle.threadFree = 0 := by simpa [idle, ClientPc.handed] using inv.handed
  have signalled : s.handle.stop = 0 := by simpa [idle, ClientPc.signalled] using inv.signalled
  have inside : s.thread.left = false := by
    by_contra out
    simpa [idle, ClientPc.signalled] using inv.left (by simpa using out)
  have begins : (call.entry isNull).handed = false ∧ (call.entry isNull).signalled = false ∧
      (call.entry isNull).waited = false := by
    cases call <;> simp only [Call.entry] <;> split_ifs <;> exact ⟨rfl, rfl, rfl⟩
  refine inv_inside ?_ ?_ begins.2.2 inside
    (inv.freed.trans (due_going (inv.not_waited inside) inside))
  · simp [handed, begins.1]
  · simp [signalled, begins.2.1]

theorem clientAccess_unsignalled (access : clientAccess handle pc client = some (handle', client'))
    (unsignalled : client.signalled = false) (handed : handle.threadFree ≠ 0 ↔ client.handed = true)
    (stop : handle.stop = 0) :
    (handle'.threadFree ≠ 0 ↔ client'.handed = true) ∧
      (handle'.stop ≠ 0 ↔ client'.signalled = true) ∧
      client'.waited = false ∧ client.frees = false := by
  cases client <;> simp only [clientAccess, Option.some.injEq, Prod.mk.injEq,
    reduceCtorEq] at access
  case stopTest => cases unsignalled
  case join => cases unsignalled
  case joinTest => cases unsignalled
  all_goals
    obtain ⟨rfl, rfl⟩ := access
    revert unsignalled handed
    simp [ClientPc.handed, ClientPc.signalled, ClientPc.waited, ClientPc.frees, stop]

theorem clientAccess_signalled (access : clientAccess handle pc client = some (handle', client'))
    (signalled : client.signalled = true) :
    handle' = handle ∧ client'.signalled = true ∧ client'.handed = client.handed ∧
      client'.owner = client.owner ∧ (client'.waited = true → client.waited = true ∨ pc = .ended) ∧
      client.returned = false ∧ (client.owner = some .thread → client.frees = false) ∧
      (client.owner = some .client → due client pc = [] ∧
        due client' pc = if client.frees then [.client] else []) := by
  cases client <;>
    simp only [clientAccess, Option.some.injEq, Prod.mk.injEq, reduceCtorEq,
      Option.ite_none_right_eq_some] at access
  case stopTest =>
    obtain ⟨rfl, rfl⟩ := access
    by_cases drifted : handle.maxDrift > 0 <;>
      simp [drifted, ClientPc.signalled, ClientPc.handed, ClientPc.owner, ClientPc.waited,
        ClientPc.returned, ClientPc.frees]
  case join =>
    obtain ⟨ended, rfl, rfl⟩ := access
    simp [ClientPc.signalled, ClientPc.handed, ClientPc.owner, ClientPc.returned,
      ClientPc.frees, due, ended]
  case joinTest =>
    obtain ⟨rfl, rfl⟩ := access
    by_cases drifted : handle.maxDrift > 0 <;>
      simp [drifted, ClientPc.signalled, ClientPc.handed, ClientPc.owner, ClientPc.waited,
        ClientPc.returned, ClientPc.frees, due]
  all_goals
    obtain ⟨rfl, rfl⟩ := access
    revert signalled
    simp [ClientPc.signalled, ClientPc.handed, ClientPc.owner, ClientPc.waited, ClientPc.returned,
      ClientPc.frees, due]

theorem owner_of_signalled (signalled : client.signalled = true) :
    client.owner = some .thread ∨ client.owner = some .client := by
  cases client <;> simp_all [ClientPc.signalled, ClientPc.owner]

theorem inv_client (inv : Inv s)
    (access : clientAccess s.handle s.thread s.client = some (handle', client')) :
    Inv { s with
      handle := handle'
      client := client'
      freed := if s.client.frees then .client :: s.freed else s.freed } := by
  by_cases signalled : s.client.signalled = true
  · obtain ⟨same, signalled', handed, owner, waits, runs, keeps, frees⟩ :=
        clientAccess_signalled access signalled
    have going (lent : s.client.owner = some .thread) : s.thread ≠ .ended := by
      intro ended
      cases runs.symm.trans (inv.returned lent ended)
    refine ⟨?_, ?_, fun _ => signalled', fun free => owner.trans (inv.frees free), ?_, ?_, ?_⟩
    · simpa only [same, handed] using inv.handed
    · simpa only [same, signalled, signalled'] using inv.signalled
    · intro waited
      exact (waits waited).elim inv.waited id
    · intro lent ended
      exact absurd ended (going (owner.symm.trans lent))
    · rcases owner_of_signalled signalled with lent | own
      · simp only [inv.freed, keeps lent, due_of_lent lent, due_of_lent (owner.trans lent)]
        rfl
      · simp only [inv.freed, (frees own).1, (frees own).2]
  · simp only [Bool.not_eq_true] at signalled
    have stop : s.handle.stop = 0 := by simpa [signalled] using inv.signalled
    have inside : s.thread.left = false := by
      by_contra out
      cases signalled.symm.trans (inv.left (by simpa using out))
    obtain ⟨handed, signalled', waits, keeps⟩ :=
      clientAccess_unsignalled access signalled inv.handed stop
    refine inv_inside handed signalled' waits inside ?_
    simp only [keeps, inv.freed, due_going (inv.not_waited inside) inside]
    rfl

theorem inv_step (inv : Inv s) (fired : step s a = some s') (met : Met s a s') : Inv s' := by
  cases step_move fired with
  | thread access => exact inv_thread inv access (met.1 rfl)
  | clock timed => exact inv_clock inv timed
  | call call isNull idle => exact inv_call call isNull inv idle
  | client access => exact inv_client inv access
  | joinError => exact absurd rfl met.2

theorem Inv.freed_cases (inv : Inv s) : s.freed = [] ∨
    ∃ p, s.freed = [p] ∧ s.client.owner = some p ∧ s.client.returned = true ∧
    s.thread = .ended := by
  cases here : s.client with
  | joined drift =>
      refine .inr ⟨.client, ?_, rfl, rfl, inv.waited (by rw [here]; rfl)⟩
      rw [inv.freed, here]
      rfl
  | stopped drift =>
      have lent : s.client.owner = some .thread := by rw [here]; rfl
      by_cases ended : s.thread = .ended
      · refine .inr ⟨.thread, ?_, rfl, rfl, ended⟩
        rw [inv.freed, due_of_lent lent, if_pos ended]
      · refine .inl ?_
        rw [inv.freed, due_of_lent lent, if_neg ended]
  | _ =>
      refine .inl ?_
      by_contra gone
      have both : s.client.owner = some .thread ∧ s.thread = .ended := by
        by_contra other
        refine gone (inv.freed.trans ?_)
        rw [here] at other ⊢
        exact if_neg (t := [Party.thread]) other
      have returned := inv.returned both.1 both.2
      rw [here] at returned
      cases returned

theorem not_touches (ended : s.thread = .ended) (returned : s.client.returned = true) (a : Act) :
    touches s a = false := by
  cases a with
  | thread => exact congrArg ThreadPc.touches ended
  | client => cases here : s.client <;> simp_all [touches, ClientPc.returned, ClientPc.touches]
  | _ => rfl

theorem Inv.sound (inv : Inv s) : Sound s := by
  refine ⟨?_, ?_, ?_, ?_, ?_, ?_⟩
  · intro gone a _ _
    obtain none | ⟨p, -, -, returned, ended⟩ := inv.freed_cases
    · exact absurd none gone
    · exact not_touches ended returned a
  · obtain none | ⟨p, only, -⟩ := inv.freed_cases <;> simp [*]
  · obtain none | ⟨p, only, owner, -⟩ := inv.freed_cases <;> simp [*]
  · obtain none | ⟨p, -, -, -, ended⟩ := inv.freed_cases <;> simp [*]
  · intro lent ended
    rw [inv.freed, due_of_lent lent, if_pos ended]
  · intro drift joined
    rw [inv.freed, joined]
    rfl

theorem met_iff_sound (inv : Inv s) (fired : step s a = some s') : Met s a s' ↔ Sound s' := by
  refine ⟨fun met => (inv_step inv fired met).sound, fun sound => ⟨?_, ?_⟩⟩
  · rintro rfl free
    by_contra wants
    simp only [step, free, threadAccess, ThreadPc.frees, Option.map_some,
      Option.some.injEq] at fired
    subst fired
    have uses : ∃ s', step { s with thread := .ended, freed := .thread :: s.freed }
        .client = some s' ∧
        s.client.touches = true := by
      cases here : s.client <;> simp_all [ClientPc.wantsDrift, step, clientAccess, ClientPc.touches]
    obtain ⟨s', fired, touched⟩ := uses
    exact absurd (sound.untouched (List.cons_ne_nil _ _) .client s' fired)
      (by simp [touches, touched])
  · rintro rfl
    cases step_move fired with
    | joinError joins =>
        obtain none | ⟨p, -, -, returned, -⟩ := inv.freed_cases
        · cases none.symm.trans (sound.joined 0 rfl)
        · rw [joins] at returned
          cases returned

end Steps

section Ending

def ThreadPc.rank : ThreadPc → ℕ
  | .clock => 12
  | .readPeriod _ => 11
  | .readIgnore _ _ => 10
  | .readNow _ _ => 9
  | .readDrift _ _ => 8
  | .resetDrift _ => 8
  | .writeDrift _ _ => 7
  | .clearIgnore _ => 7
  | .clockNow _ => 6
  | .writeNow _ _ => 5
  | .usleep _ => 4
  | .readStop => 3
  | .readFree => 2
  | .free => 1
  | .ended => 0

def ClientPc.rank : ClientPc → ℕ
  | .joinThread => 5
  | .join _ => 4
  | .joinTest => 3
  | .joinDrift => 2
  | .joinFree _ => 1
  | .stopTest => 2
  | .stopDrift => 1
  | .idle | .now | .getRefreshPeriod | .getMaxDrift | .setIgnore _ | .setPeriod
      _ | .delMaxDrift | .done _
  | .stopFree | .stopSignal | .stopped _ | .joinSignal | .joined _ => 0

def remaining (s : State) : ℕ := s.thread.rank + s.client.rank

variable {s s' : State} {a : Act}

theorem threadAccess_rank {handle handle' : AmtimeThread} {pc pc' : ThreadPc}
    (access : threadAccess handle pc = some (handle', pc')) (stop : handle.stop ≠ 0) :
    pc'.rank < pc.rank := by
  cases pc <;> simp only [threadAccess, Option.some.injEq, Prod.mk.injEq, reduceCtorEq] at access
  case readStop =>
    obtain ⟨rfl, rfl⟩ := access
    rw [if_neg stop]
    decide
  all_goals
    obtain ⟨rfl, rfl⟩ := access
    try split_ifs
    all_goals simp [ThreadPc.rank]

theorem timed_rank {now : UInt64} {pc pc' : ThreadPc} (timed : pc.timed now = some pc') :
    pc'.rank < pc.rank := by
  cases pc <;> simp only [ThreadPc.timed, Option.some.injEq, reduceCtorEq] at timed
  all_goals
    subst timed
    simp [ThreadPc.rank]

theorem clientAccess_rank {handle handle' : AmtimeThread} {pc : ThreadPc}
    {client client' : ClientPc} (access : clientAccess handle pc client = some (handle', client'))
    (signalled : client.signalled = true) : client'.rank < client.rank := by
  revert signalled
  cases client <;>
    simp only [clientAccess, Option.some.injEq, Prod.mk.injEq, reduceCtorEq,
      Option.ite_none_right_eq_some] at access
  case join =>
    obtain ⟨-, rfl, rfl⟩ := access
    simp [ClientPc.rank]
  all_goals
    obtain ⟨rfl, rfl⟩ := access
    try split_ifs
    all_goals simp [ClientPc.signalled, ClientPc.rank]

theorem remaining_step (signalled : s.client.signalled = true ∧ s.handle.stop ≠ 0)
    (fired : step s a = some s') :
    (s'.client.signalled = true ∧ s'.handle.stop ≠ 0) ∧ remaining s' < remaining s := by
  obtain ⟨signalled, stop⟩ := signalled
  cases step_move fired with
  | thread access =>
      refine ⟨⟨signalled, ?_⟩, Nat.add_lt_add_right (threadAccess_rank access stop) _⟩
      rw [(threadAccess_flags access).1]
      exact stop
  | clock timed => exact ⟨⟨signalled, stop⟩, Nat.add_lt_add_right (timed_rank timed) _⟩
  | call call isNull idle =>
      rw [idle] at signalled
      cases signalled
  | client access =>
      obtain ⟨same, signalled', -⟩ := clientAccess_signalled access signalled
      refine ⟨⟨signalled', ?_⟩, Nat.add_lt_add_left (clientAccess_rank access signalled) _⟩
      rw [same]
      exact stop
  | joinError joins =>
      refine ⟨⟨rfl, stop⟩, ?_⟩
      simp [remaining, joins, ClientPc.rank]

theorem remaining_le (s : State) : remaining s ≤ 17 := by
  have thread : s.thread.rank ≤ 12 := by cases s.thread <;> simp [ThreadPc.rank]
  have client : s.client.rank ≤ 5 := by cases s.client <;> simp [ClientPc.rank]
  exact Nat.add_le_add thread client

theorem thread_goes (running : s.thread ≠ .ended) :
    ∃ a s', step s a = some s' ∧ a ≠ .joinError := by
  cases here : s.thread with
  | ended => exact absurd here running
  | clock => exact ⟨.clock 0, _, by rw [step, here]; rfl, by simp⟩
  | clockNow refPeriod => exact ⟨.clock 0, _, by rw [step, here]; rfl, by simp⟩
  | _ => exact ⟨.thread, _, by rw [step, here]; rfl, by simp⟩

theorem client_goes (signalled : s.client.signalled = true) (inside : s.client.returned = false)
    (ready : (∃ thread, s.client = .join thread) → s.thread = .ended) :
    ∃ s', step s .client = some s' := by
  cases here : s.client with
  | join thread =>
      have ended := ready ⟨thread, here⟩
      exact ⟨_, by rw [step, here, clientAccess, if_pos ended]; rfl⟩
  | _ => simp_all [step, clientAccess, ClientPc.signalled, ClientPc.returned]

theorem can_go (signalled : s.client.signalled = true) :
    (s.thread = .ended ∧ s.client.returned = true) ∨ ∃ a s', step s a = some s' ∧ Met s a s' := by
  by_cases ready : s.client.returned = false ∧
    ((∃ thread, s.client = .join thread) → s.thread = .ended)
  · obtain ⟨s', fired⟩ := client_goes signalled ready.1 ready.2
    exact .inr ⟨.client, s', fired, by simp [Met]⟩
  · by_cases ended : s.thread = .ended
    · exact .inl ⟨ended, by simpa [ended] using ready⟩
    · obtain ⟨a, s', fired, noError⟩ := thread_goes ended
      refine .inr ⟨a, s', fired, fun _ _ => ?_, noError⟩
      cases here : s.client <;> simp_all [ClientPc.wantsDrift, ClientPc.returned]

theorem Sound.freed (sound : Sound s) (ended : s.thread = .ended)
    (returned : s.client.returned = true) : ∃ p, s.client.owner = some p ∧ s.freed = [p] := by
  cases here : s.client with
  | stopped drift => exact ⟨.thread, rfl, sound.handed (by rw [here]; rfl) ended⟩
  | joined drift => exact ⟨.client, rfl, sound.joined drift here⟩
  | _ =>
      rw [here] at returned
      cases returned

end Ending

section Runs

variable {refreshPeriod clock : UInt64} {malloc : Bool} {created : Option UInt64}
  {handle : AmtimeThread} {actions : List Act} {s : State}

/-- In a run whose steps are all needed ones the handle is freed once, by whom it is left to, and
not used afterwards; any other step breaks this. Once `stop` is set the run is nearly over. -/
theorem amtime_preiodic_stop_frees_once
    (started : amtimePreiodicStart refreshPeriod malloc clock created = some handle)
    (run : Run step Met (start handle) actions s) :
    Sound s ∧ (∀ a s', step s a = some s' → (Met s a s' ↔ Sound s')) ∧
      (s.client.signalled = true →
        (∀ rest s', Run step Any s rest s' → rest.length ≤ 17) ∧
        ((∀ a s', step s a = some s' → ¬ Met s a s') →
          s.thread = .ended ∧ s.client.returned = true ∧
            ∃ p, s.client.owner = some p ∧ s.freed = [p])) := by
  have inv : Inv s :=
    run.invariant Inv (inv_start started) fun _ _ _ inv fired met => inv_step inv fired met
  refine ⟨inv.sound, fun a s' fired => met_iff_sound inv fired, fun signalled => ⟨?_, ?_⟩⟩
  · intro rest s' further
    have bound := (further.length_le
      (fun s => s.client.signalled = true ∧ s.handle.stop ≠ 0) remaining
      ⟨signalled, inv.signalled.mpr signalled⟩ fun _ _ _ set fired _ => remaining_step set fired).2
    have few := remaining_le s
    omega
  · intro stuck
    obtain ⟨ended, returned⟩ | ⟨a, s', fired, met⟩ := can_go signalled
    · exact ⟨ended, returned, inv.sound.freed ended returned⟩
    · exact absurd met (stuck a s' fired)

/-- The call reads `max_drift` before the thread looks at `stop` again. -/
theorem amtime_preiodic_stop_frees_once_sample :
    ∃ s : State, s.client = .stopped 1 ∧ s.freed = [.thread] ∧ Sound s := by
  have run : Run step Met (start ⟨7, 1000, 1, 5, 0, 0, 0⟩)
      [.call (.stop 0) false, .client, .client, .client, .client, .thread, .thread, .thread] _ :=
    run_of_runs (fun s a s' => decide (Met s a s')) (fun _ _ _ => of_decide_eq_true) rfl (by decide)
  have started : amtimePreiodicStart 0 true 5 (some 7) = some ⟨7, 1000, 1, 5, 0, 0, 0⟩ := by decide
  exact ⟨_, rfl, rfl, (amtime_preiodic_stop_frees_once started run).1⟩

/-- The thread sees both flags before the call has read `max_drift`. -/
theorem amtime_preiodic_stop_reads_freed : ¬ ∀ (refreshPeriod clock : UInt64) (malloc : Bool)
    (created : Option UInt64) (handle : AmtimeThread) (actions : List Act) (s : State),
    amtimePreiodicStart refreshPeriod malloc clock created = some handle →
    Run step Any (start handle) actions s → Sound s := by
  intro sound
  have started : amtimePreiodicStart 0 true 5 (some 7) = some ⟨7, 1000, 1, 5, 0, 0, 0⟩ := by decide
  have run : Run step Any (start ⟨7, 1000, 1, 5, 0, 0, 0⟩)
      [.call (.stop 0) false, .client, .client, .thread, .thread, .thread] _ := run_any rfl
  have untouched := (sound _ _ _ _ _ _ _ started run).untouched (by decide) .client
  cases untouched _ rfl

end Runs

end Libam.Time
