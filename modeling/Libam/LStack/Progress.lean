import Libam.Concurrency.Completion
import Libam.Concurrency.Contention
import Libam.LStack.Invariant

/-! The linked stack never gets stuck, and its pushes are lock-free: a push repeats its swap of
`head` only when another thread's swap has succeeded. A pop waits for the consumer lock and for
nothing else. -/

namespace Libam.LStack

open Libam.Interleaving Libam.History Libam.Contention

variable {N : Type}

/-- How many accesses a call has still to make when nothing is in its way. -/
@[simp] def AmlstackPc.ahead : AmlstackPc N → ℕ
  | .idle => 0
  | .pushRead _ => 5
  | .pushLink _ _ => 4
  | .pushSwap _ _ => 3
  | .pushInc _ => 2
  | .pushDone _ => 1
  | .popLock => 8
  | .popRead => 7
  | .popNext _ => 6
  | .popSwap _ _ => 5
  | .popClear _ => 4
  | .popDec _ => 3
  | .popUnlock _ => 2
  | .popDone _ => 1
  | .aborted => 0

theorem ahead_le (pc : AmlstackPc N) : pc.ahead ≤ 8 := by
  cases pc <;> simp

section Alone

variable [DecidableEq N] {g : Shared N}

def Nearer (g : Shared N) (pc : AmlstackPc N) : Prop :=
  Reaches next .tick (fun l => l.ahead < pc.ahead) 4 g pc

theorem nearer_one {pc l : AmlstackPc N} {g' : Shared N} (fired : next g pc .tick = some (g', l))
    (less : l.ahead < pc.ahead) : Nearer g pc := .tick fired (.here less)

theorem nearer_pushSwap (node : N) (head : Option N) : Nearer g (.pushSwap node head) := by
  by_cases same : g.stk.head = head
  · have swapped : next g (.pushSwap node head) .tick =
        some ({ g with stk := { g.stk with head := some node }, log := .push node :: g.log },
          .pushInc node) := by
      simp [next, amlstackAccess, same]
    exact nearer_one swapped (by simp)
  · have stale : next g (.pushSwap node head) .tick = some (g, .pushRead node) := by
      simp [next, amlstackAccess, same]
    have swapped : next { g with next := Function.update g.next node g.stk.head }
        (.pushSwap node g.stk.head) .tick =
        some (⟨{ g.stk with head := some node }, Function.update g.next node g.stk.head,
          .push node :: g.log⟩,
          .pushInc node) := by
      simp [next, amlstackAccess]
    exact .tick stale (.tick rfl (.tick rfl (.tick swapped (.here (by simp)))))

theorem nearer_popRead : Nearer g (.popRead : AmlstackPc N) := by
  cases top : g.stk.head with
  | none =>
      have fired : next g .popRead .tick = some (g, .popUnlock none) := by
        simp [next, amlstackAccess, top]
      exact nearer_one fired (by simp)
  | some head =>
      have fired : next g .popRead .tick = some (g, .popNext head) := by
        simp [next, amlstackAccess, top]
      exact nearer_one fired (by simp)

theorem nearer_popSwap (head : N) (link : Option N) : Nearer g (.popSwap head link) := by
  by_cases same : g.stk.head = some head
  · have swapped : next g (.popSwap head link) .tick =
        some ({ g with stk := { g.stk with head := link }, log := .pop head :: g.log },
          .popClear head) := by
      simp [next, amlstackAccess, same]
    exact nearer_one swapped (by simp)
  · have stale : next g (.popSwap head link) .tick = some (g, .popRead) := by
      simp [next, amlstackAccess, same]
    cases top : g.stk.head with
    | none =>
        have empty : next g .popRead .tick = some (g, .popUnlock none) := by
          simp [next, amlstackAccess, top]
        exact .tick stale (.tick empty (.here (by simp)))
    | some first =>
        have read : next g .popRead .tick = some (g, .popNext first) := by
          simp [next, amlstackAccess, top]
        have swapped : next g (.popSwap first (g.next first)) .tick =
            some ({ g with stk := { g.stk with head := g.next first }, log := .pop first :: g.log },
              .popClear first) := by
          simp [next, amlstackAccess, top]
        exact .tick stale (.tick read (.tick rfl (.tick swapped (.here (by simp)))))

theorem nearer_of_running {pc : AmlstackPc N} (running : pc.ahead ≠ 0) (unwaiting : pc ≠ .popLock) :
    Nearer g pc := by
  cases pc with
  | idle => exact absurd rfl running
  | pushRead node => exact nearer_one rfl (by simp)
  | pushLink node head => exact nearer_one rfl (by simp)
  | pushSwap node head => exact nearer_pushSwap node head
  | pushInc node => exact nearer_one rfl (by simp)
  | pushDone node => exact nearer_one rfl (by simp)
  | popLock => exact absurd rfl unwaiting
  | popRead => exact nearer_popRead
  | popNext head => exact nearer_one rfl (by simp)
  | popSwap head link => exact nearer_popSwap head link
  | popClear head => exact nearer_one rfl (by simp)
  | popDec head => exact nearer_one rfl (by simp)
  | popUnlock out =>
      by_cases held : g.stk.consumerLock = 1
      · have released : next g (.popUnlock out) .tick =
            some ({ g with stk := { g.stk with consumerLock := 0 } }, .popDone out) := by
          simp [next, amlstackAccess, held]
        exact nearer_one released (by simp)
      · have unheld : next g (.popUnlock out) .tick = some (g, .aborted) := by
          simp [next, amlstackAccess, held]
        exact nearer_one unheld (by simp)
  | popDone out => exact nearer_one rfl (by simp)
  | aborted => exact absurd rfl running

end Alone

section Completion

variable [DecidableEq N] {Tid : Type} [Fintype Tid] [DecidableEq Tid]
  {c : Config Tid (Shared N) (AmlstackPc N)}

omit [DecidableEq Tid] in
/-- While a call runs, some call gets further on its own: where one waits for the lock, the
one that has it. -/
theorem exists_nearer (sound : Sound c) {t : Tid} (running : (c.pc t).ahead ≠ 0) :
    ∃ u, Nearer c.shared (c.pc u) := by
  by_cases waits : c.pc t = .popLock
  · by_cases free : c.shared.stk.consumerLock = 0
    · have locks : next c.shared (c.pc t) .tick =
          some ({ c.shared with stk := { c.shared.stk with consumerLock := 1 } }, .popRead) := by
        simp [waits, next, amlstackAccess, free]
      exact ⟨t, nearer_one locks (by simp [waits])⟩
    · have held : 0 < count (fun l : AmlstackPc N => l.locked) c.pc := by
        rw [← sound.locked.holders]
        exact Nat.pos_of_ne_zero free
      obtain ⟨u, inside⟩ := count_pos.mp held
      have live := sound.live u
      have busy : (c.pc u).ahead ≠ 0 := by
        intro done
        cases here : c.pc u with
        | idle =>
            rw [here] at inside
            cases inside
        | aborted => exact live here
        | _ =>
            rw [here] at done
            cases done
      refine ⟨u, nearer_of_running busy fun waits => ?_⟩
      rw [waits] at inside
      cases inside
  · exact ⟨t, nearer_of_running running waits⟩

/-- Whatever calls are under way, all of them can return without another call being made. -/
theorem amlstack_completes {stk : Amlstack N} (unlocked : stk.consumerLock = 0)
    (links : N → Option N) {actions : List (Tid × Act N)}
    (run : Run (Config.step next) Pushable (start Tid stk links) actions c) :
    ∃ ticks c', Run (Config.step next) (Only .tick) c ticks c' ∧
      ticks.length ≤ 32 * Fintype.card Tid ∧
      ∀ t, c'.pc t = .idle := by
  have sound : Sound c := run.invariant Sound (sound_start stk links unlocked) sound_step
  have kept : ∀ (c : Config Tid (Shared N) (AmlstackPc N)) act c', Sound c →
      c.step next act = some c' →
      act.2 = .tick → Sound c' := by
    intro c act c' sound fired ticks
    have pushable : Pushable c act c' := by
      simp only [Pushable]
      rw [ticks]
      trivial
    exact sound_step c act c' sound fired pushable
  obtain ⟨ticks, c', ran, short, rest⟩ := all_come_to_rest AmlstackPc.ahead kept ahead_le
    (fun c sound t running => exists_nearer sound running) sound
  have sound' : Sound c' := ran.invariant Sound sound kept
  refine ⟨ticks, c', ran, short, fun t => ?_⟩
  have none := rest t
  cases here : c'.pc t with
  | idle => rfl
  | aborted => exact absurd here (sound'.live t)
  | _ =>
      rw [here] at none
      cases none

/-- One pop has the lock and another waits for it. -/
theorem amlstack_completes_sample : ∃ c : Config (Fin 3) (Shared ℕ) (AmlstackPc ℕ),
    (∀ t, c.pc t ≠ .idle) ∧ ∃ ticks c', Run (Config.step next) (Only .tick) c ticks c' ∧
      ticks.length ≤ 96 ∧
      ∀ t, c'.pc t = .idle := by
  have run : Run (Config.step next) Pushable
      (start (Fin 3) (⟨0, 0, none⟩ : Amlstack ℕ) fun _ => none)
      [(0, .pop), (0, .tick), (1, .push 5), (1, .tick), (1, .tick), (2, .pop), (2, .tick)] _ :=
    run_of_runs (fun c act c' => decide (Pushable c act c'))
      (fun _ _ _ checked => of_decide_eq_true checked) rfl (by decide)
  exact ⟨_, by decide, amlstack_completes rfl _ run⟩

end Completion

section Contention

def Shared.cell (g : Shared N) (_ : Unit) : Option N := g.stk.head

def AmlstackPc.view : AmlstackPc N → Option (Unit × Option N)
  | .pushLink _ head => some ((), head)
  | .pushSwap _ head => some ((), head)
  | .popNext head => some ((), some head)
  | .popSwap head _ => some ((), some head)
  | _ => none

variable [DecidableEq N]

def effort (g : Shared N) : AmlstackPc N → Act N → Effort
  | _, .push _ => .call
  | _, .pop => .call
  | .pushSwap _ head, .tick => if g.stk.head = head then .swap else .retry
  | .popLock, .tick => if g.stk.consumerLock = 0 then .access else .wait
  | .popSwap head _, .tick => if g.stk.head = some head then .swap else .retry
  | _, .tick => .access

theorem next_contends (g : Shared N) (pc : AmlstackPc N) (a : Act N) (g' : Shared N)
    (l : AmlstackPc N) (fired : next g pc a = some (g', l)) :
    Contends Shared.cell AmlstackPc.view AmlstackPc.ahead 8 3 g pc g' l (effort g pc a) := by
  cases next_move fired with
  | pushCall node => exact .call rfl rfl (by simp)
  | pushRead node =>
      refine .access rfl ?_ (by simp)
      rintro _ _ ⟨⟩
      exact .inr rfl
  | pushLink node head => exact .access rfl (fun _ _ read => .inl read) (by simp)
  | pushSwap node =>
      have same : effort g (.pushSwap node g.stk.head) .tick = .swap := if_pos rfl
      rw [same]
      exact .swap rfl (by simp)
  | pushRetry node head stale =>
      have other : effort g (.pushSwap node head) .tick = .retry := if_neg stale
      rw [other]
      exact .retry () head rfl rfl stale rfl (by simp)
  | pushInc node => exact .access rfl (by simp [AmlstackPc.view]) (by simp)
  | pushReturn node => exact .access rfl (by simp [AmlstackPc.view]) (by simp)
  | popCall => exact .call rfl rfl (by simp)
  | popLock free =>
      have locks : effort g .popLock .tick = .access := if_pos free
      rw [locks]
      exact .access rfl (by simp [AmlstackPc.view]) (by simp)
  | popSpin held =>
      have spins : effort g .popLock .tick = .wait := if_neg held
      rw [spins]
      exact .wait rfl rfl (Nat.le_refl _)
  | popEmpty empty => exact .access rfl (by simp [AmlstackPc.view]) (by simp)
  | popRead head top =>
      refine .access rfl ?_ (by simp)
      rintro _ _ ⟨⟩
      exact .inr top
  | popNext head => exact .access rfl (fun _ _ read => .inl read) (by simp)
  | popSwap head link top =>
      have same : effort g (.popSwap head link) .tick = .swap := if_pos top
      rw [same]
      exact .swap rfl (by simp)
  | popRetry head link stale =>
      have other : effort g (.popSwap head link) .tick = .retry := if_neg stale
      rw [other]
      exact .retry () (some head) rfl rfl stale rfl (by simp)
  | popClear head => exact .access rfl (by simp [AmlstackPc.view]) (by simp)
  | popDec head => exact .access rfl (by simp [AmlstackPc.view]) (by simp)
  | popUnlock out held => exact .access rfl (by simp [AmlstackPc.view]) (by simp)
  | popAbort out free => exact .access rfl (by simp [AmlstackPc.view]) (by simp)
  | popReturn out => exact .access rfl (by simp [AmlstackPc.view]) (by simp)

variable {Tid : Type} [DecidableEq Tid]

/-- Apart from its waits for the lock, a thread makes eight accesses for a call and three for each
swap of another thread, and it repeats no swap that no other thread has forestalled. -/
theorem amlstack_accesses {c c' : Config Tid (Shared N) (AmlstackPc N)} {t : Tid}
    (idle : c.pc t = .idle) {actions : List (Tid × Act N)}
    (run : Run (Config.step next) Any c actions c') :
    let events := history next (fun g pc a => some (effort g pc a)) c actions
    retries t events ≤ swapsOfOthers t events ∧
    spent t events ≤ 8 * calls t events + 3 * swapsOfOthers t events :=
  spent_le effort next_contends (by rw [idle]; rfl) (by rw [idle]; rfl) run

/-- A pop loses its swap to a push. -/
theorem amlstack_accesses_sample : ∃ events : List (Fin 2 × Effort), retries 0 events = 1 ∧
    spent 0 events = 7 ∧
    retries 0 events ≤ swapsOfOthers 0 events ∧
    spent 0 events ≤ 8 * calls 0 events + 3 * swapsOfOthers 0 events := by
  have run : Run (Config.step next) Any
      ⟨⟨⟨1, 0, some 4⟩, fun _ => none, []⟩, fun _ : Fin 2 => .idle⟩
      [(0, .pop), (0, .tick), (0, .tick), (0, .tick), (1, .push 6), (1, .tick), (1, .tick),
        (1, .tick), (0, .tick), (0, .tick), (0, .tick), (0, .tick)] _ := run_any rfl
  refine ⟨_, ?_, ?_, amlstack_accesses (t := 0) rfl run⟩
  · rfl
  · rfl

end Contention

end Libam.LStack
