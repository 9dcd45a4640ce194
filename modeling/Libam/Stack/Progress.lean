import Libam.Concurrency.Completion
import Libam.Concurrency.Contention
import Libam.Stack.Invariant

/-! What the calls on the array stack wait for comes: a push that finds its slot still full, and a
pop that finds it still empty, wait for a call that is under way. -/

namespace Libam.Stack

open Libam.Interleaving Libam.History Libam.Contention

variable {V : Type}

/-- How many accesses a call has still to make when nothing is in its way. -/
@[simp] def AmstackPc.ahead : AmstackPc V → ℕ
  | .idle => 0
  | .pushRead _ => 4
  | .pushSwap _ _ => 3
  | .pushFill _ _ => 2
  | .pushDone _ _ => 1
  | .popRead => 5
  | .popSwap _ => 4
  | .popLoad _ => 3
  | .popTake _ _ => 2
  | .popDone _ _ => 1

theorem ahead_le (pc : AmstackPc V) : pc.ahead ≤ 5 := by
  cases pc <;> simp

section Alone

variable [DecidableEq V] {g : Shared V}

def Nearer (g : Shared V) (pc : AmstackPc V) : Prop :=
  Reaches next .tick (fun l => l.ahead < pc.ahead) 3 g pc

theorem within_pushRead (data : V) :
    Reaches next .tick (fun l => l.ahead < 3) 2 g (.pushRead data) := by
  by_cases full : g.stk.capacity ≤ g.stk.size
  · have fired : next g (.pushRead data) .tick = some (g, .pushDone (some data) .error) := by
      simp [next, amstackAccess, full]
    exact .tick fired (.here (by simp))
  · have read : next g (.pushRead data) .tick = some (g, .pushSwap data g.stk.size) := by
      simp [next, amstackAccess, full]
    have swapped : next g (.pushSwap data g.stk.size) .tick =
        some ({ g with stk := { g.stk with size := g.stk.size + 1 } },
          .pushFill data g.stk.size) := by
      simp [next, amstackAccess]
    exact .tick read (.tick swapped (.here (by simp)))

theorem within_pushSwap (data : V) (size : ℕ) :
    Reaches next .tick (fun l => l.ahead < 3) 3 g (.pushSwap data size) := by
  by_cases same : g.stk.size = size
  · have swapped : next g (.pushSwap data size) .tick =
        some ({ g with stk := { g.stk with size := size + 1 } }, .pushFill data size) := by
      simp [next, amstackAccess, same]
    exact .tick swapped (.here (by simp))
  · have stale : next g (.pushSwap data size) .tick = some (g, .pushRead data) := by
      simp [next, amstackAccess, same]
    exact .tick stale (within_pushRead data)

theorem within_popRead : Reaches next .tick (fun l : AmstackPc V => l.ahead < 4) 2 g .popRead := by
  by_cases empty : g.stk.size = 0
  · have fired : next g .popRead .tick = some (g, .popDone none .error) := by
      simp [next, amstackAccess, empty]
    exact .tick fired (.here (by simp))
  · have read : next g .popRead .tick = some (g, .popSwap g.stk.size) := by
      simp [next, amstackAccess, empty]
    have swapped : next g (.popSwap g.stk.size) .tick =
        some ({ g with stk := { g.stk with size := g.stk.size - 1 } },
          .popLoad (g.stk.size - 1)) := by
      simp [next, amstackAccess]
    exact .tick read (.tick swapped (.here (by simp)))

theorem within_popSwap (size : ℕ) :
    Reaches next .tick (fun l : AmstackPc V => l.ahead < 4) 3 g (.popSwap size) := by
  by_cases same : g.stk.size = size
  · have swapped : next g (.popSwap size) .tick =
        some ({ g with stk := { g.stk with size := size - 1 } }, .popLoad (size - 1)) := by
      simp [next, amstackAccess, same]
    exact .tick swapped (.here (by simp))
  · have stale : next g (.popSwap size) .tick = some (g, .popRead) := by
      simp [next, amstackAccess, same]
    exact .tick stale within_popRead

theorem within_pushFill {slot : ℕ} (data : V) (empty : g.stk.data slot = none) :
    Reaches next .tick (fun l => l.ahead < 2) 1 g (.pushFill data slot) := by
  have filled : next g (.pushFill data slot) .tick =
      some ({ g with stk := { g.stk with data := Function.update g.stk.data slot (some data) } },
        .pushDone (some data) .success) := by
    simp [next, amstackAccess, empty]
  exact .tick filled (.here (by simp))

theorem within_popLoad {slot : ℕ} {ptr : V} (full : g.stk.data slot = some ptr) :
    Reaches next .tick (fun l => l.ahead < 2) 2 g (.popLoad slot) := by
  have loaded : next g (.popLoad slot) .tick = some (g, .popTake slot ptr) := by
    simp [next, amstackAccess, full]
  have taken : next g (.popTake slot ptr) .tick =
      some ({ g with stk := { g.stk with data := Function.update g.stk.data slot none } },
        .popDone (some ptr) .success) := by
    simp [next, amstackAccess, full]
  exact .tick loaded (.tick taken (.here (by simp)))

theorem within_popTake {slot : ℕ} {ptr : V} (other : V) (full : g.stk.data slot = some ptr) :
    Reaches next .tick (fun l => l.ahead < 2) 3 g (.popTake slot other) := by
  by_cases same : ptr = other
  · have taken : next g (.popTake slot other) .tick =
        some ({ g with stk := { g.stk with data := Function.update g.stk.data slot none } },
          .popDone (some other) .success) := by
      simp [next, amstackAccess, full, same]
    exact .tick taken (.here (by simp))
  · have lost : next g (.popTake slot other) .tick = some (g, .popLoad slot) := by
      simp [next, amstackAccess, full, same]
    exact .tick lost (within_popLoad full)

end Alone

section Waiting

variable [DecidableEq V] {Tid : Type} [Fintype Tid] [DecidableEq Tid]
  {c : Config Tid (Shared V) (AmstackPc V)} {slot : ℕ}

omit [DecidableEq V] [DecidableEq Tid] in
theorem Balanced.emptier (balanced : Balanced c.shared.stk c.pc) {t : Tid}
    (waits : (c.pc t).filling slot = true) (full : c.shared.stk.data slot ≠ none) :
    ∃ u, (c.pc u).emptying slot = true := by
  have account := balanced.slots slot
  have mine : 0 < count (fun l : AmstackPc V => l.filling slot) c.pc := count_pos.mpr ⟨t, waits⟩
  have occupied : Cells.occupied c.shared.stk.data slot = 1 := by
    simp [Cells.occupied, Option.isSome_iff_ne_none, full]
  have theirs : 0 < count (fun l : AmstackPc V => l.emptying slot) c.pc := by
    split_ifs at account <;> omega
  exact count_pos.mp theirs

omit [DecidableEq V] [DecidableEq Tid] in
theorem Balanced.filler (balanced : Balanced c.shared.stk c.pc) {t : Tid}
    (waits : (c.pc t).emptying slot = true) (empty : c.shared.stk.data slot = none) :
    ∃ u, (c.pc u).filling slot = true := by
  have account := balanced.slots slot
  have mine : 0 < count (fun l : AmstackPc V => l.emptying slot) c.pc := count_pos.mpr ⟨t, waits⟩
  have occupied : Cells.occupied c.shared.stk.data slot = 0 := by
    simp [Cells.occupied, empty]
  have theirs : 0 < count (fun l : AmstackPc V => l.filling slot) c.pc := by omega
  exact count_pos.mp theirs

omit [Fintype Tid] [DecidableEq Tid] in
theorem nearer_emptying {u : Tid} {ptr : V} (waits : (c.pc u).emptying slot = true)
    (full : c.shared.stk.data slot = some ptr) : Nearer c.shared (c.pc u) := by
  cases here : c.pc u with
  | popLoad own =>
      rw [here] at waits
      obtain rfl : own = slot := beq_iff_eq.mp waits
      exact ((within_popLoad full).mono (by decide)).imp fun l less => Nat.lt_succ_of_lt less
  | popTake own other =>
      rw [here] at waits
      obtain rfl : own = slot := beq_iff_eq.mp waits
      exact within_popTake other full
  | _ =>
      rw [here] at waits
      cases waits

omit [Fintype Tid] [DecidableEq Tid] in
theorem nearer_filling {u : Tid} (waits : (c.pc u).filling slot = true)
    (empty : c.shared.stk.data slot = none) : Nearer c.shared (c.pc u) := by
  cases here : c.pc u with
  | pushFill data own =>
      rw [here] at waits
      obtain rfl : own = slot := beq_iff_eq.mp waits
      exact (within_pushFill data empty).mono (by decide)
  | _ =>
      rw [here] at waits
      cases waits

omit [DecidableEq Tid] in
theorem nearer_slot (balanced : Balanced c.shared.stk c.pc) {t : Tid}
    (waits : (c.pc t).filling slot = true ∨ (c.pc t).emptying slot = true) :
    ∃ u, Nearer c.shared (c.pc u) := by
  cases cell : c.shared.stk.data slot with
  | none =>
      have there : ∃ u, (c.pc u).filling slot = true := by
        rcases waits with fills | empties
        · exact ⟨t, fills⟩
        · exact balanced.filler empties cell
      obtain ⟨u, fills⟩ := there
      exact ⟨u, nearer_filling fills cell⟩
  | some ptr =>
      have there : ∃ u, (c.pc u).emptying slot = true := by
        rcases waits with fills | empties
        · exact balanced.emptier fills (by simp [cell])
        · exact ⟨t, empties⟩
      obtain ⟨u, empties⟩ := there
      exact ⟨u, nearer_emptying empties cell⟩

omit [DecidableEq Tid] in
theorem exists_nearer (balanced : Balanced c.shared.stk c.pc) {t : Tid}
    (running : (c.pc t).ahead ≠ 0) : ∃ u, Nearer c.shared (c.pc u) := by
  cases here : c.pc t with
  | idle =>
      rw [here] at running
      exact absurd rfl running
  | pushRead data =>
      exact ⟨t, here ▸ ((within_pushRead data).mono (by decide)).imp fun l less =>
        Nat.lt_succ_of_lt less⟩
  | pushSwap data size => exact ⟨t, here ▸ within_pushSwap data size⟩
  | pushFill data slot =>
      have fills : (c.pc t).filling slot = true := by simp [here, AmstackPc.filling]
      exact nearer_slot balanced (.inl fills)
  | pushDone data rc => exact ⟨t, here ▸ .tick rfl (.here (by simp))⟩
  | popRead =>
      exact ⟨t, here ▸ (within_popRead.mono (by decide)).imp fun l less => Nat.lt_succ_of_lt less⟩
  | popSwap size => exact ⟨t, here ▸ within_popSwap size⟩
  | popLoad slot =>
      have empties : (c.pc t).emptying slot = true := by simp [here, AmstackPc.emptying]
      exact nearer_slot balanced (.inr empties)
  | popTake slot ptr =>
      have empties : (c.pc t).emptying slot = true := by simp [here, AmstackPc.emptying]
      exact nearer_slot balanced (.inr empties)
  | popDone out rc => exact ⟨t, here ▸ .tick rfl (.here (by simp))⟩

/-- Whatever calls are under way, all of them can return without another call being made. -/
theorem amstack_completes {malloc : UInt64 → Bool} {capacity : UInt64} {stk : Amstack V}
    (allocated : amstackAlloc malloc capacity = some stk) {actions : List (Tid × Act V)}
    (run : Run (Config.step next) Any (start Tid stk) actions c) :
    ∃ ticks c', Run (Config.step next) (Only .tick) c ticks c' ∧
      ticks.length ≤ 15 * Fintype.card Tid ∧
      ∀ t, c'.pc t = .idle := by
  have kept : ∀ (c : Config Tid (Shared V) (AmstackPc V)) act c', Accounted c →
      c.step next act = some c' →
      act.2 = .tick → Accounted c' := fun c act c' accounted fired _ =>
      accounted_step c act c' accounted fired
  obtain ⟨ticks, c', ran, short, rest⟩ := all_come_to_rest AmstackPc.ahead kept ahead_le
    (fun c accounted t running => exists_nearer accounted.balanced running)
    (accounted_run allocated run)
  refine ⟨ticks, c', ran, short, fun t => ?_⟩
  have none := rest t
  cases here : c'.pc t with
  | idle => rfl
  | _ =>
      rw [here] at none
      cases none

/-- A pop waits for a push that has reserved its slot, and another push for that pop. -/
theorem amstack_completes_sample : ∃ c : Config (Fin 3) (Shared ℕ) (AmstackPc ℕ),
    (∀ t, c.pc t ≠ .idle) ∧ ∃ ticks c', Run (Config.step next) (Only .tick) c ticks c' ∧
      ticks.length ≤ 45 ∧
      ∀ t, c'.pc t = .idle := by
  have allocated : amstackAlloc (fun _ => true) 1 = some (⟨1, 0, fun _ => none⟩ : Amstack ℕ) := rfl
  have run : Run (Config.step next) Any (start (Fin 3) (⟨1, 0, fun _ => none⟩ : Amstack ℕ))
      [(0, .push (some 7)), (0, .tick), (0, .tick), (1, .pop true), (1, .tick),
        (1, .tick), (1, .tick), (2, .push (some 8)), (2, .tick), (2, .tick)] _ := run_any rfl
  exact ⟨_, by decide, amstack_completes allocated run⟩

end Waiting

section Contention

/-- What the calls read and swap: the size and the slots. -/
inductive Word
  | size
  | slot (i : ℕ)

def Shared.cell (g : Shared V) : Word → ℕ ⊕ Option V
  | .size => .inl g.stk.size
  | .slot i => .inr (g.stk.data i)

def AmstackPc.view : AmstackPc V → Option (Word × (ℕ ⊕ Option V))
  | .pushSwap _ size => some (.size, .inl size)
  | .popSwap size => some (.size, .inl size)
  | .popTake slot ptr => some (.slot slot, .inr (some ptr))
  | _ => none

variable [DecidableEq V]

def effort (g : Shared V) : AmstackPc V → Act V → Effort
  | _, .push _ => .call
  | _, .pop _ => .call
  | .pushSwap _ size, .tick => if g.stk.size = size then .swap else .retry
  | .pushFill _ slot, .tick => if g.stk.data slot = none then .swap else .wait
  | .popSwap size, .tick => if g.stk.size = size then .swap else .retry
  | .popLoad slot, .tick => if g.stk.data slot = none then .wait else .access
  | .popTake slot ptr, .tick => if g.stk.data slot = some ptr then .swap else .retry
  | _, .tick => .access

theorem next_contends (g : Shared V) (pc : AmstackPc V) (a : Act V) (g' : Shared V)
    (l : AmstackPc V) (fired : next g pc a = some (g', l)) :
    Contends Shared.cell AmstackPc.view AmstackPc.ahead 5 2 g pc g' l (effort g pc a) := by
  cases a with
  | push data =>
      simp only [next] at fired
      split at fired
      · cases data <;> cases fired <;> exact .call rfl rfl (by simp [amstackPush])
      · cases fired
  | pop out =>
      simp only [next] at fired
      split at fired
      · cases out <;> cases fired <;> exact .call rfl rfl (by simp [amstackPop])
      · cases fired
  | tick =>
      cases pc with
      | idle => cases fired
      | pushRead data =>
          simp only [next, amstackAccess] at fired
          split at fired
          · cases fired
            exact .access rfl (by simp [AmstackPc.view]) (by simp)
          · cases fired
            refine .access rfl ?_ (by simp)
            rintro _ _ ⟨⟩
            exact .inr rfl
      | pushSwap data size =>
          simp only [next, amstackAccess] at fired
          simp only [effort]
          split at fired
          · rename_i same
            cases fired
            rw [if_pos same]
            exact .swap rfl (by simp)
          · rename_i stale
            cases fired
            rw [if_neg stale]
            exact .retry .size (.inl size) rfl rfl (by simp [Shared.cell, stale]) rfl (by simp)
      | pushFill data slot =>
          simp only [next, amstackAccess] at fired
          simp only [effort]
          split at fired
          · rename_i empty
            cases fired
            rw [if_pos empty]
            exact .swap rfl (by simp)
          · rename_i full
            cases fired
            rw [if_neg full]
            exact .wait rfl rfl (by simp)
      | pushDone data rc =>
          cases fired
          exact .access rfl (by simp [AmstackPc.view]) (by simp)
      | popRead =>
          simp only [next, amstackAccess] at fired
          split at fired
          · cases fired
            exact .access rfl (by simp [AmstackPc.view]) (by simp)
          · cases fired
            refine .access rfl ?_ (by simp)
            rintro _ _ ⟨⟩
            exact .inr rfl
      | popSwap size =>
          simp only [next, amstackAccess] at fired
          simp only [effort]
          split at fired
          · rename_i same
            cases fired
            rw [if_pos same]
            exact .swap rfl (by simp)
          · rename_i stale
            cases fired
            rw [if_neg stale]
            exact .retry .size (.inl size) rfl rfl (by simp [Shared.cell, stale]) rfl (by simp)
      | popLoad slot =>
          simp only [next, amstackAccess] at fired
          simp only [effort]
          split at fired
          · rename_i empty
            cases fired
            rw [if_pos empty]
            exact .wait rfl rfl (by simp)
          · rename_i ptr full
            cases fired
            rw [if_neg (by simp [full])]
            refine .access rfl ?_ (by simp)
            rintro _ _ ⟨⟩
            exact .inr (by simp [Shared.cell, full])
      | popTake slot ptr =>
          simp only [next, amstackAccess] at fired
          simp only [effort]
          split at fired
          · rename_i full
            cases fired
            rw [if_pos full]
            exact .swap rfl (by simp)
          · rename_i lost
            cases fired
            rw [if_neg lost]
            exact .retry (.slot slot) (.inr (some ptr)) rfl rfl
              (by simp [Shared.cell, lost]) rfl (by simp)
      | popDone out rc =>
          cases fired
          exact .access rfl (by simp [AmstackPc.view]) (by simp)

variable {Tid : Type} [DecidableEq Tid]

/-- Apart from its waits for a slot, a thread makes five accesses for a call and two for each swap
of another thread, and it repeats no swap that no other thread has forestalled. -/
theorem amstack_accesses {c c' : Config Tid (Shared V) (AmstackPc V)} {t : Tid}
    (idle : c.pc t = .idle) {actions : List (Tid × Act V)}
    (run : Run (Config.step next) Any c actions c') :
    let events := history next (fun g pc a => some (effort g pc a)) c actions
    retries t events ≤ swapsOfOthers t events ∧
    spent t events ≤ 5 * calls t events + 2 * swapsOfOthers t events :=
  spent_le effort next_contends (by rw [idle]; rfl) (by rw [idle]; rfl) run

/-- A push loses its swap of the size to another one. -/
theorem amstack_accesses_sample : ∃ events : List (Fin 2 × Effort), retries 0 events = 1 ∧
    spent 0 events = 6 ∧
    retries 0 events ≤ swapsOfOthers 0 events ∧
    spent 0 events ≤ 5 * calls 0 events + 2 * swapsOfOthers 0 events := by
  have run : Run (Config.step next) Any (start (Fin 2) (⟨2, 0, fun _ => none⟩ : Amstack ℕ))
      [(0, .push (some 7)), (0, .tick), (1, .push (some 8)), (1, .tick), (1, .tick),
        (0, .tick), (1, .tick), (0, .tick), (0, .tick), (0, .tick), (0, .tick)] _ := run_any rfl
  refine ⟨_, ?_, ?_, amstack_accesses (t := 0) rfl run⟩
  · rfl
  · rfl

end Contention

end Libam.Stack
