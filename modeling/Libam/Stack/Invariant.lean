import Libam.Stack.Model
import Libam.Concurrency.Cells

/-! Every slot of the array stack is accounted for by the stack and its running calls. -/

namespace Libam.Stack

open Libam.Interleaving

variable {V : Type}

def AmstackPc.filling (i : ℕ) : AmstackPc V → Bool
  | .pushFill _ slot => slot == i
  | _ => false

def AmstackPc.emptying (i : ℕ) : AmstackPc V → Bool
  | .popLoad slot => slot == i
  | .popTake slot _ => slot == i
  | _ => false

def AmstackPc.filled [DecidableEq V] (v : V) : AmstackPc V → Bool
  | .pushDone data rc => data == some v && rc == .success
  | _ => false

def AmstackPc.taken [DecidableEq V] (v : V) : AmstackPc V → Bool
  | .popDone out rc => out == some v && rc == .success
  | _ => false

def AmstackPc.Checked (capacity : ℕ) : AmstackPc V → Prop
  | .pushSwap _ size => size < capacity
  | .pushFill _ slot => slot < capacity
  | .popSwap size => size ≠ 0
  | .popLoad slot => slot < capacity
  | .popTake slot _ => slot < capacity
  | _ => True

def Amstack.stored [DecidableEq V] (stk : Amstack V) (v : V) : ℕ :=
  Cells.stored stk.data stk.capacity v

section Access

variable [DecidableEq V] {stk stk' : Amstack V} {pc pc' : AmstackPc V}

theorem access_capacity (fired : amstackAccess stk pc = some (stk', pc')) :
    stk'.capacity = stk.capacity := by
  cases pc <;> simp only [amstackAccess] at fired <;> (try split at fired) <;> cases fired <;> rfl

theorem access_size (fired : amstackAccess stk pc = some (stk', pc'))
    (checked : pc.Checked stk.capacity) (bound : stk.size ≤ stk.capacity) :
    stk'.size ≤ stk'.capacity := by
  cases pc <;> simp only [amstackAccess] at fired <;> (try split at fired) <;> cases fired <;>
    simp only [AmstackPc.Checked] at checked ⊢ <;> omega

theorem access_checked (fired : amstackAccess stk pc = some (stk', pc'))
    (checked : pc.Checked stk.capacity) (bound : stk.size ≤ stk.capacity) :
    pc'.Checked stk'.capacity := by
  cases pc <;> simp only [amstackAccess] at fired <;> (try split at fired) <;> cases fired <;>
    simp only [AmstackPc.Checked] at checked ⊢ <;> omega

/-- One access moves slot `i` between the stack and the call, never out of the account. -/
theorem access_slot (fired : amstackAccess stk pc = some (stk', pc'))
    (checked : pc.Checked stk.capacity) (i : ℕ) :
    Cells.occupied stk'.data i + (if pc'.filling i then 1 else 0) +
        (if pc.emptying i then 1 else 0) +
        (if i < stk.size then 1 else 0) =
      Cells.occupied stk.data i + (if pc.filling i then 1 else 0) +
        (if pc'.emptying i then 1 else 0) +
        (if i < stk'.size then 1 else 0) := by
  cases pc with
  | idle => cases fired
  | pushRead data =>
      simp only [amstackAccess] at fired
      split at fired <;> cases fired <;> simp [AmstackPc.filling, AmstackPc.emptying]
  | pushSwap data size =>
      simp only [amstackAccess] at fired
      split at fired
      · rename_i same
        cases fired
        simp only [AmstackPc.filling, AmstackPc.emptying, Cells.occupied, same, beq_iff_eq,
          Bool.false_eq_true, if_false]
        split_ifs <;> omega
      · cases fired
        simp [AmstackPc.filling, AmstackPc.emptying]
  | pushFill data slot =>
      simp only [amstackAccess] at fired
      split at fired
      · rename_i empty
        cases fired
        rw [Cells.occupied_fill _ _ _ _ empty]
        simp [AmstackPc.filling, AmstackPc.emptying]
      · cases fired
        rfl
  | pushDone data rc => cases fired
  | popRead =>
      simp only [amstackAccess] at fired
      split at fired <;> cases fired <;> simp [AmstackPc.filling, AmstackPc.emptying]
  | popSwap size =>
      simp only [amstackAccess] at fired
      split at fired
      · rename_i same
        cases fired
        simp only [AmstackPc.Checked] at checked
        simp only [AmstackPc.filling, AmstackPc.emptying, Cells.occupied, same, beq_iff_eq,
          Bool.false_eq_true, if_false]
        split_ifs <;> omega
      · cases fired
        simp [AmstackPc.filling, AmstackPc.emptying]
  | popLoad slot =>
      simp only [amstackAccess] at fired
      split at fired <;> cases fired <;> simp [AmstackPc.filling, AmstackPc.emptying]
  | popTake slot ptr =>
      simp only [amstackAccess] at fired
      split at fired
      · rename_i full
        cases fired
        rw [← Cells.occupied_take _ slot i _ full]
        simp [AmstackPc.filling, AmstackPc.emptying]
      · cases fired
        simp [AmstackPc.filling, AmstackPc.emptying]
  | popDone out rc => cases fired

theorem access_value (fired : amstackAccess stk pc = some (stk', pc'))
    (checked : pc.Checked stk.capacity) (v : V) :
    stk'.stored v + (if pc'.taken v then 1 else 0) + (if pc.filled v then 1 else 0) =
      stk.stored v + (if pc.taken v then 1 else 0) + (if pc'.filled v then 1 else 0) := by
  cases pc with
  | idle => cases fired
  | pushRead data =>
      simp only [amstackAccess] at fired
      split at fired <;> cases fired <;> simp [AmstackPc.taken, AmstackPc.filled]
  | pushSwap data size =>
      simp only [amstackAccess] at fired
      split at fired <;> cases fired <;> simp [AmstackPc.taken, AmstackPc.filled, Amstack.stored]
  | pushFill data slot =>
      simp only [amstackAccess] at fired
      split at fired
      · rename_i empty
        cases fired
        have moved := Cells.stored_fill stk.data stk.capacity slot v data empty checked
        simp [AmstackPc.taken, AmstackPc.filled, Amstack.stored, moved]
      · cases fired
        rfl
  | pushDone data rc => cases fired
  | popRead =>
      simp only [amstackAccess] at fired
      split at fired <;> cases fired <;> simp [AmstackPc.taken, AmstackPc.filled]
  | popSwap size =>
      simp only [amstackAccess] at fired
      split at fired <;> cases fired <;> simp [AmstackPc.taken, AmstackPc.filled, Amstack.stored]
  | popLoad slot =>
      simp only [amstackAccess] at fired
      split at fired <;> cases fired <;> simp [AmstackPc.taken, AmstackPc.filled]
  | popTake slot ptr =>
      simp only [amstackAccess] at fired
      split at fired
      · rename_i full
        cases fired
        have moved := Cells.stored_take stk.data stk.capacity slot v ptr full checked
        simp [AmstackPc.taken, AmstackPc.filled, Amstack.stored, ← moved]
      · cases fired
        simp [AmstackPc.taken, AmstackPc.filled]
  | popDone out rc => cases fired

end Access

section Balance

variable {Tid : Type} [Fintype Tid] [DecidableEq Tid]

structure Balanced (stk : Amstack V) (pc : Tid → AmstackPc V) : Prop where
  bound : stk.size ≤ stk.capacity
  slots : ∀ i, Cells.occupied stk.data i + count (fun l => l.filling i) pc =
    (if i < stk.size then 1 else 0) + count (fun l => l.emptying i) pc
  checked : ∀ t, (pc t).Checked stk.capacity

theorem balanced_access [DecidableEq V] {stk stk' : Amstack V} {pc : Tid → AmstackPc V} {t : Tid}
    {l : AmstackPc V} (balanced : Balanced stk pc)
    (fired : amstackAccess stk (pc t) = some (stk', l)) :
    Balanced stk' (Function.update pc t l) := by
  have checked := balanced.checked t
  refine ⟨access_size fired checked balanced.bound, ?_, ?_⟩
  · intro i
    have moved := access_slot fired checked i
    have filling := count_update (fun l : AmstackPc V => l.filling i) pc t l
    have emptying := count_update (fun l : AmstackPc V => l.emptying i) pc t l
    have before := balanced.slots i
    omega
  · refine (Function.forall_update_iff pc fun _ (l : AmstackPc V) => l.Checked stk'.capacity).mpr ?_
    refine ⟨access_checked fired checked balanced.bound, fun u _ => ?_⟩
    rw [access_capacity fired]
    exact balanced.checked u

theorem balanced_quiet {stk : Amstack V} {pc : Tid → AmstackPc V} {t : Tid} {l : AmstackPc V}
    (balanced : Balanced stk pc) (checked : l.Checked stk.capacity)
    (before : ∀ i, (pc t).filling i = false ∧ (pc t).emptying i = false)
    (after : ∀ i, l.filling i = false ∧ l.emptying i = false) :
    Balanced stk (Function.update pc t l) := by
  refine ⟨balanced.bound, ?_, ?_⟩
  · intro i
    have filling := count_update (fun l : AmstackPc V => l.filling i) pc t l
    have emptying := count_update (fun l : AmstackPc V => l.emptying i) pc t l
    have earlier := balanced.slots i
    simp only [before i, after i] at filling emptying
    omega
  · refine (Function.forall_update_iff pc fun _ (l : AmstackPc V) => l.Checked stk.capacity).mpr ?_
    exact ⟨checked, fun u _ => balanced.checked u⟩

end Balance

section Runs

variable [DecidableEq V]

theorem next_cases {g g' : Shared V} {pc l : AmstackPc V} {a : Act V}
    (fired : next g pc a = some (g', l)) :
    (pc = .idle ∧ g' = g ∧ ((∃ data, l = amstackPush data) ∨ ∃ out, l = amstackPop out)) ∨
    (∃ data rc, pc = .pushDone data rc ∧ l = .idle ∧
      g' = { g with pushed := succeeded data rc ++ g.pushed }) ∨
    (∃ out rc, pc = .popDone out rc ∧ l = .idle ∧
      g' = { g with popped := succeeded out rc ++ g.popped }) ∨
    (∃ stk, amstackAccess g.stk pc = some (stk, l) ∧ g' = { g with stk := stk }) := by
  cases a with
  | push data =>
      simp only [next] at fired
      split at fired
      · rename_i idle
        cases fired
        exact .inl ⟨idle, rfl, .inl ⟨data, rfl⟩⟩
      · cases fired
  | pop out =>
      simp only [next] at fired
      split at fired
      · rename_i idle
        cases fired
        exact .inl ⟨idle, rfl, .inr ⟨out, rfl⟩⟩
      · cases fired
  | tick =>
      simp only [next] at fired
      split at fired
      · cases fired
        exact .inr (.inl ⟨_, _, rfl, rfl, rfl⟩)
      · cases fired
        exact .inr (.inr (.inl ⟨_, _, rfl, rfl, rfl⟩))
      · simp only [Option.map_eq_some_iff, Prod.exists, Prod.mk.injEq] at fired
        obtain ⟨stk, after, accessed, rfl, rfl⟩ := fired
        exact .inr (.inr (.inr ⟨stk, accessed, rfl⟩))

theorem count_succeeded (data : Option V) (rc : Amrc) (v : V) :
    (succeeded data rc).count v = if AmstackPc.filled v (.pushDone data rc) then 1 else 0 := by
  cases data <;> cases rc <;> simp [succeeded, AmstackPc.filled, List.count_singleton]

variable {Tid : Type} [Fintype Tid] [DecidableEq Tid]

structure Accounted (c : Config Tid (Shared V) (AmstackPc V)) : Prop where
  balanced : Balanced c.shared.stk c.pc
  values : ∀ v, c.shared.pushed.count v + count (fun l => l.filled v) c.pc =
    c.shared.stk.stored v + (c.shared.popped.count v + count (fun l => l.taken v) c.pc)

def AmstackPc.Quiet (pc : AmstackPc V) : Prop :=
  (∀ i, pc.filling i = false ∧ pc.emptying i = false) ∧ ∀ v, pc.filled v = false ∧
    pc.taken v = false

theorem quiet_idle : (AmstackPc.idle : AmstackPc V).Quiet :=
  ⟨fun _ => ⟨rfl, rfl⟩, fun _ => ⟨rfl, rfl⟩⟩

theorem quiet_push (data : Option V) : (amstackPush data).Quiet := by
  cases data <;> exact ⟨fun _ => ⟨rfl, rfl⟩, fun _ => ⟨rfl, rfl⟩⟩

theorem quiet_pop (out : Bool) : (amstackPop out : AmstackPc V).Quiet := by
  cases out <;> exact ⟨fun _ => ⟨rfl, rfl⟩, fun _ => ⟨rfl, rfl⟩⟩

theorem called_checked {l : AmstackPc V} (capacity : ℕ)
    (called : (∃ data, l = amstackPush data) ∨ ∃ out, l = amstackPop out) :
    l.Checked capacity ∧ l.Quiet := by
  rcases called with ⟨data, rfl⟩ | ⟨out, rfl⟩
  · exact ⟨by cases data <;> trivial, quiet_push data⟩
  · exact ⟨by cases out <;> trivial, quiet_pop out⟩

omit [DecidableEq Tid] in
theorem accounted_start (malloc : UInt64 → Bool) (capacity : UInt64) (stk : Amstack V)
    (allocated : amstackAlloc malloc capacity = some stk) : Accounted (start Tid stk) := by
  obtain ⟨-, rfl⟩ := alloc_eq_some.mp allocated
  have none (p : AmstackPc V → Bool) (idle : p .idle = false) :
      count (fun l => p l) (fun _ : Tid => AmstackPc.idle) = 0 :=
    count_eq_zero.mpr fun _ => by simp [idle]
  refine ⟨⟨Nat.zero_le _, fun i => ?_, fun _ => trivial⟩, fun v => ?_⟩
  · rw [start, none (·.filling i) rfl, none (·.emptying i) rfl]
    rfl
  · rw [start, none (·.filled v) rfl, none (·.taken v) rfl]
    simp [Amstack.stored, Cells.stored]

theorem accounted_step (c : Config Tid (Shared V) (AmstackPc V)) (act : Tid × Act V)
    (c' : Config Tid (Shared V) (AmstackPc V)) (accounted : Accounted c)
    (fired : c.step next act = some c') : Accounted c' := by
  obtain ⟨balanced, values⟩ := accounted
  obtain ⟨g, l, moved, rfl⟩ := Config.step_eq_some.mp fired
  have filled v := count_update (fun l : AmstackPc V => l.filled v) c.pc act.1 l
  have taken v := count_update (fun l : AmstackPc V => l.taken v) c.pc act.1 l
  rcases next_cases moved with ⟨idle, rfl, called⟩ | ⟨data, rc, done, rfl, rfl⟩ |
    ⟨out, rc, done, rfl, rfl⟩ | ⟨stk, accessed, rfl⟩
  · have quiet : (c.pc act.1).Quiet := idle ▸ quiet_idle
    have fresh := called_checked c.shared.stk.capacity called
    refine ⟨balanced_quiet balanced fresh.1 quiet.1 fresh.2.1, fun v => ?_⟩
    have before := values v
    have filled := filled v
    have taken := taken v
    simp only [quiet.2 v, fresh.2.2 v, Bool.false_eq_true, if_false] at filled taken
    simp only
    omega
  · refine ⟨balanced_quiet balanced trivial (by simp [done, AmstackPc.filling, AmstackPc.emptying])
      quiet_idle.1, fun v => ?_⟩
    have before := values v
    have returned := count_succeeded data rc v
    have filled := filled v
    have taken := taken v
    have untaken : (AmstackPc.pushDone data rc).taken v = false := rfl
    simp only [done, untaken, quiet_idle.2 v, Bool.false_eq_true, if_false] at filled taken
    simp only [List.count_append]
    omega
  · refine ⟨balanced_quiet balanced trivial (by simp [done, AmstackPc.filling, AmstackPc.emptying])
      quiet_idle.1, fun v => ?_⟩
    have before := values v
    have returned := count_succeeded out rc v
    have filled := filled v
    have taken := taken v
    have unfilled : (AmstackPc.popDone out rc).filled v = false := rfl
    have same : (AmstackPc.popDone out rc).taken v = (AmstackPc.pushDone out rc).filled v := rfl
    simp only [done, unfilled, same, quiet_idle.2 v, Bool.false_eq_true, if_false] at filled taken
    simp only [List.count_append]
    omega
  · refine ⟨balanced_access balanced accessed, fun v => ?_⟩
    have before := values v
    have accessedValue := access_value accessed (balanced.checked act.1) v
    have filled := filled v
    have taken := taken v
    simp only
    omega

theorem accounted_run {malloc : UInt64 → Bool} {capacity : UInt64} {stk : Amstack V}
    (allocated : amstackAlloc malloc capacity = some stk) {actions : List (Tid × Act V)}
    {c : Config Tid (Shared V) (AmstackPc V)}
    (run : Run (Config.step next) Any (start Tid stk) actions c) : Accounted c :=
  run.invariant Accounted (accounted_start malloc capacity stk allocated)
    fun c act c' accounted fired _ => accounted_step c act c' accounted fired

omit [Fintype Tid] in
theorem capacity_step (c : Config Tid (Shared V) (AmstackPc V)) (act : Tid × Act V)
    (c' : Config Tid (Shared V) (AmstackPc V)) (fired : c.step next act = some c') :
    c'.shared.stk.capacity = c.shared.stk.capacity := by
  obtain ⟨g, l, moved, rfl⟩ := Config.step_eq_some.mp fired
  rcases next_cases moved with ⟨_, rfl, _⟩ | ⟨_, _, _, _, rfl⟩ | ⟨_, _, _, _, rfl⟩ |
    ⟨stk, accessed, rfl⟩
  · rfl
  · rfl
  · rfl
  · exact access_capacity accessed

omit [Fintype Tid] in
theorem capacity_run {malloc : UInt64 → Bool} {capacity : UInt64} {stk : Amstack V}
    (allocated : amstackAlloc malloc capacity = some stk) {actions : List (Tid × Act V)}
    {c : Config Tid (Shared V) (AmstackPc V)}
    (run : Run (Config.step next) Any (start Tid stk) actions c) :
    c.shared.stk.capacity = capacity.toNat := by
  refine run.invariant (fun c => c.shared.stk.capacity = capacity.toNat) ?_ ?_
  · rw [(alloc_eq_some.mp allocated).2]
    rfl
  · intro c act c' same fired _
    exact (capacity_step c act c' fired).trans same

theorem amstack_slots_accounted {malloc : UInt64 → Bool} {capacity : UInt64} {stk : Amstack V}
    (allocated : amstackAlloc malloc capacity = some stk) {actions : List (Tid × Act V)}
    {c : Config Tid (Shared V) (AmstackPc V)}
    (run : Run (Config.step next) Any (start Tid stk) actions c) :
    c.shared.stk.size ≤ capacity.toNat ∧
    (∀ i, ((if (c.shared.stk.data i).isSome then 1 else 0 : ℤ) +
        count (fun l => l.filling i) c.pc - count (fun l => l.emptying i) c.pc) =
      if i < c.shared.stk.size then 1 else 0) ∧
    (∀ v, c.shared.pushed.count v + count (fun l => l.filled v) c.pc =
      c.shared.stk.stored v + (c.shared.popped.count v + count (fun l => l.taken v) c.pc)) ∧
    ((∀ t, c.pc t = .idle) →
      (∀ i, (c.shared.stk.data i).isSome ↔ i < c.shared.stk.size) ∧
      ∀ v, c.shared.pushed.count v = c.shared.stk.stored v + c.shared.popped.count v) := by
  obtain ⟨⟨bound, slots, _⟩, values⟩ := accounted_run allocated run
  refine ⟨capacity_run allocated run ▸ bound, fun i => ?_, values, fun idle =>
    ⟨fun i => ?_, fun v => ?_⟩⟩
  · have account := slots i
    simp only [Cells.occupied] at account
    split_ifs at account ⊢ <;> omega
  · have account := slots i
    have unfilling : count (fun l : AmstackPc V => l.filling i) c.pc = 0 :=
      count_eq_zero.mpr fun t => by simp [idle t, quiet_idle.1 i]
    have unemptying : count (fun l : AmstackPc V => l.emptying i) c.pc = 0 :=
      count_eq_zero.mpr fun t => by simp [idle t, quiet_idle.1 i]
    simp only [Cells.occupied] at account
    split_ifs at account with full below below <;> simp_all
  · have account := values v
    have unfilled : count (fun l : AmstackPc V => l.filled v) c.pc = 0 :=
      count_eq_zero.mpr fun t => by simp [idle t, quiet_idle.2 v]
    have untaken : count (fun l : AmstackPc V => l.taken v) c.pc = 0 :=
      count_eq_zero.mpr fun t => by simp [idle t, quiet_idle.2 v]
    omega

/-- Two pushes that meet on one slot, and a pop. -/
theorem amstack_slots_accounted_sample : ∃ c : Config (Fin 2) (Shared ℕ) (AmstackPc ℕ),
    c.shared.popped = [8] ∧ c.shared.stk.size ≤ 2 ∧
      c.shared.pushed.count 7 = c.shared.stk.stored 7 := by
  have allocated : amstackAlloc (fun _ => true) 2 = some (⟨2, 0, fun _ => none⟩ : Amstack ℕ) := rfl
  have run : Run (Config.step next) Any (start (Fin 2) (⟨2, 0, fun _ => none⟩ : Amstack ℕ))
      [(0, .push (some 7)), (0, .tick), (1, .push (some 8)), (1, .tick), (0, .tick), (1, .tick),
        (1, .tick), (1, .tick), (1, .tick), (1, .tick), (0, .tick), (0, .tick), (1, .pop true),
        (1, .tick), (1, .tick), (1, .tick), (1, .tick), (1, .tick)] _ := run_any rfl
  have account := amstack_slots_accounted allocated run
  have idle := account.2.2.2 (by decide)
  exact ⟨_, rfl, account.1, (idle.2 7).trans rfl⟩

end Runs

end Libam.Stack
