import Libam.Strhash.Calls

/-! The lock of a hash table. Every call gives it back before it returns, but for the removal of a
key that is not there, which returns with the lock held. -/

namespace Libam.Strhash

open Libam.Lists Libam.Interleaving

variable {V : Type} {hash hash' start : Amstrhash V} {entries entries' : List Pointer} {op : Op V}

section Conditions

/-- The five calls that `LIBAM_STRHASH_FLAG_USE_LOCK` is about. -/
def Op.locks : Op V → Bool
  | .setEntValue .. => false
  | .write .. => false
  | _ => true

def Present (hash : Amstrhash V) (key : Pointer) : Prop :=
  ∃ str, hash.strings key = some str ∧ ∃ ent ∈ hash.listed, hash.hashAt ent = some (amshash str)

def Removable (hash : Amstrhash V) : Op V → Prop
  | .removeKey key => Present hash key
  | .remove ent => ent ≠ none
  | _ => True

def Balanced (hash : Amstrhash V) (op : Op V) (hash' : Amstrhash V) : Prop :=
  op.locks = true → hash'.lock = ⟨0, false⟩ ∧
    (hash'.lockCalls = hash.lockCalls ++ [.wrlock, .unlock] ∨
      hash'.lockCalls = hash.lockCalls ++ [.rdlock, .unlock])

end Conditions

section Proofs

theorem Op.final_lock (op : Op V) (hash' : Amstrhash V) (uses : hash.flags.useLock = true)
    (result : Result) :
    (op.final hash hash' result).lock = op.leaves result ∧
      (op.final hash hash' result).lockCalls = hash.lockCalls ++ op.lockCalls result := by
  simp only [Op.final, Amstrhash.relock, Amstrhash.called, uses, if_true, and_self]

theorem Outcome.balanced_iff (uses : hash.flags.useLock = true) (filed : Filed hash entries)
    {result : Result} (outcome : Outcome hash entries op hash' entries' result) :
    Balanced hash op (op.final hash hash' result) ↔ Removable hash op := by
  obtain ⟨lock, calls⟩ := op.final_lock hash' uses result
  rw [Balanced, lock, calls]
  have listed {ent : Pointer} (member : ent ∈ entries) : ent ∈ hash.listed :=
    filed.all.mem_iff.mpr member
  cases outcome with
  | insert => simp [Op.locks, Op.leaves, Op.lockCalls, Removable]
  | find => simp [Op.locks, Op.leaves, Op.lockCalls, Removable]
  | removeNull => simp [Op.locks, Op.leaves, Op.lockCalls, Removable]
  | remove => simp [Op.locks, Op.leaves, Op.lockCalls, Removable]
  | @removeAbsent key _ isKey absent =>
      have notThere : ¬ Present hash key := by
        rintro ⟨str', isKey', ent, member, atEnt⟩
        cases isKey.symm.trans isKey'
        exact absent ent (filed.all.mem_iff.mp member) atEnt
      simp [Op.locks, Op.leaves, Op.lockCalls, Removable, notThere]
  | @removeKey key _ _ _ isKey member here same =>
      have there : Present hash key := by
        refine ⟨_, isKey, _, listed member, ?_⟩
        rw [Amstrhash.hashAt, here, Option.map_some, same]
      simp [Op.locks, Op.leaves, Op.lockCalls, Removable, there]
  | setEntValue => simp [Op.locks, Removable]
  | term => simp [Op.locks, Op.leaves, Op.lockCalls, Removable]
  | write => simp [Op.locks, Removable]

/-- A balanced call leaves the lock free, and so do the two operations without the lock. -/
theorem Outcome.free (uses : hash.flags.useLock = true) {result : Result}
    (outcome : Outcome hash entries op hash' entries' result)
    (balanced : Balanced hash op (op.final hash hash' result)) :
    (op.final hash hash' result).lock = ⟨0, false⟩ := by
  cases locks : op.locks with
  | true => exact (balanced locks).1
  | false =>
      rw [(op.final_lock hash' uses result).1]
      cases outcome with
      | setEntValue => rfl
      | write => rfl
      | _ => cases locks

end Proofs

section Runs

def BalancedStep (hash : Amstrhash V) (op : Op V) (hash' : Amstrhash V) : Prop :=
  Ready hash op hash ∧ Balanced hash op hash'

def RemovableStep (hash : Amstrhash V) (op : Op V) (_ : Amstrhash V) : Prop :=
  Ready hash op hash ∧ Removable hash op

structure Calm (hash : Amstrhash V) : Prop where
  uses : hash.flags.useLock = true
  held : ∃ entries, Filed hash entries ∧ Kept hash entries
  free : hash.lock = ⟨0, false⟩

theorem Calm.step_iff (calm : Calm hash) (ready : Ready hash op hash) : ∃ hash' result,
    apply hash op = .ok (hash', result) ∧ (Balanced hash op hash' ↔ Removable hash op) ∧
      (Balanced hash op hash' → Calm hash') := by
  obtain ⟨entries, filed, kept⟩ := calm.held
  obtain ⟨hash', entries', result, run, outcome, filed', kept'⟩ :=
    apply_spec calm.free filed kept ready
  refine ⟨_, result, run, outcome.balanced_iff calm.uses filed, fun balanced => ⟨?_, ?_, ?_⟩⟩
  · exact outcome.flags.symm ▸ calm.uses
  · exact ⟨entries', filed'.relock _ _, kept'.relock _ _⟩
  · exact outcome.free calm.uses balanced

theorem calm_of_run {ops : List (Op V)} (calm : Calm start)
    (run : Run step BalancedStep start ops hash) : Calm hash := by
  apply run.invariant Calm calm
  intro s op s' calm fired ok
  obtain ⟨hash', result, applied, _, next⟩ := calm.step_iff ok.1
  simp only [step, applied, Option.some.injEq] at fired
  subst fired
  exact next ok.2

theorem run_balanced_iff {ops : List (Op V)} (calm : Calm start) :
    Run step BalancedStep start ops hash ↔ Run step RemovableStep start ops hash := by
  constructor
  · intro run
    induction run with
    | nil => exact .nil
    | snoc earlier fired ok ih =>
        obtain ⟨hash', result, applied, same, _⟩ := (calm_of_run calm earlier).step_iff ok.1
        refine .snoc ih fired ⟨ok.1, same.mp ?_⟩
        simp only [step, applied, Option.some.injEq] at fired
        exact fired ▸ ok.2
  · intro run
    induction run with
    | nil => exact .nil
    | snoc earlier fired ok ih =>
        obtain ⟨hash', result, applied, same, _⟩ := (calm_of_run calm ih).step_iff ok.1
        refine .snoc ih fired ⟨ok.1, ?_⟩
        have balanced := same.mpr ok.2
        simp only [step, applied, Option.some.injEq] at fired
        exact fired ▸ balanced

/-- Every call of a sequence takes the lock and gives it back if and only if every key that is
removed is in the table, and then the lock is free and the next call returns. -/
theorem amstrhash_lock_released (started : Started start) (uses : start.flags.useLock = true)
    (ops : List (Op V)) (hash : Amstrhash V) :
    (Run step BalancedStep start ops hash ↔ Run step RemovableStep start ops hash) ∧
      (Run step RemovableStep start ops hash → hash.lock = ⟨0, false⟩ ∧
        ∀ op, Ready hash op hash → ∃ hash' result, apply hash op = .ok (hash', result)) := by
  obtain ⟨inv, free, _⟩ := inv_started started
  have calm : Calm start := ⟨uses, inv.held, free⟩
  refine ⟨run_balanced_iff calm, fun run => ?_⟩
  have reached := calm_of_run calm ((run_balanced_iff calm).mpr run)
  refine ⟨reached.free, fun op ready => ?_⟩
  obtain ⟨hash', result, applied, _⟩ := reached.step_iff ready
  exact ⟨hash', result, applied⟩

theorem sample_started : ∃ start hash : Amstrhash ℕ, Started start ∧ start.flags.useLock = true ∧
    (∃ str, start.strings ⟨16, by decide⟩ = some str) ∧
      step start (.removeKey ⟨16, by decide⟩) = some hash ∧
      hash.lock = ⟨0, true⟩ ∧ hash.flags = start.flags ∧ hash.strings = start.strings := by
  obtain ⟨start, hash, made, uses, mapped, fired, lock, flags, strings, fits⟩ :
      ∃ start hash : Amstrhash ℕ,
      amstrhashInit 0 ⟨false, true, true, false, false⟩ none true true true sampleStrings = .ok
        (some start) ∧
        start.flags.useLock = true ∧ (∃ str, start.strings ⟨16, by decide⟩ = some str) ∧
        step start (.removeKey ⟨16, by decide⟩) = some hash ∧ hash.lock = ⟨0, true⟩ ∧
        hash.flags = start.flags ∧ hash.strings = start.strings ∧ start.capacity = 8 :=
    ⟨_, _, rfl, rfl, ⟨_, rfl⟩, rfl, rfl, rfl, rfl, rfl⟩
  exact ⟨start, hash, ⟨_, _, _, _, _, _, _, made, by rw [fits]; decide⟩, uses, mapped, fired, lock,
    flags, strings⟩

theorem sample_cycle : ∃ start hash : Amstrhash ℕ, Started start ∧ start.flags.useLock = true ∧
    Run step RemovableStep start
    [sampleInsert, .find ⟨16, by decide⟩, .removeKey ⟨16, by decide⟩] hash := by
  obtain ⟨start, full, found, hash, made, uses, capacity, insert, find, remove, mapped, copy, ent,
      mapped₁, mapped₂,
      there⟩ : ∃ start full found hash : Amstrhash ℕ,
      amstrhashInit 0 ⟨false, true, true, false, false⟩ none true true true sampleStrings = .ok
        (some start) ∧
        start.flags.useLock = true ∧ start.capacity = 8 ∧ step start sampleInsert = some full ∧
        step full (.find ⟨16, by decide⟩) = some found ∧
        step found (.removeKey ⟨16, by decide⟩) = some hash ∧
        (∃ str, start.strings ⟨16, by decide⟩ = some str) ∧ start.strings ⟨48, by decide⟩ = none ∧
        start.ents ⟨64, by decide⟩ = none ∧ (∃ str, full.strings ⟨16, by decide⟩ = some str) ∧
        (∃ str, found.strings ⟨16, by decide⟩ = some str) ∧ ∃ str,
          found.strings ⟨16, by decide⟩ = some str ∧
          found.listed = [⟨64, by decide⟩] ∧ found.hashAt ⟨64, by decide⟩ = some (amshash str) :=
    ⟨_, _, _, _, rfl, rfl, rfl, rfl, rfl, rfl, ⟨_, rfl⟩, rfl, rfl, ⟨_, rfl⟩, ⟨_, rfl⟩, _,
      rfl, rfl, rfl⟩
  obtain ⟨str, isKey, listed, atEnt⟩ := there
  have insertable : Insertable start ⟨16, by decide⟩
      ⟨true, some ⟨48, by decide⟩, some ⟨64, by decide⟩⟩ :=
    ⟨mapped, ⟨fun c same => Option.some.inj same ▸ copy, fun e same => Option.some.inj same ▸ ent⟩,
      fun _ => by rw [capacity]; decide⟩
  have inserted : Run step RemovableStep start [sampleInsert] full :=
    Run.nil.snoc insert ⟨insertable, trivial⟩
  exact ⟨start, hash, ⟨_, _, _, _, _, _, _, made, by rw [capacity]; decide⟩, uses,
    (inserted.snoc find ⟨mapped₁, trivial⟩).snoc remove
      ⟨mapped₂, str, isKey, _, listed ▸ List.mem_singleton_self _, atEnt⟩⟩

theorem amstrhash_lock_released_sample : ∃ start hash : Amstrhash ℕ, Started start ∧
    start.flags.useLock = true ∧
    Run step RemovableStep start
      [sampleInsert, .find ⟨16, by decide⟩, .removeKey ⟨16, by decide⟩] hash ∧
      Run step BalancedStep start
        [sampleInsert, .find ⟨16, by decide⟩, .removeKey ⟨16, by decide⟩] hash ∧
        hash.lock = ⟨0, false⟩ ∧ ∀ op, Ready hash op hash → ∃ hash' result,
        apply hash op = .ok (hash', result) := by
  obtain ⟨start, hash, started, uses, run⟩ := sample_cycle
  obtain ⟨balanced, free, returns⟩ := amstrhash_lock_released started uses _ hash |>.imp_right
    fun reached => reached run
  exact ⟨start, hash, started, uses, run, balanced.mpr run, free, returns⟩

/-- The removal of a key that is not there returns with the lock held, and a search by another
thread waits for it. -/
theorem amstrhash_lock_kept :
    ∃ start hash : Amstrhash ℕ, Started start ∧ start.flags.useLock = true ∧
    Run step Ready start [.removeKey ⟨16, by decide⟩] hash ∧ hash.lock = ⟨0, true⟩ ∧
      ¬ Balanced start (.removeKey ⟨16, by decide⟩) hash ∧ Ready hash (.find ⟨16, by decide⟩) hash ∧
        apply hash (.find ⟨16, by decide⟩) .waits = .error .blocked := by
  obtain ⟨start, hash, started, uses, mapped, fired, lock, flags, strings⟩ := sample_started
  have mapped' : ∃ str, hash.strings ⟨16, by decide⟩ = some str := strings ▸ mapped
  refine ⟨start, hash, started, uses, Run.nil.snoc fired mapped, lock, fun balanced => ?_, mapped',
    apply_blocked (flags ▸ uses) lock rfl mapped'⟩
  cases lock.symm.trans (balanced rfl).1

end Runs

end Libam.Strhash
