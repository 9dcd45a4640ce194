import Libam.Concurrency.Interleaving
import Libam.Strhash.Insertion

/-! Sequences of calls on a hash table: what each call can do, and that the buckets, the counters
and the spare entries agree after every one. -/

namespace Libam.Strhash

open Libam.Lists Libam.Interleaving

variable {V : Type} {hash hash' start : Amstrhash V} {entries entries' : List Pointer}
  {reply : LockReply}

section Operations

inductive Op (V : Type)
  | insert (key : Pointer) (value : Option V) (allocs : Allocations)
  | find (key : Pointer)
  | remove (ent : Option Pointer)
  | removeKey (key : Pointer)
  | setEntValue (ent : Pointer) (value : Option V)
  | term
  | write (address : Pointer) (str : Option CString)

inductive Result
  | inserted (rc : Amrc) (oldKey : Option Pointer)
  | found (ent : Option Pointer)
  | returned (rc : Amrc)
  | none
  deriving DecidableEq, Repr

def apply (hash : Amstrhash V) (op : Op V) (reply : LockReply := .waits) :
    Except Fault (Amstrhash V × Result) :=
  match op with
  | .insert key value allocs => do
      let (hash, rc, oldKey) ← amstrhashInsert hash (some key) value allocs reply
      return (hash, .inserted rc oldKey)
  | .find key => do
      let (hash, ent) ← amstrhashFind hash (some key) reply
      return (hash, .found ent)
  | .remove ent => do
      let (hash, rc) ← amstrhashRemove hash ent reply
      return (hash, .returned rc)
  | .removeKey key => do
      let (hash, rc) ← amstrhashRemoveKey hash (some key) reply
      return (hash, .returned rc)
  | .setEntValue ent value => do
      let hash ← amstrhashSetEntValue hash ent value
      return (hash, .none)
  | .term => do
      let hash ← amstrhashTerm hash reply
      return (hash, .none)
  | .write address str =>
      .ok ({ hash with strings := Function.update hash.strings address str }, .none)

def step (hash : Amstrhash V) (op : Op V) : Option (Amstrhash V) :=
  match apply hash op with
  | .ok (hash, _) => some hash
  | .error _ => none

/-- What the calls rely on. The strings that the table has copied are its own. -/
def Ready (hash : Amstrhash V) (op : Op V) (_ : Amstrhash V) : Prop :=
  match op with
  | .insert key _ allocs => Insertable hash key allocs
  | .find key => ∃ str, hash.strings key = some str
  | .remove ent => ∀ e, ent = some e → e ∈ hash.listed
  | .removeKey key => ∃ str, hash.strings key = some str
  | .setEntValue ent _ => ent ∈ hash.listed
  | .term => True
  | .write address _ =>
      hash.flags.dupKeys = true → ∀ ent ∈ hash.listed, hash.keyAt ent ≠ some address

/-- A table that `amstrhash_init` has made, with an array of fewer than 2^64 bytes. -/
def Started (hash : Amstrhash V) : Prop :=
  ∃ capacity flags attr handle lockReady array strings,
    amstrhashInit capacity flags attr handle lockReady array strings = .ok (some hash) ∧
      hash.capacity.toNat * 24 < wordSize

def Op.lockCalls : Op V → Result → List LockCall
  | .insert .., _ => [.wrlock, .unlock]
  | .find _, _ => [.rdlock, .unlock]
  | .remove none, _ => []
  | .remove (some _), _ => [.wrlock, .unlock]
  | .removeKey _, .returned .success => [.wrlock, .unlock]
  | .removeKey _, _ => [.wrlock]
  | .setEntValue .., _ => []
  | .term, _ => [.wrlock, .unlock]
  | .write .., _ => []

def Op.bare : Op V → Bool
  | .remove none => true
  | .setEntValue .. => true
  | .write .. => true
  | _ => false

def Goes (hash : Amstrhash V) (reply : LockReply) : Prop :=
  hash.lock = ⟨0, false⟩ ∨ (hash.flags.useLock = true ∧ hash.lock = ⟨0, true⟩) ∧ reply = .refused

def Op.leaves (op : Op V) (result : Result) : RwLock :=
  match op, result with
  | .removeKey _, .returned .error => ⟨0, true⟩
  | _, _ => ⟨0, false⟩

end Operations

section Outcomes

inductive Outcome (hash : Amstrhash V) (entries : List Pointer) :
    Op V → Amstrhash V → List Pointer → Result → Prop
  | insert {key : Pointer} {str : CString} {value : Option V} {allocs : Allocations} {rc : Amrc}
      {old : Option Pointer} {hash' : Amstrhash V} {entries' : List Pointer} :
      hash.strings key = some str →
      Inserted hash entries key (amshash str) value allocs hash' entries' rc old →
      Outcome hash entries (.insert key value allocs) hash' entries' (.inserted rc old)
  | find {key : Pointer} {str : CString} {out : Option Pointer} : hash.strings key = some str →
      (∀ ent, out = some ent → ent ∈ entries ∧ hash.hashAt ent = some (amshash str)) →
      (out = none → Absent hash entries (amshash str)) → Outcome hash entries
      (.find key) hash entries (.found out)
  | removeNull : Outcome hash entries (.remove none) hash entries (.returned .error)
  | remove {ent : Pointer} {entry : AmstrhashEntry V} : ent ∈ entries → hash.ents ent = some entry →
      Outcome hash entries (.remove (some ent)) (hash.taken ent entry true) (entries.erase ent)
      (.returned .success)
  | removeAbsent {key : Pointer} {str : CString} : hash.strings key = some str →
      Absent hash entries (amshash str) →
      Outcome hash entries (.removeKey key) hash entries (.returned .error)
  | removeKey {key ent : Pointer} {str : CString} {entry : AmstrhashEntry V} :
      hash.strings key = some str →
      ent ∈ entries → hash.ents ent = some entry → entry.keyHash = amshash str →
      Outcome hash entries (.removeKey key) (hash.taken ent entry true) (entries.erase ent)
      (.returned .success)
  | setEntValue {ent : Pointer} {entry : AmstrhashEntry V} {value : Option V} : ent ∈ entries →
      hash.ents ent = some entry → Outcome hash entries (.setEntValue ent value)
        { hash with ents := Function.update hash.ents ent (some { entry with value := value }) }
        entries .none
  | term {gone : List Pointer} {emptied : Amstrhash V} {buckets : ℕ → AmstrhashBucket}
      {ents : Pointer → Option (AmstrhashEntry V)} :
      Removes (!hash.flags.noFreeCb) hash gone emptied →
      gone.Perm entries → (∀ a, ents a = if a ∈ emptied.freeEnts then none else emptied.ents a) →
      Outcome hash entries .term
        { emptied with buckets := buckets, ents := ents, freeEnts := [], freeSize := 0 } [] .none
  | write {address : Pointer} {str : Option CString} : Outcome hash entries (.write address str)
      { hash with strings := Function.update hash.strings address str } entries .none

def Amstrhash.relock (hash : Amstrhash V) (lock : RwLock) (lockCalls : List LockCall) :
    Amstrhash V :=
  { hash with lock := lock, lockCalls := lockCalls }

theorem Filed.relock (filed : Filed hash entries) (lock : RwLock) (lockCalls : List LockCall) :
    Filed (hash.relock lock lockCalls) entries :=
  filed.congr rfl rfl (fun _ _ => rfl) fun _ _ => rfl

theorem Kept.relock (kept : Kept hash entries) (lock : RwLock) (lockCalls : List LockCall) :
    Kept (hash.relock lock lockCalls) entries :=
  ⟨kept.size, kept.nodup, kept.distinct, kept.spare, kept.few, kept.mapped, kept.owned, kept.apart⟩

def Amstrhash.called (hash : Amstrhash V) (calls : List LockCall) : List LockCall :=
  if hash.flags.useLock then hash.lockCalls ++ calls else hash.lockCalls

theorem Inserted.locked {lock : RwLock} {lockCalls : List LockCall} {key : Pointer} {hv : UInt64}
    {value : Option V} {allocs : Allocations} {rc : Amrc} {old : Option Pointer}
    (inserted : Inserted (hash.relock lock lockCalls) entries key hv value allocs hash'
      entries' rc old) :
    ∃ free, hash' = free.relock lock lockCalls ∧
    Inserted hash entries key hv value allocs free entries' rc old := by
  cases inserted with
  | overwritten member here same overwrite =>
      exact ⟨_, rfl, .overwritten member here same overwrite⟩
  | refused member here same overwrite => exact ⟨_, rfl, .refused member here same overwrite⟩
  | failed absent fails => exact ⟨_, rfl, .failed absent fails⟩
  | added absent fits next => exact ⟨_, rfl, .added absent fits next⟩

theorem Removes.locked {lock : RwLock} {lockCalls : List LockCall} {useCb : Bool}
    {gone : List Pointer} (removes : Removes useCb (hash.relock lock lockCalls) gone hash') :
    ∃ free, hash' = free.relock lock lockCalls ∧ Removes useCb hash gone free := by
  obtain ⟨locked, isLocked⟩ : ∃ locked, locked = hash.relock lock lockCalls := ⟨_, rfl⟩
  rw [← isLocked] at removes
  induction removes generalizing hash with
  | nil => exact ⟨hash, isLocked, .nil hash⟩
  | @cons _ _ ent entry _ here _ ih =>
      subst isLocked
      obtain ⟨free, isFree, removes⟩ := @ih (hash.taken ent entry useCb) rfl
      exact ⟨free, isFree, .cons here removes⟩

end Outcomes

section Locking

theorem wrlock_goes (goes : Goes hash reply) :
    hash.wrlock reply = .ok (hash.relock ⟨0, hash.flags.useLock⟩ (hash.called [.wrlock])) := by
  rcases goes with free | ⟨⟨uses, held⟩, rfl⟩
  · cases uses : hash.flags.useLock with
    | true =>
        simp only [Amstrhash.wrlock, uses, if_true, if_pos free, Amstrhash.relock, Amstrhash.called]
    | false =>
        simp only [Amstrhash.wrlock, uses, Bool.false_eq_true, if_false, Amstrhash.relock,
          Amstrhash.called, ← free]
  · simp [Amstrhash.wrlock, uses, held, Amstrhash.relock, Amstrhash.called]

theorem unlock_writer (hash : Amstrhash V) (free : Amstrhash V) (flags : free.flags = hash.flags)
    (calls : List LockCall) : (free.relock ⟨0, hash.flags.useLock⟩ (hash.called calls)).unlock =
      free.relock ⟨0, false⟩ (hash.called (calls ++ [.unlock])) := by
  cases uses : hash.flags.useLock with
  | true => simp [Amstrhash.unlock, Amstrhash.relock, Amstrhash.called, uses, flags]
  | false => simp [Amstrhash.unlock, Amstrhash.relock, Amstrhash.called, uses, flags]

theorem unlock_reader (hash : Amstrhash V) (calls : List LockCall) :
    (hash.relock ⟨if hash.flags.useLock then 1 else 0, false⟩ (hash.called calls)).unlock =
      hash.relock ⟨0, false⟩ (hash.called (calls ++ [.unlock])) := by
  cases uses : hash.flags.useLock with
  | true => simp [Amstrhash.unlock, Amstrhash.relock, Amstrhash.called, uses]
  | false => simp [Amstrhash.unlock, Amstrhash.relock, Amstrhash.called, uses]

/-- A search that goes on reads, or it is refused the lock that its own thread holds. -/
theorem rdlock_goes (goes : Goes hash reply) : ∃ lock,
    hash.rdlock reply = .ok (hash.relock lock (hash.called [.rdlock])) ∧ ∀ calls,
      (hash.relock lock (hash.called calls)).unlock = hash.relock ⟨0, false⟩
      (hash.called (calls ++ [.unlock])) := by
  rcases goes with free | ⟨⟨uses, held⟩, rfl⟩
  · refine ⟨⟨if hash.flags.useLock then 1 else 0, false⟩, ?_, unlock_reader hash⟩
    cases uses : hash.flags.useLock with
    | true => simp only [Amstrhash.rdlock, uses, if_true, free, Amstrhash.relock, Amstrhash.called]
    | false =>
        simp only [Amstrhash.rdlock, uses, Bool.false_eq_true, if_false, Amstrhash.relock,
          Amstrhash.called, ← free]
  · refine ⟨⟨0, hash.flags.useLock⟩, ?_, unlock_writer hash hash rfl⟩
    simp [Amstrhash.rdlock, uses, held, Amstrhash.relock, Amstrhash.called]

theorem relock_self (free : hash.lock = ⟨0, false⟩) :
    hash = hash.relock ⟨0, false⟩ (hash.called []) := by
  cases uses : hash.flags.useLock with
  | true => simp only [Amstrhash.relock, Amstrhash.called, uses, if_true, List.append_nil, ← free]
  | false =>
      simp only [Amstrhash.relock, Amstrhash.called, uses, Bool.false_eq_true, if_false, ← free]

theorem Inserted.flags {key : Pointer} {hv : UInt64} {value : Option V} {allocs : Allocations}
    {rc : Amrc} {old : Option Pointer}
    (inserted : Inserted hash entries key hv value allocs hash' entries' rc old) :
    hash'.flags = hash.flags := by
  cases inserted <;> rfl

end Locking

section Calls

variable {op : Op V}

def Op.final (op : Op V) (hash hash' : Amstrhash V) (result : Result) : Amstrhash V :=
  hash'.relock (if hash.flags.useLock then op.leaves result else ⟨0, false⟩)
    (hash.called (op.lockCalls result))

theorem calcHash_spec (hash : Amstrhash V) {key : Pointer} {str : CString}
    (here : hash.strings key = some str) : calcHash hash (some key) = .ok (amshash str) := by
  simp only [calcHash, Amstrhash.string, here, bind, Except.bind]
  rfl

theorem final_free (result : Result) (leaves : op.leaves result = ⟨0, false⟩) :
    op.final hash hash' result = hash'.relock ⟨0, false⟩ (hash.called (op.lockCalls result)) := by
  rw [Op.final, leaves, ite_self]

theorem apply_insert (goes : Goes hash reply) (filed : Filed hash entries)
    (kept : Kept hash entries) {key : Pointer} {value : Option V} {allocs : Allocations}
    (insertable : Insertable hash key allocs) :
    ∃ hash' entries' result, apply hash (.insert key value allocs) reply =
        .ok ((Op.insert key value allocs).final hash hash' result, result) ∧
      Outcome hash entries (.insert key value allocs) hash' entries' result ∧ Filed hash' entries' ∧
      Kept hash' entries' := by
  obtain ⟨str, here⟩ := insertable.mapped
  obtain ⟨locked, entries', rc, old, run, inserted, filed', kept'⟩ :=
    insertEnt_spec (amshash str) value
    (filed.relock ⟨0, hash.flags.useLock⟩ (hash.called [.wrlock]))
    (kept.relock ⟨0, hash.flags.useLock⟩ (hash.called [.wrlock]))
    (show Insertable (hash.relock _ _) key allocs from
      ⟨insertable.mapped, ⟨insertable.unused.copy, insertable.unused.ent⟩, insertable.fits⟩)
  obtain ⟨hash', rfl, outcome⟩ := inserted.locked
  refine ⟨hash', entries', .inserted rc old, ?_, .insert here outcome,
    filed'.relock hash'.lock hash'.lockCalls, kept'.relock hash'.lock hash'.lockCalls⟩
  simp only [apply, amstrhashInsert, calcHash_spec hash here, bind, Except.bind,
    wrlock_goes goes, run]
  rw [unlock_writer hash hash' outcome.flags, final_free _ rfl]
  rfl

theorem apply_find (goes : Goes hash reply) (filed : Filed hash entries) {key : Pointer}
    {str : CString} (here : hash.strings key = some str) : ∃ out,
    apply hash (.find key) reply = .ok ((Op.find key).final hash hash (.found out), .found out) ∧
      Outcome hash entries (.find key) hash entries (.found out) := by
  obtain ⟨lock, locked, unlocked⟩ := rdlock_goes goes
  obtain ⟨out, searched, found, missed⟩ := (filed.relock lock (hash.called [.rdlock])).find
    here (amshash str)
  refine ⟨out, ?_, .find here found missed⟩
  simp only [apply, amstrhashFind, amstrhashFindLock, calcHash_spec hash here, bind,
    Except.bind, if_true, locked, (filed.relock _ _).bucket, searched]
  rw [final_free _ rfl]
  exact congrArg (fun h => Except.ok (h, Result.found out)) (unlocked [.rdlock])

theorem apply_remove (goes : Goes hash reply) (filed : Filed hash entries)
    (kept : Kept hash entries) {ent : Pointer} {entry : AmstrhashEntry V} (member : ent ∈ entries)
    (here : hash.ents ent = some entry) :
    apply hash (.remove (some ent)) reply =
      .ok ((Op.remove (some ent)).final hash (hash.taken ent entry true) (.returned .success),
        .returned .success) := by
  obtain ⟨run, _⟩ := (filed.relock ⟨0, hash.flags.useLock⟩ (hash.called [.wrlock])).taken
    (kept.relock ⟨0, hash.flags.useLock⟩ (hash.called [.wrlock])) member here true
  simp only [apply, amstrhashRemove, amstrhashEntRemove, if_true, bind, Except.bind,
    wrlock_goes goes, run]
  rw [final_free _ rfl]
  exact congrArg (fun h => Except.ok (h, Result.returned Amrc.success))
    (unlock_writer hash (hash.taken ent entry true) rfl [.wrlock])

theorem apply_removeKey (goes : Goes hash reply) (filed : Filed hash entries)
    (kept : Kept hash entries) {key : Pointer} {str : CString}
    (isKey : hash.strings key = some str) :
    (Absent hash entries (amshash str) ∧ apply hash (.removeKey key) reply =
      .ok ((Op.removeKey key).final hash hash (.returned .error), .returned .error)) ∨
    ∃ ent entry, ent ∈ entries ∧ hash.ents ent = some entry ∧ entry.keyHash = amshash str ∧
      apply hash (.removeKey key) reply =
        .ok ((Op.removeKey key).final hash (hash.taken ent entry true) (.returned .success),
          .returned .success) := by
  have locked := filed.relock ⟨0, hash.flags.useLock⟩ (hash.called [.wrlock])
  obtain ⟨out, searched, found, missed⟩ := locked.find isKey (amshash str)
  have search : amstrhashFindLock (hash.relock ⟨0, hash.flags.useLock⟩ (hash.called [.wrlock]))
      (some key) false =
      .ok (hash.relock ⟨0, hash.flags.useLock⟩ (hash.called [.wrlock]), out) := by
    have hashed := calcHash_spec (hash.relock ⟨0, hash.flags.useLock⟩ (hash.called [.wrlock])) isKey
    simp only [amstrhashFindLock, hashed, bind, Except.bind, Bool.false_eq_true, if_false,
      pure, Except.pure, locked.bucket, searched]
  cases out with
  | none =>
      refine .inl ⟨missed rfl, ?_⟩
      simp only [apply, amstrhashRemoveKey, bind, Except.bind, wrlock_goes goes, search]
      cases uses : hash.flags.useLock <;>
        simp [pure, Except.pure, Op.final, Op.leaves, Op.lockCalls, uses, Amstrhash.called,
          Amstrhash.relock]
  | some ent =>
      obtain ⟨member, atEnt⟩ := found ent rfl
      obtain ⟨entry, here, isHash⟩ := Option.map_eq_some_iff.mp atEnt
      obtain ⟨run, _⟩ := locked.taken (kept.relock _ _) member here true
      refine .inr ⟨ent, entry, member, here, isHash, ?_⟩
      simp only [apply, amstrhashRemoveKey, bind, Except.bind, wrlock_goes goes, search,
        amstrhashEntRemove, Bool.false_eq_true, if_false, pure, Except.pure, run]
      rw [final_free _ rfl]
      exact congrArg (fun h => Except.ok (h, Result.returned Amrc.success))
        (unlock_writer hash (hash.taken ent entry true) rfl [.wrlock])

theorem apply_term (goes : Goes hash reply) (filed : Filed hash entries)
    (kept : Kept hash entries) :
    ∃ hash', apply hash .term reply = .ok (Op.term.final hash hash' .none, .none) ∧
      Outcome hash entries .term hash' [] .none ∧ Filed hash' [] ∧ Kept hash' [] := by
  have locked := filed.relock ⟨0, hash.flags.useLock⟩ (hash.called [.wrlock])
  have kept₀ := kept.relock ⟨0, hash.flags.useLock⟩ (hash.called [.wrlock])
  obtain ⟨emptied, run, removes⟩ := termBuckets_spec hash.capacity.toNat 0 locked kept₀
    (show 0 + hash.capacity.toNat ≤ hash.slots by rw [filed.slots]; omega)
  have gone : ((List.range' 0 hash.capacity.toNat).flatMap fun j => (hash.buckets j).entries).Perm
      entries := by
    have listed := filed.all
    rw [Amstrhash.listed, collected, filed.slots, List.range_eq_range'] at listed
    exact listed
  have split := gone.symm.trans (List.Perm.of_eq (List.append_nil _).symm)
  obtain ⟨filed₁, kept₁⟩ := removes.kept (locked.perm split) (kept₀.perm split)
  obtain ⟨buckets, ents, swept, filed₂, cleared⟩ :=
    termSpares_spec emptied.freeEnts filed₁ rfl kept₁.spare
    kept₁.mapped (List.nodup_append'.mp kept₁.nodup).2.1
  obtain ⟨free', rfl, removes'⟩ := removes.locked
  have flags := removes'.fixed.1
  refine ⟨{ free' with buckets := buckets, ents := ents, freeEnts := [], freeSize := 0 }, ?_,
    .term removes' gone cleared, filed₂.congr rfl rfl (fun _ _ => rfl) fun _ _ => rfl,
    kept₁.size, List.nodup_nil, by simp, rfl, ?_, by simp, by simp, by simp⟩
  · have capacity : (hash.relock ⟨0, hash.flags.useLock⟩ (hash.called [.wrlock])).capacity =
        hash.capacity := rfl
    simp only [apply, amstrhashTerm, bind, Except.bind, wrlock_goes goes, capacity, run, swept]
    rw [final_free _ rfl]
    exact congrArg (fun h => Except.ok (h, Result.none)) (unlock_writer hash
      { free' with buckets := buckets, ents := ents, freeEnts := [], freeSize := 0 }
      flags [.wrlock])
  · exact UInt64.le_iff_toNat_le.mpr (Nat.zero_le _)

theorem apply_bare (bare : op.bare = true) (filed : Filed hash entries) (kept : Kept hash entries)
    (ready : Ready hash op hash) : ∃ hash' entries' result,
    apply hash op reply = .ok (hash', result) ∧ Outcome hash entries op hash' entries' result ∧
      Filed hash' entries' ∧
      Kept hash' entries' ∧ hash'.lock = hash.lock ∧ hash'.lockCalls = hash.lockCalls ∧
      hash'.flags = hash.flags ∧ op.lockCalls result = [] ∧ op.leaves result = ⟨0, false⟩ := by
  cases op with
  | insert => cases bare
  | find => cases bare
  | removeKey => cases bare
  | term => cases bare
  | remove ent =>
      cases ent with
      | some => cases bare
      | none => exact ⟨hash, entries, _, rfl, .removeNull, filed, kept, rfl, rfl, rfl, rfl, rfl⟩
  | setEntValue ent value =>
      have member : ent ∈ entries := filed.all.mem_iff.mp ready
      obtain ⟨entry, here⟩ := filed.mapped member
      obtain ⟨filed', kept'⟩ := kept_value filed kept here value hash.deleted
      refine ⟨{ hash with
        ents := Function.update hash.ents ent (some { entry with value := value }) }, entries,
        .none, ?_, .setEntValue member here, filed', kept', rfl, rfl, rfl, rfl, rfl⟩
      simp only [apply, amstrhashSetEntValue, Amstrhash.entry, here, bind, Except.bind]
      rfl
  | write address str =>
      refine ⟨{ hash with strings := Function.update hash.strings address str }, entries,
        .none, rfl, .write,
        filed.congr rfl rfl (fun _ _ => rfl) fun _ _ => rfl,
        ⟨kept.size, kept.nodup, kept.distinct, kept.spare,
        kept.few, kept.mapped, fun copied a member key isKey => ?_, kept.apart⟩, rfl, rfl,
        rfl, rfl, rfl⟩
      obtain ⟨str', here⟩ := kept.owned copied a member key isKey
      have other : key ≠ address := fun same => ready copied a (filed.all.mem_iff.mpr member)
        (same ▸ isKey)
      exact ⟨str', (Function.update_of_ne other ..).trans here⟩

/-- A call that the lock does not keep from going on does one of the things that it can do. -/
theorem apply_goes (needs : op.bare = false) (goes : Goes hash reply) (filed : Filed hash entries)
    (kept : Kept hash entries) (ready : Ready hash op hash) : ∃ hash' entries' result,
    apply hash op reply = .ok (op.final hash hash' result, result) ∧
      Outcome hash entries op hash' entries' result ∧ Filed hash' entries' ∧
      Kept hash' entries' := by
  cases op with
  | insert key value allocs => exact apply_insert goes filed kept ready
  | find key =>
      obtain ⟨str, here⟩ := ready
      obtain ⟨out, run, outcome⟩ := apply_find goes filed here
      exact ⟨hash, entries, _, run, outcome, filed, kept⟩
  | remove ent =>
      cases ent with
      | none => cases needs
      | some ent =>
          have member : ent ∈ entries := filed.all.mem_iff.mp (ready ent rfl)
          obtain ⟨entry, here⟩ := filed.mapped member
          exact ⟨_, _, _, apply_remove goes filed kept member here, .remove member here,
            (filed.taken kept member here true).2, kept.taken member here true⟩
  | removeKey key =>
      obtain ⟨str, isKey⟩ := ready
      rcases apply_removeKey goes filed kept isKey with ⟨absent, run⟩ | ⟨ent, entry, member,
        here, same, run⟩
      · exact ⟨hash, entries, _, run, .removeAbsent isKey absent, filed, kept⟩
      · exact ⟨_, _, _, run, .removeKey isKey member here same,
          (filed.taken kept member here true).2,
          kept.taken member here true⟩
  | setEntValue => cases needs
  | term =>
      obtain ⟨hash', run, outcome, filed', kept'⟩ := apply_term goes filed kept
      exact ⟨hash', [], .none, run, outcome, filed', kept'⟩
  | write => cases needs

theorem apply_spec (free : hash.lock = ⟨0, false⟩) (filed : Filed hash entries)
    (kept : Kept hash entries) (ready : Ready hash op hash) : ∃ hash' entries' result,
    apply hash op reply = .ok (op.final hash hash' result, result) ∧
      Outcome hash entries op hash' entries' result ∧ Filed hash' entries' ∧
      Kept hash' entries' := by
  cases bare : op.bare with
  | false => exact apply_goes bare (.inl free) filed kept ready
  | true =>
      obtain ⟨hash', entries', result, run, outcome, filed', kept', lock, calls, flags,
          none, leaves⟩ :=
        apply_bare bare filed kept ready
      refine ⟨hash', entries', result, ?_, outcome, filed', kept'⟩
      have same := relock_self (lock.trans free)
      rw [Amstrhash.called, calls, flags] at same
      rw [final_free _ leaves, none, Amstrhash.called, ← same]
      exact run

theorem apply_blocked (uses : hash.flags.useLock = true) (held : hash.lock = ⟨0, true⟩)
    (needs : op.bare = false) (ready : Ready hash op hash) : apply hash op = .error .blocked := by
  have writes : hash.wrlock = .error .blocked := by
    rw [Amstrhash.wrlock, if_pos uses, held]
    rfl
  have reads : hash.rdlock = .error .blocked := by
    rw [Amstrhash.rdlock, if_pos uses, held]
    rfl
  cases op with
  | insert key value allocs =>
      obtain ⟨str, here⟩ := Insertable.mapped ready
      simp only [apply, amstrhashInsert, calcHash_spec hash here, bind, Except.bind, writes]
  | find key =>
      obtain ⟨str, here⟩ := ready
      simp only [apply, amstrhashFind, amstrhashFindLock, calcHash_spec hash here, bind,
        Except.bind, if_true, reads]
  | remove ent =>
      cases ent with
      | none => cases needs
      | some ent =>
          simp only [apply, amstrhashRemove, amstrhashEntRemove, bind, Except.bind, if_true, writes]
  | removeKey key => simp only [apply, amstrhashRemoveKey, bind, Except.bind, writes]
  | setEntValue => cases needs
  | term => simp only [apply, amstrhashTerm, bind, Except.bind, writes]
  | write => cases needs

end Calls

section Runs

structure Inv (hash : Amstrhash V) : Prop where
  held : ∃ entries, Filed hash entries ∧ Kept hash entries
  lock : hash.lock = ⟨0, false⟩ ∨ hash.flags.useLock = true ∧ hash.lock = ⟨0, true⟩

def emptyTable (capacity : UInt64) (flags : StrhashFlags) (attr : AmstrhashAttr)
    (strings : Pointer → Option CString) : Amstrhash V :=
  { flags := flags, attr := attr, freeEnts := [], freeSize := 0, capacity := capacity, size := 0,
    lock := ⟨0, false⟩, buckets := fun _ => ⟨[], 0⟩, slots := slotsOf capacity,
    ents := fun _ => none, strings := strings, deleted := [], lockCalls := [] }

theorem init_eq {capacity size : UInt64} (isSize : size = if capacity < 8 then 8 else capacity)
    (flags : StrhashFlags) (attr : Option AmstrhashAttr) (handle lockReady array : Bool)
    (strings : Pointer → Option CString) :
    (amstrhashInit capacity flags attr handle lockReady array strings : Except Fault
      (Option (Amstrhash V))) =
      if (handle && lockReady && array) = true then
        if size.toNat ≤ slotsOf size then .ok
          (some (emptyTable size flags (initialAttr attr) strings))
        else .error .bounds
      else .ok none := by
  simp only [amstrhashInit, ← isSize, amstrhashInitBuckets]
  split
  · split <;> rfl
  · rfl

theorem init_made {capacity : UInt64} {flags : StrhashFlags} {attr : Option AmstrhashAttr}
    {handle lockReady array : Bool} {strings : Pointer → Option CString}
    (made : amstrhashInit capacity flags attr handle lockReady array strings = .ok (some start)) :
    ∃ size, size ≠ 0 ∧ size.toNat ≤ slotsOf size ∧
      start = emptyTable size flags (initialAttr attr) strings := by
  obtain ⟨size, isSize⟩ : ∃ size, size = if capacity < 8 then 8 else capacity := ⟨_, rfl⟩
  have positive : size ≠ 0 := by
    rw [isSize]
    split
    · decide
    · next large =>
        rintro rfl
        exact large (by decide)
  rw [init_eq isSize] at made
  split at made
  · split at made
    · next room =>
        cases made
        exact ⟨size, positive, room, rfl⟩
    · cases made
  · cases made

theorem inv_started (started : Started start) : Inv start ∧ start.lock = ⟨0, false⟩ ∧
    Filed start [] := by
  obtain ⟨capacity, flags, attr, handle, lockReady, array, strings, made, fits⟩ := started
  obtain ⟨size, positive, -, rfl⟩ := init_made made
  have filed : Filed (emptyTable size flags (initialAttr attr) strings : Amstrhash V) [] :=
    filed_empty _ positive fits rfl fun _ _ => rfl
  have kept : Kept (emptyTable size flags (initialAttr attr) strings : Amstrhash V) [] :=
    ⟨rfl, List.nodup_nil, by
        simp, rfl, UInt64.le_iff_toNat_le.mpr (Nat.zero_le _), by
          simp [emptyTable], by simp, by simp⟩
  exact ⟨⟨⟨[], filed, kept⟩, .inl rfl⟩, rfl, filed⟩

theorem Outcome.flags {op : Op V} {result : Result}
    (outcome : Outcome hash entries op hash' entries' result) : hash'.flags = hash.flags := by
  cases outcome with
  | insert _ inserted => exact inserted.flags
  | term removes => exact removes.fixed.1
  | _ => rfl

theorem Outcome.attr {op : Op V} {result : Result}
    (outcome : Outcome hash entries op hash' entries' result) : hash'.attr = hash.attr := by
  cases outcome with
  | insert _ inserted => cases inserted <;> rfl
  | term removes => exact removes.fixed.2.1
  | _ => rfl

theorem leaves_cases (op : Op V) (result : Result) : op.leaves result = ⟨0, false⟩ ∨
    op.leaves result = ⟨0, true⟩ := by
  unfold Op.leaves
  split
  · exact .inr rfl
  · exact .inl rfl

theorem Inv.goes_or_waits (inv : Inv hash) (reply : LockReply) :
    Goes hash reply ∨ (hash.flags.useLock = true ∧ hash.lock = ⟨0, true⟩) ∧ reply = .waits := by
  rcases inv.lock with free | held
  · exact .inl (.inl free)
  · cases reply with
    | waits => exact .inr ⟨held, rfl⟩
    | refused => exact .inl (.inr ⟨held, rfl⟩)

theorem Outcome.inv {op : Op V} {result : Result}
    (outcome : Outcome hash entries op hash' entries' result) (filed' : Filed hash' entries')
    (kept' : Kept hash' entries') : Inv (op.final hash hash' result) := by
  refine ⟨⟨entries', filed'.relock _ _, kept'.relock _ _⟩, ?_⟩
  show (if hash.flags.useLock = true then op.leaves result else ⟨0, false⟩) = ⟨0, false⟩ ∨
    hash'.flags.useLock = true ∧
    (if hash.flags.useLock = true then op.leaves result else ⟨0, false⟩) = ⟨0, true⟩
  rw [outcome.flags]
  cases uses : hash.flags.useLock with
  | false => exact .inl rfl
  | true =>
      rw [if_pos rfl]
      exact (leaves_cases op result).imp_right fun held => ⟨rfl, held⟩

theorem inv_step {op : Op V} (inv : Inv hash) (ready : Ready hash op hash) :
    (∃ hash' result, apply hash op reply = .ok (hash', result) ∧ Inv hash') ∨
      (apply hash op reply = .error .blocked ∧ hash.lock = ⟨0, true⟩) := by
  obtain ⟨entries, filed, kept⟩ := inv.held
  cases bare : op.bare with
  | true =>
      obtain ⟨hash', entries', result, run, _, filed', kept', lock, _, flags, _⟩ :=
        apply_bare bare filed kept ready
      exact .inl ⟨hash', result, run,
        ⟨entries', filed', kept'⟩, by rw [lock, flags]; exact inv.lock⟩
  | false =>
      rcases inv.goes_or_waits reply with goes | ⟨⟨uses, held⟩, rfl⟩
      · obtain ⟨hash', entries', result, run, outcome, filed', kept'⟩ :=
            apply_goes bare goes filed kept ready
        exact .inl ⟨_, result, run, outcome.inv filed' kept'⟩
      · exact .inr ⟨apply_blocked uses held bare ready, held⟩

theorem returned_of_step {op : Op V} (fired : step hash op = some hash') :
    ∃ result, apply hash op = .ok (hash', result) := by
  unfold step at fired
  split at fired
  · next out result returned =>
      cases fired
      exact ⟨result, returned⟩
  · cases fired

theorem Inv.returned {op : Op V} {result : Result} (inv : Inv hash) (ready : Ready hash op hash)
    (returned : apply hash op reply = .ok (hash', result)) : Inv hash' := by
  rcases inv_step inv ready with ⟨hash'', result', applied, inv'⟩ | ⟨blocked, -⟩
  · cases returned.symm.trans applied
    exact inv'
  · cases returned.symm.trans blocked

theorem outcome_of_returned {op : Op V} {result : Result} (inv : Inv hash)
    (ready : Ready hash op hash) (returned : apply hash op reply = .ok (hash', result)) :
    ∃ entries free entries' lock lockCalls,
    Filed hash entries ∧ Kept hash entries ∧ Outcome hash entries op free entries' result ∧
      Filed free entries' ∧
      Kept free entries' ∧ hash' = free.relock lock lockCalls := by
  obtain ⟨entries, filed, kept⟩ := inv.held
  cases bare : op.bare with
  | true =>
      obtain ⟨free, entries', result', run, outcome, filed', kept', -⟩ :=
        apply_bare bare filed kept ready
      cases returned.symm.trans run
      exact ⟨entries, hash', entries', hash'.lock, hash'.lockCalls, filed, kept, outcome,
        filed', kept', rfl⟩
  | false =>
      rcases inv.goes_or_waits reply with goes | ⟨⟨uses, held⟩, rfl⟩
      · obtain ⟨free, entries', result', run, outcome, filed', kept'⟩ :=
            apply_goes bare goes filed kept ready
        cases returned.symm.trans run
        exact ⟨entries, free, entries', _, _, filed, kept, outcome, filed', kept', rfl⟩
      · cases returned.symm.trans (apply_blocked uses held bare ready)

theorem returned_lock {op : Op V} {result : Result} (inv : Inv hash) (ready : Ready hash op hash)
    (returned : apply hash op = .ok (hash', result)) : hash'.lock = if op.bare = true then hash.lock
      else if hash.flags.useLock = true then op.leaves result else ⟨0, false⟩ := by
  obtain ⟨entries, filed, kept⟩ := inv.held
  cases bare : op.bare with
  | true =>
      obtain ⟨_, _, _, run, _, _, _, lock, -⟩ := apply_bare bare filed kept ready
      cases returned.symm.trans run
      exact lock
  | false =>
      have free : hash.lock = ⟨0, false⟩ := by
        apply inv.lock.resolve_right
        intro held
        cases returned.symm.trans (apply_blocked held.1 held.2 bare ready)
      obtain ⟨_, _, _, run, -⟩ := apply_spec free filed kept ready
      cases returned.symm.trans run
      rfl

theorem returns_iff {op : Op V} (inv : Inv hash) (ready : Ready hash op hash) :
    (∃ out, apply hash op = .ok out) ↔ op.bare = true ∨ hash.lock = ⟨0, false⟩ := by
  obtain ⟨entries, filed, kept⟩ := inv.held
  constructor
  · rintro ⟨out, returned⟩
    cases bare : op.bare with
    | true => exact .inl rfl
    | false =>
        refine .inr (inv.lock.resolve_right fun held => ?_)
        cases returned.symm.trans (apply_blocked held.1 held.2 bare ready)
  · rintro (bare | free)
    · obtain ⟨_, _, _, run, -⟩ := apply_bare bare filed kept ready
      exact ⟨_, run⟩
    · obtain ⟨_, _, _, run, -⟩ := apply_spec free filed kept ready
      exact ⟨_, run⟩

theorem run_inv {ops : List (Op V)} (started : Started start)
    (run : Run step Ready start ops hash) : Inv hash := by
  apply run.invariant Inv (inv_started started).1
  intro hash op hash' inv fired ready
  obtain ⟨result, returned⟩ := returned_of_step fired
  exact inv.returned ready returned

structure Consistent (hash : Amstrhash V) : Prop where
  placed : ∀ i < hash.capacity.toNat, ∀ ent ∈ (hash.buckets i).entries, ∃ entry,
    hash.ents ent = some entry ∧ (entry.keyHash % hash.capacity).toNat = i
  counted : ∀ i < hash.capacity.toNat, (hash.buckets i).size.toNat = (hash.buckets i).entries.length
  total : hash.size.toNat = ∑ i ∈ Finset.range hash.capacity.toNat, (hash.buckets i).size.toNat
  spare : hash.freeSize.toNat = hash.freeEnts.length
  few : hash.freeSize ≤ hash.attr.freeSize
  once : hash.listed.Nodup
  distinct : ∀ a ∈ hash.listed, ∀ b ∈ hash.listed, ∀ first second, hash.ents a = some first →
    hash.ents b = some second → first.keyHash = second.keyHash → a = b

theorem length_collected (n : ℕ) (f : ℕ → List Pointer) :
    (collected n f).length = ∑ i ∈ Finset.range n, (f i).length := by
  induction n with
  | zero => rfl
  | succ n ih => rw [collected_succ, List.length_append, ih, Finset.sum_range_succ]

theorem Inv.consistent (inv : Inv hash) : Consistent hash := by
  obtain ⟨⟨entries, filed, kept⟩, _⟩ := inv
  have slots := filed.slots
  refine ⟨fun i below ent member => ?_, fun i below => filed.counted i (slots ▸ below), ?_,
    kept.spare, kept.few,
    filed.all.nodup_iff.mpr (List.nodup_append'.mp kept.nodup).1, ?_⟩
  · obtain ⟨hv, atEnt, isPlace⟩ := filed.placed i (slots ▸ below) ent member
    obtain ⟨entry, here, rfl⟩ := Option.map_eq_some_iff.mp atEnt
    exact ⟨entry, here, isPlace⟩
  · rw [kept.size, ← filed.all.length_eq, Amstrhash.listed, slots, length_collected]
    exact Finset.sum_congr rfl fun i inRange =>
      (filed.counted i (slots ▸ Finset.mem_range.mp inRange)).symm
  · intro a inA b inB first second atA atB same
    refine kept.distinct a (filed.all.mem_iff.mp inA) b
      (filed.all.mem_iff.mp inB) first.keyHash ?_ ?_
    · rw [Amstrhash.hashAt, atA, Option.map_some]
    · rw [Amstrhash.hashAt, atB, Option.map_some, same]

/-- The table is consistent after every call of any sequence, and no call fails an assertion: it
returns, or it waits for a lock that is held. -/
theorem amstrhash_consistent {ops : List (Op V)} (started : Started start)
    (run : Run step Ready start ops hash) : Consistent hash ∧ ∀ op, Ready hash op hash →
      (∃ hash' result, apply hash op = .ok (hash', result)) ∨
        (apply hash op = .error .blocked ∧ hash.lock = ⟨0, true⟩) := by
  have inv := run_inv started run
  refine ⟨inv.consistent, fun op ready => ?_⟩
  rcases inv_step inv ready with ⟨hash', result, applied, _⟩ | blocked
  · exact .inl ⟨hash', result, applied⟩
  · exact .inr blocked

/-- Two keys with the same hash: "Ez" and "FY". -/
def sampleStrings (key : Pointer) : Option CString :=
  if key.1 = 16 then some ⟨[69, 122], by decide⟩
  else if key.1 = 32 then some ⟨[70, 89], by decide⟩ else none

def sampleInsert : Op ℕ := .insert ⟨16, by decide⟩ (some 7)
    ⟨true, some ⟨48, by decide⟩, some ⟨64, by decide⟩⟩

theorem amstrhash_consistent_sample : ∃ start hash : Amstrhash ℕ, Started start ∧
    Run step Ready start [sampleInsert] hash ∧ Consistent hash ∧ ∀ op, Ready hash op hash →
      (∃ hash' result, apply hash op = .ok (hash', result)) ∨
        (apply hash op = .error .blocked ∧ hash.lock = ⟨0, true⟩) := by
  obtain ⟨start, hash, made, fired, fits, mapped, copy, ent⟩ : ∃ start hash : Amstrhash ℕ,
      amstrhashInit 0 ⟨false, true, true, false, false⟩ none true true true sampleStrings = .ok
        (some start) ∧
        step start sampleInsert = some hash ∧ start.capacity.toNat * 2 * 24 < wordSize ∧
        (∃ str, start.strings ⟨16, by decide⟩ = some str) ∧ start.strings ⟨48, by decide⟩ = none ∧
        start.ents ⟨64, by decide⟩ = none :=
    ⟨_, _, rfl, rfl, by decide, ⟨_, rfl⟩, rfl, rfl⟩
  have started : Started start := ⟨_, _, _, _, _, _, _, made, by omega⟩
  have run : Run step Ready start [sampleInsert] hash :=
    Run.nil.snoc fired ⟨mapped,
      ⟨fun c same => Option.some.inj same ▸ copy, fun e same => Option.some.inj same ▸ ent⟩,
      fun _ => fits⟩
  exact ⟨start, hash, started, run, amstrhash_consistent started run⟩

end Runs

end Libam.Strhash
