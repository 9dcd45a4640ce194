import Libam.Concurrency.RwLock
import Libam.Strhash.Calls

/-! Calls on a hash table from many threads, with `LIBAM_STRHASH_FLAG_USE_LOCK`: the call of
the lock, every turn of the loop over a bucket, the change of the table and the release are
steps of their own. -/

namespace Libam.Strhash

open Libam.Interleaving Libam.RwLocked

variable {V : Type}

section Model

inductive Invocation (V : Type)
  | insert (key : Option Pointer) (value : Option V) (allocs : Allocations)
  | find (key : Option Pointer)
  | remove (ent : Option Pointer)
  | removeKey (key : Option Pointer)

def Invocation.serve (hash : Amstrhash V) : Invocation V → Except Fault (Amstrhash V × Result)
  | .insert key value allocs => do
      let (hash, rc, oldKey) ← amstrhashInsert hash key value allocs
      return (hash, .inserted rc oldKey)
  | .find key => do
      let (hash, ent) ← amstrhashFind hash key
      return (hash, .found ent)
  | .remove ent => do
      let (hash, rc) ← amstrhashRemove hash ent
      return (hash, .returned rc)
  | .removeKey key => do
      let (hash, rc) ← amstrhashRemoveKey hash key
      return (hash, .returned rc)

/-- Where the loop over a bucket is: before the bucket, or at an entry of it. -/
inductive Search
  | bucket
  | entry (bucket i : ℕ)
  deriving DecidableEq, Repr

def matchesEnt (hash : Amstrhash V) (key : Option Pointer) (hashValue : UInt64) (ent : Pointer) :
    Except Fault Bool := do
  let entry ← hash.entry ent
  if entry.keyHash ≠ hashValue then return false
  else if entry.key ≠ key then return true
  else hash.sameString entry.key key

/-- One turn of the loop. It ends with the bucket and with the entry that was found, if any. -/
def searchStep (hash : Amstrhash V) (key : Option Pointer) (hashValue : UInt64) :
    Search → Except Fault (Search ⊕ ℕ × Option Pointer)
  | .bucket => do
      let bucket ← amstrhashBucket hash hashValue
      return .inl (.entry bucket 0)
  | .entry bucket i =>
      match (hash.buckets bucket).entries[i]? with
      | none => return .inr (bucket, none)
      | some ent => do
          if ← matchesEnt hash key hashValue ent then return .inr (bucket, some ent)
          else return .inl (.entry bucket (i + 1))

/-- What `amstrhash_insert` does after the loop, before it releases the lock. -/
def finishInsert (hash : Amstrhash V) (key : Option Pointer) (hashValue : UInt64) (value : Option V)
    (allocs : Allocations) (bucket : ℕ) : Option Pointer →
    Except Fault (Amstrhash V × Amrc × Option Pointer)
  | some ent =>
      if hash.flags.overwrite then do
        let entry ← hash.entry ent
        let hash := hash.issueCallback key entry.value true
        let hash := { hash with
          ents := Function.update hash.ents ent (some { entry with value := value }) }
        return (hash, .success, none)
      else return (hash, .error, some ent)
  | none => do
      let (hash, rc) ← addEnt hash bucket key hashValue value allocs
      return (hash, rc, none)

/-- The next step of a running call, with the values its local variables hold. -/
inductive AmstrhashPc (V : Type)
  | idle
  | insertHash (key : Option Pointer) (value : Option V) (allocs : Allocations)
  | insertLock (key : Option Pointer) (hashValue : UInt64) (value : Option V) (allocs : Allocations)
  | insertSearch (key : Option Pointer) (hashValue : UInt64) (value : Option V)
      (allocs : Allocations) (at' : Search)
  | insertEnd (key : Option Pointer) (hashValue : UInt64) (value : Option V)
      (allocs : Allocations) (bucket : ℕ)
      (found : Option Pointer)
  | insertUnlock (rc : Amrc) (oldKey : Option Pointer)
  | findHash (key : Option Pointer)
  | findLock (key : Option Pointer) (hashValue : UInt64)
  | findSearch (key : Option Pointer) (hashValue : UInt64) (at' : Search)
  | findUnlock (out : Option Pointer)
  | removeLock (ent : Pointer)
  | removeEnd (ent : Pointer)
  | removeUnlock
  | removeKeyLock (key : Option Pointer)
  | removeKeyHash (key : Option Pointer)
  | removeKeySearch (key : Option Pointer) (hashValue : UInt64) (at' : Search)
  | removeKeyEnd (key : Option Pointer) (hashValue : UInt64) (ent : Pointer)
  | removeKeyUnlock
  | returning (result : Result)

def Invocation.begin : Invocation V → AmstrhashPc V
  | .insert key value allocs => .insertHash key value allocs
  | .find key => .findHash key
  | .remove none => .returning (.returned .error)
  | .remove (some ent) => .removeLock ent
  | .removeKey key => .removeKeyLock key

/-- One step of a running call. A call of the lock waits while it cannot be had, that of a thread
that has kept the lock of a removed key, too, though this one may be refused and go on
(`LockReply`); what would be an access of unmapped memory or a failed assertion is no step. -/
def amstrhashAccess (g : Amstrhash V) : AmstrhashPc V → Option (Amstrhash V × AmstrhashPc V)
  | .idle => none
  | .insertHash key value allocs =>
      match calcHash g key with
      | .error _ => none
      | .ok hashValue => some (g, .insertLock key hashValue value allocs)
  | .insertLock key hashValue value allocs =>
      match g.wrlock with
      | .error _ => none
      | .ok g => some (g, .insertSearch key hashValue value allocs .bucket)
  | .insertSearch key hashValue value allocs at' =>
      match searchStep g key hashValue at' with
      | .error _ => none
      | .ok (.inl at') => some (g, .insertSearch key hashValue value allocs at')
      | .ok (.inr (bucket, found)) => some (g, .insertEnd key hashValue value allocs bucket found)
  | .insertEnd key hashValue value allocs bucket found =>
      match finishInsert g key hashValue value allocs bucket found with
      | .error _ => none
      | .ok (g, rc, oldKey) => some (g, .insertUnlock rc oldKey)
  | .insertUnlock rc oldKey => some (g.unlock, .returning (.inserted rc oldKey))
  | .findHash key =>
      match calcHash g key with
      | .error _ => none
      | .ok hashValue => some (g, .findLock key hashValue)
  | .findLock key hashValue =>
      match g.rdlock with
      | .error _ => none
      | .ok g => some (g, .findSearch key hashValue .bucket)
  | .findSearch key hashValue at' =>
      match searchStep g key hashValue at' with
      | .error _ => none
      | .ok (.inl at') => some (g, .findSearch key hashValue at')
      | .ok (.inr (_, out)) => some (g, .findUnlock out)
  | .findUnlock out => some (g.unlock, .returning (.found out))
  | .removeLock ent =>
      match g.wrlock with
      | .error _ => none
      | .ok g => some (g, .removeEnd ent)
  | .removeEnd ent =>
      match removeEnt g ent true with
      | .error _ => none
      | .ok g => some (g, .removeUnlock)
  | .removeUnlock => some (g.unlock, .returning (.returned .success))
  | .removeKeyLock key =>
      match g.wrlock with
      | .error _ => none
      | .ok g => some (g, .removeKeyHash key)
  | .removeKeyHash key =>
      match calcHash g key with
      | .error _ => none
      | .ok hashValue => some (g, .removeKeySearch key hashValue .bucket)
  | .removeKeySearch key hashValue at' =>
      match searchStep g key hashValue at' with
      | .error _ => none
      | .ok (.inl at') => some (g, .removeKeySearch key hashValue at')
      -- The lock stays taken.
      | .ok (.inr (_, none)) => some (g, .returning (.returned .error))
      | .ok (.inr (_, some ent)) => some (g, .removeKeyEnd key hashValue ent)
  | .removeKeyEnd _ _ ent =>
      match removeEnt g ent true with
      | .error _ => none
      | .ok g => some (g, .removeKeyUnlock)
  | .removeKeyUnlock => some (g.unlock, .returning (.returned .success))
  | .returning _ => none

inductive Act (V : Type)
  | call (call : Invocation V)
  | tick

def next (g : Amstrhash V) (pc : AmstrhashPc V) : Act V → Option (Amstrhash V × AmstrhashPc V)
  | .call call =>
      match pc with
      | .idle => some (g, call.begin)
      | _ => none
  | .tick =>
      match pc with
      | .returning _ => some (g, .idle)
      | _ => amstrhashAccess g pc

def shared (Tid : Type) (hash : Amstrhash V) : Config Tid (Amstrhash V) (AmstrhashPc V) :=
  ⟨hash, fun _ => .idle⟩

end Model

section Moves

inductive Move (g : Amstrhash V) : AmstrhashPc V → Act V → Amstrhash V → AmstrhashPc V → Prop
  | call (call : Invocation V) : Move g .idle (.call call) g call.begin
  | insertHash {key value allocs hashValue} (hashed : calcHash g key = .ok hashValue) :
      Move g (.insertHash key value allocs) .tick g (.insertLock key hashValue value allocs)
  | insertLock {key hashValue value allocs g'} (locked : g.wrlock = .ok g') :
      Move g (.insertLock key hashValue value allocs) .tick g'
      (.insertSearch key hashValue value allocs .bucket)
  | insertTurn {key hashValue value allocs at' next}
      (turned : searchStep g key hashValue at' = .ok (.inl next)) :
      Move g (.insertSearch key hashValue value allocs at') .tick g
      (.insertSearch key hashValue value allocs next)
  | insertFound {key hashValue value allocs at' bucket found}
      (turned : searchStep g key hashValue at' = .ok (.inr (bucket, found))) :
      Move g (.insertSearch key hashValue value allocs at') .tick g
        (.insertEnd key hashValue value allocs bucket found)
  | insertEnd {key hashValue value allocs bucket found g' rc oldKey}
      (finished : finishInsert g key hashValue value allocs bucket found = .ok (g', rc, oldKey)) :
      Move g (.insertEnd key hashValue value allocs bucket found) .tick g' (.insertUnlock rc oldKey)
  | insertUnlock {rc oldKey} : Move g (.insertUnlock rc oldKey) .tick g.unlock
      (.returning (.inserted rc oldKey))
  | findHash {key hashValue} (hashed : calcHash g key = .ok hashValue) :
      Move g (.findHash key) .tick g (.findLock key hashValue)
  | findLock {key hashValue g'} (locked : g.rdlock = .ok g') :
      Move g (.findLock key hashValue) .tick g' (.findSearch key hashValue .bucket)
  | findTurn {key hashValue at' next} (turned : searchStep g key hashValue at' = .ok (.inl next)) :
      Move g (.findSearch key hashValue at') .tick g (.findSearch key hashValue next)
  | findFound {key hashValue at' bucket out}
      (turned : searchStep g key hashValue at' = .ok (.inr (bucket, out))) :
      Move g (.findSearch key hashValue at') .tick g (.findUnlock out)
  | findUnlock {out} : Move g (.findUnlock out) .tick g.unlock (.returning (.found out))
  | removeLock {ent g'} (locked : g.wrlock = .ok g') : Move g (.removeLock ent) .tick g'
      (.removeEnd ent)
  | removeEnd {ent g'} (removed : removeEnt g ent true = .ok g') :
      Move g (.removeEnd ent) .tick g' .removeUnlock
  | removeUnlock : Move g .removeUnlock .tick g.unlock (.returning (.returned .success))
  | removeKeyLock {key g'} (locked : g.wrlock = .ok g') : Move g (.removeKeyLock key) .tick g'
      (.removeKeyHash key)
  | removeKeyHash {key hashValue} (hashed : calcHash g key = .ok hashValue) :
      Move g (.removeKeyHash key) .tick g (.removeKeySearch key hashValue .bucket)
  | removeKeyTurn {key hashValue at' next}
      (turned : searchStep g key hashValue at' = .ok (.inl next)) :
      Move g (.removeKeySearch key hashValue at') .tick g (.removeKeySearch key hashValue next)
  | removeKeyAbsent {key hashValue at' bucket}
      (turned : searchStep g key hashValue at' = .ok (.inr (bucket, none))) :
      Move g (.removeKeySearch key hashValue at') .tick g (.returning (.returned .error))
  | removeKeyFound {key hashValue at' bucket ent}
      (turned : searchStep g key hashValue at' = .ok (.inr (bucket, some ent))) :
      Move g (.removeKeySearch key hashValue at') .tick g (.removeKeyEnd key hashValue ent)
  | removeKeyEnd {key hashValue ent g'} (removed : removeEnt g ent true = .ok g') :
      Move g (.removeKeyEnd key hashValue ent) .tick g' .removeKeyUnlock
  | removeKeyUnlock : Move g .removeKeyUnlock .tick g.unlock (.returning (.returned .success))
  | returning (result : Result) : Move g (.returning result) .tick g .idle

variable {g g' : Amstrhash V} {pc pc' : AmstrhashPc V}

theorem access_move (fired : amstrhashAccess g pc = some (g', pc')) : Move g pc .tick g' pc' := by
  cases pc <;> simp only [amstrhashAccess] at fired
  case insertHash key value allocs =>
    split at fired
    · cases fired
    · rename_i hashed
      cases fired
      exact .insertHash hashed
  case insertLock key hashValue value allocs =>
    split at fired
    · cases fired
    · rename_i locked
      cases fired
      exact .insertLock locked
  case insertSearch key hashValue value allocs at' =>
    split at fired
    · cases fired
    · rename_i turned
      cases fired
      exact .insertTurn turned
    · rename_i turned
      cases fired
      exact .insertFound turned
  case insertEnd key hashValue value allocs bucket found =>
    split at fired
    · cases fired
    · rename_i finished
      cases fired
      exact .insertEnd finished
  case insertUnlock rc oldKey =>
    cases fired
    exact .insertUnlock
  case findHash key =>
    split at fired
    · cases fired
    · rename_i hashed
      cases fired
      exact .findHash hashed
  case findLock key hashValue =>
    split at fired
    · cases fired
    · rename_i locked
      cases fired
      exact .findLock locked
  case findSearch key hashValue at' =>
    split at fired
    · cases fired
    · rename_i turned
      cases fired
      exact .findTurn turned
    · rename_i turned
      cases fired
      exact .findFound turned
  case findUnlock out =>
    cases fired
    exact .findUnlock
  case removeLock ent =>
    split at fired
    · cases fired
    · rename_i locked
      cases fired
      exact .removeLock locked
  case removeEnd ent =>
    split at fired
    · cases fired
    · rename_i removed
      cases fired
      exact .removeEnd removed
  case removeUnlock =>
    cases fired
    exact .removeUnlock
  case removeKeyLock key =>
    split at fired
    · cases fired
    · rename_i locked
      cases fired
      exact .removeKeyLock locked
  case removeKeyHash key =>
    split at fired
    · cases fired
    · rename_i hashed
      cases fired
      exact .removeKeyHash hashed
  case removeKeySearch key hashValue at' =>
    split at fired
    · cases fired
    · rename_i turned
      cases fired
      exact .removeKeyTurn turned
    · rename_i turned
      cases fired
      exact .removeKeyAbsent turned
    · rename_i turned
      cases fired
      exact .removeKeyFound turned
  case removeKeyEnd key hashValue ent =>
    split at fired
    · cases fired
    · rename_i removed
      cases fired
      exact .removeKeyEnd removed
  case removeKeyUnlock =>
    cases fired
    exact .removeKeyUnlock
  all_goals cases fired

theorem next_move {a : Act V} (fired : next g pc a = some (g', pc')) : Move g pc a g' pc' := by
  cases a with
  | call call =>
      simp only [next] at fired
      split at fired
      · cases fired
        exact .call call
      · cases fired
  | tick =>
      simp only [next] at fired
      split at fired
      · cases fired
        exact .returning _
      · exact access_move fired

end Moves

section Exclusion

def AmstrhashPc.reads : AmstrhashPc V → Bool
  | .findSearch _ _ _ => true
  | .findUnlock _ => true
  | _ => false

def AmstrhashPc.writes : AmstrhashPc V → Bool
  | .insertSearch _ _ _ _ _ => true
  | .insertEnd _ _ _ _ _ _ => true
  | .insertUnlock _ _ => true
  | .removeEnd _ => true
  | .removeUnlock => true
  | .removeKeyHash _ => true
  | .removeKeySearch _ _ _ => true
  | .removeKeyEnd _ _ _ => true
  | .removeKeyUnlock => true
  | _ => false

theorem not_both (pc : AmstrhashPc V) : ¬ (pc.reads = true ∧ pc.writes = true) := by
  cases pc <;> simp [AmstrhashPc.reads, AmstrhashPc.writes]

def Amstrhash.readers (g : Amstrhash V) : ℕ := g.lock.readers

def Amstrhash.writer (g : Amstrhash V) : Bool := g.lock.writer

variable {g g' : Amstrhash V} {pc pc' : AmstrhashPc V} {a : Act V}

theorem wrlock_eq (uses : g.flags.useLock = true) (locked : g.wrlock = .ok g') :
    g.lock = ⟨0, false⟩ ∧ g' = g.relock ⟨0, true⟩ (g.lockCalls ++ [.wrlock]) := by
  simp only [Amstrhash.wrlock, uses, if_true, reduceCtorEq, and_false, if_false] at locked
  split at locked
  · rename_i free
    cases locked
    exact ⟨free, rfl⟩
  · cases locked

theorem rdlock_eq (uses : g.flags.useLock = true) (locked : g.rdlock = .ok g') :
    g.lock.writer = false ∧ g' = g.relock ⟨g.lock.readers + 1, g.lock.writer⟩
    (g.lockCalls ++ [.rdlock]) := by
  simp only [Amstrhash.rdlock, uses, if_true, reduceCtorEq, if_false] at locked
  split at locked
  · rename_i free
    cases locked
    exact ⟨free, rfl⟩
  · cases locked

theorem unlock_eq (g : Amstrhash V) : ∃ lock calls, g.unlock = g.relock lock calls := by
  rw [Amstrhash.unlock]
  split
  · exact ⟨_, _, rfl⟩
  · exact ⟨g.lock, g.lockCalls, rfl⟩

theorem unlock_locks (uses : g.flags.useLock = true) (inside : pc.reads = true ∨ pc.writes = true)
    (outside : pc'.reads = false ∧ pc'.writes = false) :
    Locks Amstrhash.readers Amstrhash.writer AmstrhashPc.reads AmstrhashPc.writes g pc
    g.unlock pc' := by
  refine .unlock inside ?_ outside
  cases held : g.lock.writer <;>
    simp [Amstrhash.writer, Amstrhash.readers, Amstrhash.unlock, uses, held]

theorem wrlock_locks (uses : g.flags.useLock = true) (locked : g.wrlock = .ok g')
    (outside : pc.reads = false ∧ pc.writes = false)
    (inside : pc'.reads = false ∧ pc'.writes = true) :
    Locks Amstrhash.readers Amstrhash.writer AmstrhashPc.reads AmstrhashPc.writes g pc g' pc' := by
  obtain ⟨free, rfl⟩ := wrlock_eq uses locked
  refine .wrlock ?_ ⟨rfl, rfl⟩ outside inside
  rw [Amstrhash.readers, Amstrhash.writer, free]
  exact ⟨rfl, rfl⟩

end Exclusion

end Libam.Strhash
