import Libam.Types

/-! The hash table of `libam_strhash.c` over its entries and the strings of its keys. The bucket
lists and the list of spare entries are Lean lists; what the links of such lists hold is in
`Libam.Lists.Amlist`. -/

namespace Libam.Strhash

structure CString where
  chars : List UInt8
  nonzero : 0 ∉ chars
  deriving DecidableEq, Repr

abbrev Pointer := {address : UInt64 // address ≠ 0}

structure StrhashFlags where
  fixedSize : Bool
  useLock : Bool
  dupKeys : Bool
  overwrite : Bool
  noFreeCb : Bool
  deriving DecidableEq, Repr

structure AmstrhashAttr where
  percentThreashold : UInt64
  bucketThreashold : UInt64
  freeSize : UInt64
  onDelete : Bool
  deriving DecidableEq, Repr

structure AmstrhashEntry (V : Type) where
  key : Option Pointer
  keyHash : UInt64
  value : Option V
  deriving DecidableEq, Repr

structure AmstrhashBucket where
  entries : List Pointer
  size : UInt64
  deriving DecidableEq, Repr

structure RwLock where
  readers : ℕ
  writer : Bool
  deriving DecidableEq, Repr

inductive LockCall
  | wrlock
  | rdlock
  | unlock
  deriving DecidableEq, Repr

/-- What a call of the lock meets if a writer holds it: it waits, as that of another thread does, or
it is the writer's own and is refused with EDEADLK. A writer that asks again may meet either. -/
inductive LockReply
  | waits
  | refused
  deriving DecidableEq, Repr

inductive Fault
  | null
  | unmapped
  | bounds
  | division
  | assertion
  | blocked
  | rounds
  deriving DecidableEq, Repr

/-- `amstrhash_t`, with the memory of entries and strings. The array of the buckets has `slots`
places. The calls of `on_delete` and of the lock are recorded. -/
structure Amstrhash (V : Type) where
  flags : StrhashFlags
  attr : AmstrhashAttr
  freeEnts : List Pointer
  freeSize : UInt64
  capacity : UInt64
  size : UInt64
  lock : RwLock
  buckets : ℕ → AmstrhashBucket
  slots : ℕ
  ents : Pointer → Option (AmstrhashEntry V)
  strings : Pointer → Option CString
  deleted : List (Option Pointer × Option V)
  lockCalls : List LockCall

variable {V : Type}

section Hashing

def signExtend (c : UInt8) : UInt64 := ⟨c.toBitVec.signExtend 64⟩

def amshash (str : CString) : UInt64 :=
  str.chars.foldl (fun hash c => hash + ((hash <<< 5) + signExtend c)) 5381

def Amstrhash.string (hash : Amstrhash V) (key : Option Pointer) : Except Fault CString :=
  match key with
  | none => .error .null
  | some key =>
      match hash.strings key with
      | none => .error .unmapped
      | some str => .ok str

/-- `strcmp(a, b) == 0`. -/
def Amstrhash.sameString (hash : Amstrhash V) (a b : Option Pointer) : Except Fault Bool := do
  let first ← hash.string a
  let second ← hash.string b
  return first.chars == second.chars

def calcHash (hash : Amstrhash V) (key : Option Pointer) : Except Fault UInt64 :=
  match key with
  | none => .ok 0xFFFFFFFFFFFFFFFF
  | some key => do
      let str ← hash.string (some key)
      return amshash str

end Hashing

section Locking

/-- The source does not look at what the calls of the lock return, so a refused one goes on. -/
def Amstrhash.wrlock (hash : Amstrhash V) (reply : LockReply := .waits) :
    Except Fault (Amstrhash V) :=
  if hash.flags.useLock then
    if hash.lock = ⟨0, false⟩ then
      .ok { hash with lock := ⟨0, true⟩, lockCalls := hash.lockCalls ++ [.wrlock] }
    else if hash.lock.writer = true ∧ reply = .refused then
      .ok { hash with lockCalls := hash.lockCalls ++ [.wrlock] }
    else .error .blocked
  else .ok hash

def Amstrhash.rdlock (hash : Amstrhash V) (reply : LockReply := .waits) :
    Except Fault (Amstrhash V) :=
  if hash.flags.useLock then
    if hash.lock.writer = false then
      .ok { hash with
        lock := { hash.lock with readers := hash.lock.readers + 1 }
        lockCalls := hash.lockCalls ++ [.rdlock] }
    else if reply = .refused then .ok { hash with lockCalls := hash.lockCalls ++ [.rdlock] }
    else .error .blocked
  else .ok hash

def Amstrhash.unlock (hash : Amstrhash V) : Amstrhash V :=
  if hash.flags.useLock then
    { hash with
      lock := if hash.lock.writer then { hash.lock with writer := false }
        else { hash.lock with readers := hash.lock.readers - 1 }
      lockCalls := hash.lockCalls ++ [.unlock] }
  else hash

end Locking

section Buckets

def amstrhashBucket (hash : Amstrhash V) (hashValue : UInt64) : Except Fault ℕ :=
  if hash.capacity = 0 then .error .division
  else if (hashValue % hash.capacity).toNat < hash.slots then .ok (hashValue % hash.capacity).toNat
  else .error .bounds

def Amstrhash.entry (hash : Amstrhash V) (ent : Pointer) : Except Fault (AmstrhashEntry V) :=
  match hash.ents ent with
  | none => .error .unmapped
  | some entry => .ok entry

def bucketBytes (capacity : UInt64) : UInt64 := capacity * 24

def slotsOf (capacity : UInt64) : ℕ := (bucketBytes capacity).toNat / 24

def amstrhashInitBuckets (hash : Amstrhash V) : Except Fault (Amstrhash V) :=
  if hash.capacity.toNat ≤ hash.slots then .ok { hash with buckets := fun _ => ⟨[], 0⟩ }
  else .error .bounds

def Amstrhash.link (hash : Amstrhash V) (bucket : ℕ) (ent : Pointer) : Amstrhash V :=
  let b := hash.buckets bucket
  { hash with buckets := Function.update hash.buckets bucket ⟨ent :: b.entries, b.size + 1⟩ }

/-- `amlist_del`: the entry leaves the list that it is in. -/
def Amstrhash.unlink (hash : Amstrhash V) (ent : Pointer) : Amstrhash V :=
  { hash with
    buckets := fun i => { hash.buckets i with entries := (hash.buckets i).entries.erase ent }
    freeEnts := hash.freeEnts.erase ent }

end Buckets

section Creation

def initialAttr (attr : Option AmstrhashAttr) : AmstrhashAttr :=
  let attr := attr.getD ⟨0, 0, 0, false⟩
  { attr with
    percentThreashold := if attr.percentThreashold ≤ 0 then 65 else attr.percentThreashold
    bucketThreashold := if attr.bucketThreashold ≤ 1 then 4 else attr.bucketThreashold }

/-- The three outcomes are those of the first `malloc`, of `pthread_rwlock_init` and of the
second `malloc`. -/
def amstrhashInit (initialCapacity : UInt64) (flags : StrhashFlags) (attr : Option AmstrhashAttr)
    (handle lockReady array : Bool) (strings : Pointer → Option CString) :
    Except Fault (Option (Amstrhash V)) :=
  if handle && lockReady && array then do
    let capacity := if initialCapacity < 8 then 8 else initialCapacity
    let hash ← amstrhashInitBuckets
      { flags := flags, attr := initialAttr attr, freeEnts := [], freeSize := 0,
        capacity := capacity, size := 0,
        lock := ⟨0, false⟩, buckets := fun _ => ⟨[], 0⟩, slots := slotsOf capacity,
        ents := fun _ => none, strings := strings, deleted := [], lockCalls := [] }
    return some hash
  else .ok none

end Creation

section Entries

/-- The copy of a key, if keys are copied; `copy` is what `strdup` returns. -/
def dupKey (hash : Amstrhash V) (key copy : Option Pointer) :
    Except Fault (Option (Amstrhash V × Option Pointer)) :=
  if hash.flags.dupKeys ∧ key ≠ none then do
    let str ← hash.string key
    match copy with
    | none => return none
    | some copy =>
        return some ({ hash with strings := Function.update hash.strings copy (some str) },
          some copy)
  else .ok (some (hash, key))

def Amstrhash.freeKey (hash : Amstrhash V) (key : Option Pointer) : Except Fault (Amstrhash V) :=
  match key with
  | none => .ok hash
  | some key => do
      let _ ← hash.string (some key)
      return { hash with strings := Function.update hash.strings key none }

def Amstrhash.releaseKey (hash : Amstrhash V) (key : Option Pointer) : Except Fault (Amstrhash V) :=
  if hash.flags.dupKeys then hash.freeKey key else .ok hash

/-- A spare entry or a new one; `fresh` is what `malloc` returns. -/
def obtainEnt (hash : Amstrhash V) (fresh : Option Pointer) :
    Except Fault (Amstrhash V × Option Pointer) :=
  match hash.freeEnts with
  | ent :: _ =>
      if 0 < hash.freeSize then do
        let _ ← hash.entry ent
        let hash := hash.unlink ent
        return ({ hash with freeSize := hash.freeSize - 1 }, some ent)
      else .error .assertion
  | [] => if hash.freeSize = 0 then .ok (hash, fresh) else .error .assertion

def amstrhashEntNew (hash : Amstrhash V) (bucket : ℕ) (key : Option Pointer) (hashValue : UInt64)
    (value : Option V) (copy fresh : Option Pointer) : Except Fault (Amstrhash V × Amrc) := do
  match ← dupKey hash key copy with
  | none => return (hash, .error)
  | some (hash, key) => do
      let (hash, ent) ← obtainEnt hash fresh
      match ent with
      | none => do
          let hash ← hash.releaseKey key
          return (hash, .error)
      | some ent => do
          let hash := { hash with
            ents := Function.update hash.ents ent (some ⟨key, hashValue, value⟩) }
          let hash := hash.link bucket ent
          return ({ hash with size := hash.size + 1 }, .success)

/-- The call of `on_delete`, if there is a callback. -/
def Amstrhash.issueCallback (hash : Amstrhash V) (key : Option Pointer) (value : Option V)
    (useCb : Bool) : Amstrhash V :=
  { hash with deleted := if hash.attr.onDelete &&
    useCb then hash.deleted ++ [(key, value)] else hash.deleted }

/-- What `amstrhash_ent_remove` does between its calls of the lock. -/
def removeEnt (hash : Amstrhash V) (ent : Pointer) (useCb : Bool) : Except Fault (Amstrhash V) := do
  let entry ← hash.entry ent
  let hash := hash.issueCallback entry.key entry.value useCb
  let hash ← hash.releaseKey entry.key
  let hash := { hash with ents := Function.update hash.ents ent (some ⟨none, entry.keyHash, none⟩) }
  let hash := hash.unlink ent
  let hash := { hash with size := hash.size - 1 }
  let bucket ← amstrhashBucket hash entry.keyHash
  let b := hash.buckets bucket
  let hash := { hash with
    buckets := Function.update hash.buckets bucket { b with size := b.size - 1 } }
  if hash.freeSize ≥ hash.attr.freeSize then
    return { hash with ents := Function.update hash.ents ent none }
  else return { hash with freeEnts := ent :: hash.freeEnts, freeSize := hash.freeSize + 1 }

def amstrhashEntRemove (hash : Amstrhash V) (ent : Pointer) (useCb useLock : Bool)
    (reply : LockReply := .waits) : Except Fault (Amstrhash V) := do
  let hash ← if useLock then hash.wrlock reply else pure hash
  let hash ← removeEnt hash ent useCb
  return if useLock then hash.unlock else hash

end Entries

section Resizing

def moveEntries : List Pointer → UInt64 → Amstrhash V → Except Fault (Amstrhash V)
  | [], size, hash => if size = 0 then .ok hash else .error .assertion
  | ent :: entries, size, hash =>
      if 0 < size then do
        let entry ← hash.entry ent
        let bucket ← amstrhashBucket hash entry.keyHash
        moveEntries entries (size - 1) (hash.link bucket ent)
      else .error .assertion

def moveBuckets (old : Amstrhash V) : ℕ → ℕ → Amstrhash V → Except Fault (Amstrhash V)
  | 0, _, hash => .ok hash
  | left + 1, i, hash =>
      if i < old.slots then do
        let hash ← moveEntries (old.buckets i).entries (old.buckets i).size hash
        moveBuckets old left (i + 1) hash
      else .error .bounds

def amstrhashUpsize (hash : Amstrhash V) (array : Bool) : Except Fault (Amstrhash V × Amrc) :=
  let capacity := hash.capacity * 2
  if array then do
    let bigger ← amstrhashInitBuckets { hash with capacity := capacity, slots := slotsOf capacity }
    let bigger ← moveBuckets hash hash.capacity.toNat 0 bigger
    return (bigger, .success)
  else .ok (hash, .error)

end Resizing

section Termination

def termEntries (bucket : ℕ) : ℕ → Amstrhash V → Except Fault (Amstrhash V)
  | rounds, hash =>
      match (hash.buckets bucket).entries with
      | [] => .ok hash
      | ent :: _ =>
          match rounds with
          | 0 => .error .rounds
          | rounds + 1 => do
              let hash ← amstrhashEntRemove hash ent (!hash.flags.noFreeCb) false
              termEntries bucket rounds hash

def termBuckets : ℕ → ℕ → Amstrhash V → Except Fault (Amstrhash V)
  | 0, _, hash => .ok hash
  | left + 1, i, hash =>
      if i < hash.slots then do
        let hash ← termEntries i (hash.buckets i).entries.length hash
        termBuckets left (i + 1) hash
      else .error .bounds

def termSpares : List Pointer → Amstrhash V → Except Fault (Amstrhash V)
  | [], hash => .ok hash
  | ent :: spares, hash => do
      let _ ← hash.entry ent
      let hash := hash.unlink ent
      termSpares spares
        { hash with freeSize := hash.freeSize - 1, ents := Function.update hash.ents ent none }

def amstrhashTerm (hash : Amstrhash V) (reply : LockReply := .waits) : Except Fault
    (Amstrhash V) := do
  let hash ← hash.wrlock reply
  let hash ← termBuckets hash.capacity.toNat 0 hash
  let hash ← termSpares hash.freeEnts hash
  return hash.unlock

end Termination

section Calls

/-- The loop of `amstrhash_insert` and `amstrhash_find_lock` over a bucket. -/
def findEnt (hash : Amstrhash V) (key : Option Pointer) (hashValue : UInt64) :
    List Pointer → Except Fault (Option Pointer)
  | [] => .ok none
  | ent :: entries => do
      let entry ← hash.entry ent
      if entry.keyHash ≠ hashValue then findEnt hash key hashValue entries
      else if entry.key ≠ key then return some ent
      else if ← hash.sameString entry.key key then return some ent
      else findEnt hash key hashValue entries

def shouldResize (hash : Amstrhash V) (bucket : ℕ) : Bool :=
  !hash.flags.fixedSize &&
    (decide (hash.size + 1 ≥ (hash.attr.percentThreashold * hash.capacity) / 100) ||
      decide ((hash.buckets bucket).size + 1 ≥ hash.attr.bucketThreashold))

structure Allocations where
  array : Bool
  copy : Option Pointer
  ent : Option Pointer

def addEnt (hash : Amstrhash V) (bucket : ℕ) (key : Option Pointer) (hashValue : UInt64)
    (value : Option V) (allocs : Allocations) : Except Fault (Amstrhash V × Amrc) := do
  if shouldResize hash bucket then
    match ← amstrhashUpsize hash allocs.array with
    | (hash, .error) => return (hash, .error)
    | (hash, .success) => do
        let bucket ← amstrhashBucket hash hashValue
        amstrhashEntNew hash bucket key hashValue value allocs.copy allocs.ent
  else amstrhashEntNew hash bucket key hashValue value allocs.copy allocs.ent

/-- What `amstrhash_insert` does between its calls of the lock. -/
def insertEnt (hash : Amstrhash V) (key : Option Pointer) (hashValue : UInt64) (value : Option V)
    (allocs : Allocations) : Except Fault (Amstrhash V × Amrc × Option Pointer) := do
  let bucket ← amstrhashBucket hash hashValue
  match ← findEnt hash key hashValue (hash.buckets bucket).entries with
  | some ent =>
      if hash.flags.overwrite then do
        let entry ← hash.entry ent
        let hash := hash.issueCallback key entry.value true
        let hash := { hash with
          ents := Function.update hash.ents ent (some { entry with value := value }) }
        return (hash, .success, none)
      else return (hash, .error, some ent)
  | none => do
      let (hash, rc) ← addEnt hash bucket key hashValue value allocs
      return (hash, rc, none)

/-- The last part of the result is what is written to `old_key`, if that is not NULL. -/
def amstrhashInsert (hash : Amstrhash V) (key : Option Pointer) (value : Option V)
    (allocs : Allocations) (reply : LockReply := .waits) : Except Fault
    (Amstrhash V × Amrc × Option Pointer) := do
  let hashValue ← calcHash hash key
  let hash ← hash.wrlock reply
  let (hash, rc, oldKey) ← insertEnt hash key hashValue value allocs
  return (hash.unlock, rc, oldKey)

def amstrhashFindLock (hash : Amstrhash V) (key : Option Pointer) (useLock : Bool)
    (reply : LockReply := .waits) : Except Fault (Amstrhash V × Option Pointer) := do
  let hashValue ← calcHash hash key
  let hash ← if useLock then hash.rdlock reply else pure hash
  let bucket ← amstrhashBucket hash hashValue
  let out ← findEnt hash key hashValue (hash.buckets bucket).entries
  return (if useLock then hash.unlock else hash, out)

def amstrhashFind (hash : Amstrhash V) (key : Option Pointer) (reply : LockReply := .waits) :
    Except Fault (Amstrhash V × Option Pointer) :=
  amstrhashFindLock hash key true reply

def amstrhashRemove (hash : Amstrhash V) (ent : Option Pointer) (reply : LockReply := .waits) :
    Except Fault (Amstrhash V × Amrc) :=
  match ent with
  | none => .ok (hash, .error)
  | some ent => do
      let hash ← amstrhashEntRemove hash ent true true reply
      return (hash, .success)

def amstrhashRemoveKey (hash : Amstrhash V) (key : Option Pointer) (reply : LockReply := .waits) :
    Except Fault (Amstrhash V × Amrc) := do
  let hash ← hash.wrlock reply
  match ← amstrhashFindLock hash key false with
  | (hash, none) => return (hash, .error)
  | (hash, some ent) => do
      let hash ← amstrhashEntRemove hash ent true false
      return (hash.unlock, .success)

def amstrhashGetCapacity (hash : Amstrhash V) : UInt64 := hash.capacity

def amstrhashGetSize (hash : Amstrhash V) : UInt64 := hash.size

def amstrhashGetEntKey (hash : Amstrhash V) (ent : Pointer) : Except Fault (Option Pointer) := do
  let entry ← hash.entry ent
  return entry.key

def amstrhashGetEntValue (hash : Amstrhash V) (ent : Pointer) : Except Fault (Option V) := do
  let entry ← hash.entry ent
  return entry.value

def amstrhashSetEntValue (hash : Amstrhash V) (ent : Pointer) (value : Option V) : Except Fault
    (Amstrhash V) := do
  let entry ← hash.entry ent
  return { hash with ents := Function.update hash.ents ent (some { entry with value := value }) }

end Calls

end Libam.Strhash
