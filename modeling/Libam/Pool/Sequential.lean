import Libam.Pool.Poison

/-! Whole calls of the pool of `libam_pool.c`, one after the other. A chunk is a block of memory of
its own, and an access outside of it is a fault. -/

namespace Libam.Pool

open Libam.Stats

/-- What `malloc` gave: a chunk with so many bytes of data. -/
structure Block where
  chunk : AmpoolChunk
  capacity : ℕ

structure AmpoolInternal where
  buckets : BucketId → AmpoolBucket
  size : UInt64
  elementCount : UInt64
  heap : Addr → Option Block

def ampoolInternal : AmpoolInternal where
  buckets := fun b => bucketInit (bucketSize b)
  size := 0
  elementCount := 0
  heap := fun _ => none

section Memory

def AmpoolInternal.block (s : AmpoolInternal) (c : Addr) : Except Fault Block :=
  match s.heap c with
  | none => .error .outOfBounds
  | some block => .ok block

def AmpoolInternal.setBlock (s : AmpoolInternal) (c : Addr) (block : Option Block) :
    AmpoolInternal :=
  { s with heap := Function.update s.heap c block }

def AmpoolInternal.setBucket (s : AmpoolInternal) (b : BucketId) (bucket : AmpoolBucket) :
    AmpoolInternal :=
  { s with buckets := Function.update s.buckets b bucket }

def Block.storeByte (block : Block) (w : ℕ × UInt8) : Except Fault Block :=
  if w.1 < block.capacity then
    .ok { block with
      chunk := { block.chunk with data := Function.update block.chunk.data w.1 w.2 } }
  else .error .outOfBounds

def Block.storeAll (block : Block) : List (ℕ × UInt8) → Except Fault Block
  | [] => .ok block
  | w :: writes => do
      let block ← block.storeByte w
      block.storeAll writes

def Block.readable (block : Block) (i remaining : ℕ) : Bool :=
  remaining = 0 || i + remaining ≤ block.capacity

end Memory

section Marks

/-- `chunk_magic_test`, with the bytes that it reads. -/
def magicTest (cfg : Config) (c : Addr) (block : Block) (allocationSize : UInt32)
    (toAllocated : Bool) : Except Fault Unit :=
  let chunk := block.chunk
  let len := validatedLen chunk.size
  let reads := block.readable 0 len.toNat &&
    block.readable (chunk.size - len).toNat len.toNat &&
    block.readable chunk.size.toNat (allocationSize - chunk.size).toNat
  if cfg.validate && !reads then .error .outOfBounds
  else if chunkMagicTest cfg.magic c chunk allocationSize toAllocated cfg.validate cfg.validate then
    .ok ()
  else .error .assertion

/-- `chunk_magic_set` from its beginning to its end. -/
def magicSet (cfg : Config) (c : Addr) (block : Block) (allocationSize : UInt32)
    (toAllocated : Bool) : Except Fault Block := do
  let loop := chunkMagicSetLen cfg.magic c
  let block := { block with chunk := { block.chunk with
    magic := if toAllocated then cfg.magic else ~~~cfg.magic } }
  let block ← if cfg.validate && !toAllocated then do
      let len := validatedLen block.chunk.size
      let block ← block.storeAll (loop true toAllocated 0 len.toNat)
      block.storeAll (loop true toAllocated (block.chunk.size - len).toNat len.toNat)
    else .ok block
  if cfg.validate then
    block.storeAll (loop false toAllocated block.chunk.size.toNat
      (allocationSize - block.chunk.size).toNat)
  else .ok block

end Marks

section Calls

/-- The section of `bucket_alloc`; `fresh` is what `malloc` returns, with whatever is there. -/
def takeChunk (cfg : Config) (s : AmpoolInternal) (b : BucketId) (subSize sizeMalloc : UInt32)
    (fresh : Option (Addr × AmpoolChunk)) : Except Fault (AmpoolInternal × Option Addr) :=
  let bucket := s.buckets b
  let used (bucket : AmpoolBucket) (c : Addr) : AmpoolBucket :=
    { bucket with
      usedList := c :: bucket.usedList
      stats := bucket.stats.setUsed (bucket.stats.usedElementCount + 1)
        (bucket.stats.usedSize + subSize.toUInt64) }
  match bucket.freeList with
  | [] =>
      match fresh with
      | none => .ok (s, none)
      | some (c, chunk) =>
          let bucket := { bucket with stats := bucket.stats.countTotal subSize.toUInt64 }
          .ok ((s.setBlock c (some ⟨chunk, sizeMalloc.toNat⟩)).setBucket b (used bucket c), some c)
  | c :: free => do
      let block ← s.block c
      magicTest cfg c block sizeMalloc true
      return (s.setBucket b (used { bucket with freeList := free } c), some c)

def bucketAlloc (cfg : Config) (s : AmpoolInternal) (b : BucketId) (subSize : UInt32)
    (name : String) (fresh : Option (Addr × AmpoolChunk)) : Except Fault
    (AmpoolInternal × Option Addr) := do
  let elementSize := (s.buckets b).stats.elementSize
  let sizeMalloc := sizeMalloc elementSize subSize
  if !sizesFit elementSize sizeMalloc subSize then throw .assertion
  let (s, taken) ← takeChunk cfg s b subSize sizeMalloc fresh
  match taken with
  | none => return (s, none)
  | some c => do
      let block ← s.block c
      let block := { block with chunk := { block.chunk with name := name, size := subSize } }
      let block ← magicSet cfg c block sizeMalloc true
      let block ← block.storeAll (memsetZero 0 (min32 subSize ampoolMaxMemset).toNat)
      return (s.setBlock c (some block), some c)

def bucketFree (cfg : Config) (s : AmpoolInternal) (b : BucketId) (c : Addr) :
    Except Fault AmpoolInternal := do
  let block ← s.block c
  let elementSize := (s.buckets b).stats.elementSize
  let sizeMalloc := sizeMalloc elementSize block.chunk.size
  if !sizesFit elementSize sizeMalloc block.chunk.size then throw .assertion
  magicTest cfg c block sizeMalloc false
  let s := s.setBucket b (bucketFreeSection (s.buckets b) c block.chunk.size)
  if 0 < elementSize then do
    let block ← magicSet cfg c block sizeMalloc false
    return s.setBlock c (some block)
  else return s.setBlock c none

def ampoolOpAlloc (cfg : Config) (s : AmpoolInternal) (size : UInt32) (name : String)
    (fresh : Option (Addr × AmpoolChunk)) : Except Fault (AmpoolInternal × Option Addr) := do
  if size = 0 then return (s, none)
  let b ← ampoolGetBucket (alignSize size)
  let (s, taken) ← bucketAlloc cfg s b size name fresh
  match taken with
  | none => return (s, none)
  | some c => return ({ s with size := s.size + size.toUInt64, elementCount := s.elementCount + 1 },
      some c)

def ampoolOpFree (cfg : Config) (s : AmpoolInternal) (c : Addr) (size : UInt32) :
    Except Fault AmpoolInternal := do
  let b ← ampoolGetBucket (alignSize size)
  let s ← bucketFree cfg s b c
  return { s with size := s.size - size.toUInt64, elementCount := s.elementCount - 1 }

def memcpyFrom (data : ℕ → UInt8) (i : ℕ) : ℕ → List (ℕ × UInt8)
  | 0 => []
  | remaining + 1 => (i, data i) :: memcpyFrom data (i + 1) remaining

def ampoolOpRealloc (cfg : Config) (s : AmpoolInternal) (c : Addr) (oldSize newSize : UInt32)
    (name : String) (fresh : Option (Addr × AmpoolChunk)) : Except Fault
    (AmpoolInternal × Option Addr) := do
  let min := (min32 oldSize newSize).toNat
  let (s, taken) ← ampoolOpAlloc cfg s newSize name fresh
  let s ← match taken with
    | none => pure s
    | some new => do
        let old ← s.block c
        if !old.readable 0 min then throw .outOfBounds
        let block ← s.block new
        let block ← block.storeAll (memcpyFrom old.chunk.data 0 min)
        let block ← block.storeAll (memsetZero min (newSize.toNat - min))
        pure (s.setBlock new (some block))
  let s ← ampoolOpFree cfg s c oldSize
  return (s, taken)

end Calls

section Teardown

def allBuckets : List BucketId := (List.finRange 32).map .step ++ [.oversized]

/-- What `ampool_elem_diag` hands to a callback that always succeeds. -/
structure AmpoolElemDiag where
  elem : ℕ
  elemName : String
  elemSize : UInt32
  deriving DecidableEq, Repr

def elemDiagOf (s : AmpoolInternal) (c : Addr) : Except Fault AmpoolElemDiag := do
  let block ← s.block c
  return ⟨dataPtr c 0, block.chunk.name, block.chunk.size⟩

def ampoolElemDiag (s : AmpoolInternal) : Except Fault (List AmpoolElemDiag) :=
  (allBuckets.flatMap fun b => (s.buckets b).usedList).mapM (elemDiagOf s)

/-- The subtractions of a round of `bucket_term_list`. -/
def AmpoolBucketStats.drop (stats : AmpoolBucketStats) (isUsed : Bool) (size : UInt64) :
    AmpoolBucketStats :=
  { stats with
    totalSize := stats.totalSize - size
    totalElementCount := stats.totalElementCount - 1
    usedSize := if isUsed then stats.usedSize - size else stats.usedSize
    usedElementCount := if isUsed then stats.usedElementCount - 1 else stats.usedElementCount }

def AmpoolBucketStats.Enough (stats : AmpoolBucketStats) (isUsed : Bool) (size : UInt64) : Prop :=
  size ≤ stats.totalSize ∧ 1 ≤ stats.totalElementCount ∧
    (isUsed = true → size ≤ stats.usedSize ∧ 1 ≤ stats.usedElementCount)

/-- `bucket_term_list` on the chunks of the used or of the free list. -/
def bucketTermList (cfg : Config) (b : BucketId) (isUsed : Bool) :
    AmpoolInternal → List Addr → Except Fault AmpoolInternal
  | s, [] => .ok s
  | s, c :: chunks => do
      let block ← s.block c
      let bucket := s.buckets b
      let sizeMalloc := sizeMalloc bucket.stats.elementSize block.chunk.size
      magicTest cfg c block sizeMalloc (!isUsed)
      let stats := bucket.stats.drop isUsed block.chunk.size.toUInt64
      let bucket :=
        if isUsed then { bucket with usedList := chunks, stats := stats }
        else { bucket with freeList := chunks, stats := stats }
      bucketTermList cfg b isUsed ((s.setBucket b bucket).setBlock c none) chunks

/-- No subtraction of `bucket_term_list` wraps on chunks of these sizes. -/
def NoWrap (isUsed : Bool) : AmpoolBucketStats → List UInt64 → Prop
  | _, [] => True
  | stats, size :: sizes => stats.Enough isUsed size ∧ NoWrap isUsed (stats.drop isUsed size) sizes

def bucketTerm (cfg : Config) (s : AmpoolInternal) (b : BucketId) :
    Except Fault AmpoolInternal := do
  let s ← bucketTermList cfg b true s (s.buckets b).usedList
  bucketTermList cfg b false s (s.buckets b).freeList

/-- The loop over the buckets in `_ampool_pool_free`, with `deleted_size` and `deleted_count`. -/
def freeBuckets (cfg : Config) : List BucketId → AmpoolInternal → UInt64 → UInt64 →
    Except Fault (AmpoolInternal × UInt64 × UInt64)
  | [], s, deletedSize, deletedCount => .ok (s, deletedSize, deletedCount)
  | b :: rest, s, deletedSize, deletedCount => do
      let deletedSize := deletedSize + (s.buckets b).stats.usedSize
      let deletedCount := deletedCount + (s.buckets b).stats.usedElementCount
      let s ← bucketTerm cfg s b
      freeBuckets cfg rest s deletedSize deletedCount

/-- `_ampool_pool_free` on a pool without children, with the assertions of DEBUG. -/
def ampoolPoolFree (cfg : Config) (s : AmpoolInternal) : Except Fault AmpoolInternal := do
  let (s, deletedSize, deletedCount) ← freeBuckets cfg allBuckets s 0 0
  if deletedSize = s.size ∧ deletedCount = s.elementCount then return s else throw .assertion

end Teardown

end Libam.Pool
