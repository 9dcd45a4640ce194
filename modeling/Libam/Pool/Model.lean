import Libam.Stats
import Mathlib.Data.List.Defs

/-! The memory pool of `libam_pool.c`: its chunks and buckets, and the calls of `alloc` and `free`,
one section under the mutex or one write outside of it at a time. -/

namespace Libam.Pool

open Libam.Stats

section Chunks

abbrev Addr := ℕ

structure AmpoolChunk where
  name : String
  size : UInt32
  magic : UInt32
  data : ℕ → UInt8

def AmpoolChunk.zero : AmpoolChunk := { name := "", size := 0, magic := 0, data := fun _ => 0 }

/-- `globals.magic` and `AMPOOL_VALIDATE_ON_FREE`. -/
structure Config where
  magic : UInt32
  validate : Bool

def ampoolAlign : UInt32 := 16
def ampoolStepCount : UInt32 := 32
def ampoolMaxStepped : UInt32 := ampoolAlign * ampoolStepCount
def ampoolMaxValidateHalf : UInt32 := 32
def ampoolMaxMemset : UInt32 := 1024

/-- `sizeof(ampool_chunk_t)`. -/
def sizeofAmpoolChunk : ℕ := 32

/-- `&chunk->data[i]`. -/
def dataPtr (chunk : Addr) (i : ℕ) : ℕ := chunk + sizeofAmpoolChunk + i

def alignSize (size : UInt32) : UInt32 := (size + ampoolAlign - 1) &&& ~~~(ampoolAlign - 1)

/-- `_MIN`. -/
def min32 (a b : UInt32) : UInt32 := if b < a then b else a

def chunkMagicPtr (magic : UInt32) (ptr : ℕ) (dataMagic : Bool) : UInt8 :=
  let ret := (magic >>> UInt32.ofNat (8 * (ptr % 4))).toUInt8
  if dataMagic then ret &&& 0x0F else ret

def chunkMagicGetValues (magic : UInt32) (ptr : ℕ) (isData toAllocated : Bool) : UInt8 × UInt8 :=
  let expected := chunkMagicPtr magic ptr isData
  let desired := ~~~expected
  if toAllocated then (~~~expected, ~~~desired) else (expected, desired)

def chunkMagicTestLen (magic : UInt32) (chunk : Addr) (data : ℕ → UInt8) (isData toAllocated : Bool)
    (i : ℕ) : ℕ → Bool
  | 0 => true
  | remaining + 1 =>
      let expected := (chunkMagicGetValues magic (dataPtr chunk i) isData toAllocated).1
      (data i == expected || (isData && !toAllocated)) &&
        chunkMagicTestLen magic chunk data isData toAllocated (i + 1) remaining

def chunkMagicSetLen (magic : UInt32) (chunk : Addr) (isData toAllocated : Bool) (i : ℕ) :
    ℕ → List (ℕ × UInt8)
  | 0 => []
  | remaining + 1 =>
      let desired := (chunkMagicGetValues magic (dataPtr chunk i) isData toAllocated).2
      let rest := chunkMagicSetLen magic chunk isData toAllocated (i + 1) remaining
      if !isData || !toAllocated then (i, desired) :: rest else rest

def validatedLen (size : UInt32) : UInt32 := min32 ampoolMaxValidateHalf ((size + 1) / 2)

def chunkMagicTest (magic : UInt32) (c : Addr) (chunk : AmpoolChunk) (allocationSize : UInt32)
    (toAllocated validateData validateOverflow : Bool) : Bool :=
  let test := chunkMagicTestLen magic c chunk.data
  let len := validatedLen chunk.size
  (chunk.magic == magic || toAllocated) && (chunk.magic == ~~~magic || !toAllocated) &&
    (!validateData || (test true toAllocated 0 len.toNat &&
      test true toAllocated (chunk.size - len).toNat len.toNat)) &&
    (!validateOverflow || test false toAllocated chunk.size.toNat
      (allocationSize - chunk.size).toNat)

/-- The parts of `chunk_magic_set`, each of which reads the size anew. -/
inductive Part
  | header
  | low
  | high
  | overflow
  | done
  deriving DecidableEq, Repr

/-- A running `chunk_magic_set`: the part that comes next, `len`, and the writes
left of this part. -/
structure MagicSet where
  next : Part
  len : UInt32
  writes : List (ℕ × UInt8)

def MagicSet.start : MagicSet := ⟨.header, 0, []⟩

/-- The next write of `chunk_magic_set`, or the next read of the size. -/
def chunkMagicSet (magic : UInt32) (c : Addr) (chunk : AmpoolChunk) (allocationSize : UInt32)
    (toAllocated setData setOverflow : Bool) (set : MagicSet) : AmpoolChunk × MagicSet :=
  let afterData := if setOverflow then Part.overflow else .done
  let loop := chunkMagicSetLen magic c
  match set.writes, set.next with
  | (i, desired) :: writes, _ =>
      ({ chunk with data := Function.update chunk.data i desired }, { set with writes := writes })
  | [], .header =>
      ({ chunk with magic := if toAllocated then magic else ~~~magic },
        { set with next := if setData && !toAllocated then .low else afterData })
  | [], .low =>
      let len := validatedLen chunk.size
      (chunk, ⟨.high, len, loop true toAllocated 0 len.toNat⟩)
  | [], .high =>
      (chunk, ⟨afterData, set.len,
        loop true toAllocated (chunk.size - set.len).toNat set.len.toNat⟩)
  | [], .overflow =>
      (chunk, ⟨.done, set.len,
        loop false toAllocated chunk.size.toNat (allocationSize - chunk.size).toNat⟩)
  | [], .done => (chunk, set)

/-- The writes of `memset(chunk->data, 0, remaining)`. -/
def memsetZero (i : ℕ) : ℕ → List (ℕ × UInt8)
  | 0 => []
  | remaining + 1 => (i, 0) :: memsetZero (i + 1) remaining

end Chunks

section Buckets

inductive BucketId
  | step (i : Fin 32)
  | oversized
  deriving DecidableEq, Repr

structure AmpoolBucketStats where
  elementSize : UInt64
  usedSize : UInt64
  usedSizeRange : AmstatRange
  totalSize : UInt64
  totalSizeRange : AmstatRange
  usedElementCount : UInt64
  usedElementCountRange : AmstatRange
  totalElementCount : UInt64
  totalElementCountRange : AmstatRange

structure AmpoolBucket where
  usedList : List Addr
  freeList : List Addr
  stats : AmpoolBucketStats

def bucketInit (size : UInt64) : AmpoolBucket where
  usedList := []
  freeList := []
  stats := {
    elementSize := size
    usedSize := 0, usedSizeRange := amstatInit
    totalSize := 0, totalSizeRange := amstatInit
    usedElementCount := 0, usedElementCountRange := amstatInit
    totalElementCount := 0, totalElementCountRange := amstatInit }

/-- The size that `ampool_pool_alloc_flags_named` gives a bucket. -/
def bucketSize : BucketId → UInt64
  | .step i => (UInt64.ofNat i + 1) * 16
  | .oversized => 0

inductive Fault
  | assertion
  | outOfBounds
  deriving DecidableEq, Repr

def ampoolGetBucket (size : UInt32) : Except Fault BucketId :=
  if size &&& (ampoolAlign - 1) ≠ 0 then .error .assertion
  else if size ≤ ampoolMaxStepped then
    let index := (size >>> 4) - 1
    if inside : index.toNat < 32 then .ok (.step ⟨index.toNat, inside⟩) else .error .outOfBounds
  else .ok .oversized

def AmpoolBucketStats.countTotal (stats : AmpoolBucketStats) (subSize : UInt64) :
    AmpoolBucketStats :=
  let count := stats.totalElementCount + 1
  let size := stats.totalSize + subSize
  { stats with
    totalElementCount := count
    totalElementCountRange := amstatUpd stats.totalElementCountRange count
    totalSize := size
    totalSizeRange := amstatUpd stats.totalSizeRange size }

def AmpoolBucketStats.setUsed (stats : AmpoolBucketStats) (count size : UInt64) :
    AmpoolBucketStats :=
  { stats with
    usedElementCount := count
    usedElementCountRange := amstatUpd stats.usedElementCountRange count
    usedSize := size
    usedSizeRange := amstatUpd stats.usedSizeRange size }

def sizeMalloc (elementSize : UInt64) (size : UInt32) : UInt32 :=
  if elementSize = 0 then alignSize size else elementSize.toUInt32

/-- The three assertions at the head of `bucket_alloc` and `bucket_free`. -/
def sizesFit (elementSize : UInt64) (sizeMalloc size : UInt32) : Bool :=
  (size ≤ sizeMalloc && sizeMalloc - ampoolAlign < size) &&
    (elementSize == 0 || size ≤ ampoolMaxStepped) &&
    (0 < elementSize || ampoolMaxStepped < size)

/-- What `bucket_alloc` does under the mutex; `fresh` is what `malloc` returns. -/
def bucketAllocSection (cfg : Config) (bucket : AmpoolBucket) (memory : Addr → AmpoolChunk)
    (subSize sizeMalloc : UInt32) (fresh : Option Addr) :
    Except Fault (AmpoolBucket × Option Addr) :=
  let used (bucket : AmpoolBucket) (chunk : Addr) : AmpoolBucket :=
    { bucket with
      usedList := chunk :: bucket.usedList
      stats := bucket.stats.setUsed (bucket.stats.usedElementCount + 1)
        (bucket.stats.usedSize + subSize.toUInt64) }
  match bucket.freeList with
  | [] =>
      match fresh with
      | none => .ok (bucket, none)
      | some chunk =>
          let bucket := { bucket with stats := bucket.stats.countTotal subSize.toUInt64 }
          .ok (used bucket chunk, some chunk)
  | chunk :: free =>
      if chunkMagicTest cfg.magic chunk (memory chunk) sizeMalloc true cfg.validate
        cfg.validate then
        .ok (used { bucket with freeList := free } chunk, some chunk)
      else .error .assertion

/-- What `bucket_free` does under the mutex. -/
def bucketFreeSection (bucket : AmpoolBucket) (chunk : Addr) (size : UInt32) : AmpoolBucket :=
  { usedList := bucket.usedList.erase chunk
    freeList := if 0 < bucket.stats.elementSize then chunk :: bucket.freeList else bucket.freeList
    stats := bucket.stats.setUsed (bucket.stats.usedElementCount - 1)
      (bucket.stats.usedSize - size.toUInt64) }

end Buckets

section Calls

structure Call where
  bucket : BucketId
  chunk : Addr
  size : UInt32
  sizeMalloc : UInt32
  deriving DecidableEq, Repr

inductive Pc
  | idle
  | allocEnter (size : UInt32) (name : String)
  | allocName (call : Call) (name : String)
  | allocSize (call : Call)
  | allocMagic (call : Call) (set : MagicSet)
  | allocClear (call : Call) (writes : List (ℕ × UInt8))
  | allocAdd (call : Call)
  | allocInc (call : Call)
  | freeEnter (chunk : Addr) (size : UInt32)
  | freeSection (call : Call)
  | freeMagic (call : Call) (set : MagicSet)
  | freeMemory (call : Call)
  | freeSub (size : UInt32)
  | freeDec

/-- `ampool_internal_t` with the memory of the chunks; `held` are the blocks that callers own, each
with the size that was asked for. A fault ends the program. -/
structure Ampool (Thread : Type) where
  buckets : BucketId → AmpoolBucket
  size : UInt64
  elementCount : UInt64
  memory : Addr → AmpoolChunk
  mapped : Addr → Bool
  held : Addr → Option UInt32
  pc : Thread → Pc
  fault : Option Fault

def ampoolPoolAlloc (Thread : Type) (memory : Addr → AmpoolChunk) : Ampool Thread where
  buckets := fun b => bucketInit (bucketSize b)
  size := 0
  elementCount := 0
  memory := memory
  mapped := fun _ => false
  held := fun _ => none
  pc := fun _ => .idle
  fault := none

/-- A thread calls `alloc`, or `free` on a block that is owned; the owner of a block writes into it;
or a thread goes on with its call, where `malloc` returns `fresh`, with whatever is there. -/
inductive Action (Thread : Type)
  | alloc (i : Thread) (size : UInt32) (name : String)
  | free (i : Thread) (chunk : Addr) (size : UInt32)
  | write (chunk : Addr) (offset : ℕ) (value : UInt8)
  | advance (i : Thread) (fresh : Option (Addr × AmpoolChunk))

variable {Thread : Type} [DecidableEq Thread]

def Ampool.goto (s : Ampool Thread) (i : Thread) (pc : Pc) : Ampool Thread :=
  { s with pc := Function.update s.pc i pc }

def Ampool.store (s : Ampool Thread) (c : Addr) (chunk : AmpoolChunk) : Ampool Thread :=
  { s with memory := Function.update s.memory c chunk }

def Ampool.setBucket (s : Ampool Thread) (b : BucketId) (bucket : AmpoolBucket) : Ampool Thread :=
  { s with buckets := Function.update s.buckets b bucket }

def Ampool.malloc (s : Ampool Thread) : Option (Addr × AmpoolChunk) → Ampool Thread
  | none => s
  | some (c, chunk) => { s.store c chunk with mapped := Function.update s.mapped c true }

/-- From `ampool_op_alloc` to the end of the section. -/
def allocEnter (cfg : Config) (s : Ampool Thread) (i : Thread) (size : UInt32) (name : String)
    (fresh : Option (Addr × AmpoolChunk)) : Ampool Thread :=
  match ampoolGetBucket (alignSize size) with
  | .error fault => { s with fault := some fault }
  | .ok b =>
      let bucket := s.buckets b
      let elementSize := bucket.stats.elementSize
      let sizeMalloc := sizeMalloc elementSize size
      if !sizesFit elementSize sizeMalloc size then { s with fault := some .assertion }
      else
        let s := if bucket.freeList.isEmpty then s.malloc fresh else s
        match bucketAllocSection cfg bucket s.memory size sizeMalloc (fresh.map Prod.fst) with
        | .error fault => { s with fault := some fault }
        | .ok (_, none) => s.goto i .idle
        | .ok (bucket, some chunk) =>
            (s.setBucket b bucket).goto i (.allocName ⟨b, chunk, size, sizeMalloc⟩ name)

/-- From `ampool_op_free` to the section. -/
def freeEnter (cfg : Config) (s : Ampool Thread) (i : Thread) (c : Addr) (size : UInt32) :
    Ampool Thread :=
  match ampoolGetBucket (alignSize size) with
  | .error fault => { s with fault := some fault }
  | .ok b =>
      let chunk := s.memory c
      let elementSize := (s.buckets b).stats.elementSize
      let sizeMalloc := sizeMalloc elementSize chunk.size
      if !sizesFit elementSize sizeMalloc chunk.size then { s with fault := some .assertion }
      else if chunkMagicTest cfg.magic c chunk sizeMalloc false cfg.validate cfg.validate then
        s.goto i (.freeSection ⟨b, c, size, sizeMalloc⟩)
      else { s with fault := some .assertion }

/-- A call in `chunk_magic_set` leaves it with its last write. -/
def afterSet (set : MagicSet) (inside : MagicSet → Pc) (after : Pc) : Pc :=
  if set.next = .done ∧ set.writes = [] then after else inside set

def advance (cfg : Config) (s : Ampool Thread) (i : Thread) (fresh : Option (Addr × AmpoolChunk)) :
    Option (Ampool Thread) :=
  match s.pc i with
  | .idle => none
  | .allocEnter size name =>
      if size = 0 then some (s.goto i .idle)
      else if ∃ block ∈ fresh, s.mapped block.1 = true then none
      else some (allocEnter cfg s i size name fresh)
  | .allocName call name =>
      some ((s.store call.chunk { s.memory call.chunk with name := name }).goto i (.allocSize call))
  | .allocSize call =>
      some ((s.store call.chunk { s.memory call.chunk with size := call.size }).goto i
        (.allocMagic call .start))
  | .allocMagic call set =>
      let (chunk, set) := chunkMagicSet cfg.magic call.chunk (s.memory call.chunk) call.sizeMalloc
        true cfg.validate cfg.validate set
      some ((s.store call.chunk chunk).goto i (afterSet set (.allocMagic call)
        (.allocClear call (memsetZero 0 (min32 call.size ampoolMaxMemset).toNat))))
  | .allocClear call writes =>
      match writes with
      | [] => some (s.goto i (.allocAdd call))
      | (k, value) :: writes =>
          let chunk := s.memory call.chunk
          some ((s.store call.chunk { chunk with data := Function.update chunk.data k value }).goto
            i
            (.allocClear call writes))
  | .allocAdd call =>
      some ({ s with size := s.size + call.size.toUInt64 }.goto i (.allocInc call))
  | .allocInc call =>
      some ({ s with
        elementCount := s.elementCount + 1
        held := Function.update s.held call.chunk (some call.size) }.goto i .idle)
  | .freeEnter chunk size => some (freeEnter cfg s i chunk size)
  | .freeSection call =>
      let bucket := s.buckets call.bucket
      let freed := bucketFreeSection bucket call.chunk (s.memory call.chunk).size
      some ((s.setBucket call.bucket freed).goto i
        (if 0 < bucket.stats.elementSize then .freeMagic call .start else .freeMemory call))
  | .freeMagic call set =>
      let (chunk, set) := chunkMagicSet cfg.magic call.chunk (s.memory call.chunk) call.sizeMalloc
        false cfg.validate cfg.validate set
      some ((s.store call.chunk chunk).goto i (afterSet set (.freeMagic call) (.freeSub call.size)))
  | .freeMemory call =>
      some ({ s with mapped := Function.update s.mapped call.chunk false }.goto i
        (.freeSub call.size))
  | .freeSub size => some ({ s with size := s.size - size.toUInt64 }.goto i .freeDec)
  | .freeDec => some ({ s with elementCount := s.elementCount - 1 }.goto i .idle)

def step (cfg : Config) (s : Ampool Thread) (a : Action Thread) : Option (Ampool Thread) :=
  if s.fault.isSome then none
  else match a with
    | .alloc i size name =>
        match s.pc i with
        | .idle => some (s.goto i (.allocEnter size name))
        | _ => none
    | .free i chunk size =>
        match s.pc i with
        | .idle =>
            if s.held chunk = some size then
              some ({ s with held := Function.update s.held chunk none }.goto i
                (.freeEnter chunk size))
            else none
        | _ => none
    | .write c offset value =>
        match s.held c with
        | some size =>
            if offset < size.toNat then
              let chunk := s.memory c
              some (s.store c { chunk with data := Function.update chunk.data offset value })
            else none
        | none => none
    | .advance i fresh => advance cfg s i fresh

end Calls

section Moves

variable {Thread : Type} [DecidableEq Thread] {cfg : Config} {s s' : Ampool Thread}
  {a : Action Thread}

inductive Move (cfg : Config) (s : Ampool Thread) : Action Thread → Ampool Thread → Prop
  | allocCall (i : Thread) (size : UInt32) (name : String) (place : s.pc i = .idle) :
      Move cfg s (.alloc i size name) (s.goto i (.allocEnter size name))
  | freeCall (i : Thread) (chunk : Addr) (size : UInt32) (place : s.pc i = .idle)
      (held : s.held chunk = some size) :
      Move cfg s (.free i chunk size)
        ({ s with held := Function.update s.held chunk none }.goto i (.freeEnter chunk size))
  | write (chunk : Addr) (offset : ℕ) (value : UInt8) (size : UInt32)
      (held : s.held chunk = some size)
      (inside : offset < size.toNat) :
      Move cfg s (.write chunk offset value)
        (s.store chunk { s.memory chunk with
          data := Function.update (s.memory chunk).data offset value })
  | allocNothing (i : Thread) (fresh : Option (Addr × AmpoolChunk)) (name : String)
      (place : s.pc i = .allocEnter 0 name) : Move cfg s (.advance i fresh) (s.goto i .idle)
  | allocEnter (i : Thread) (fresh : Option (Addr × AmpoolChunk)) (size : UInt32) (name : String)
      (place : s.pc i = .allocEnter size name) (positive : size ≠ 0)
      (new : ∀ block ∈ fresh, s.mapped block.1 = false) :
      Move cfg s (.advance i fresh) (Pool.allocEnter cfg s i size name fresh)
  | allocName (i : Thread) (fresh : Option (Addr × AmpoolChunk)) (call : Call) (name : String)
      (place : s.pc i = .allocName call name) :
      Move cfg s (.advance i fresh)
        ((s.store call.chunk { s.memory call.chunk with name := name }).goto i (.allocSize call))
  | allocSize (i : Thread) (fresh : Option (Addr × AmpoolChunk)) (call : Call)
      (place : s.pc i = .allocSize call) :
      Move cfg s (.advance i fresh)
        ((s.store call.chunk { s.memory call.chunk with size := call.size }).goto i
          (.allocMagic call .start))
  | allocMagic (i : Thread) (fresh : Option (Addr × AmpoolChunk)) (call : Call)
      (set set' : MagicSet)
      (chunk : AmpoolChunk) (place : s.pc i = .allocMagic call set)
      (stepped : chunkMagicSet cfg.magic call.chunk (s.memory call.chunk) call.sizeMalloc
        true cfg.validate
        cfg.validate set = (chunk, set')) :
      Move cfg s (.advance i fresh)
        ((s.store call.chunk chunk).goto i (afterSet set' (.allocMagic call)
        (.allocClear call (memsetZero 0 (min32 call.size ampoolMaxMemset).toNat))))
  | allocCleared (i : Thread) (fresh : Option (Addr × AmpoolChunk)) (call : Call)
      (place : s.pc i = .allocClear call []) : Move cfg s (.advance i fresh)
      (s.goto i (.allocAdd call))
  | allocClear (i : Thread) (fresh : Option (Addr × AmpoolChunk)) (call : Call) (k : ℕ)
      (value : UInt8)
      (writes : List (ℕ × UInt8)) (place : s.pc i = .allocClear call ((k, value) :: writes)) :
      Move cfg s (.advance i fresh) ((s.store call.chunk { s.memory call.chunk with
        data := Function.update (s.memory call.chunk).data k value }).goto i
          (.allocClear call writes))
  | allocAdd (i : Thread) (fresh : Option (Addr × AmpoolChunk)) (call : Call)
      (place : s.pc i = .allocAdd call) :
      Move cfg s (.advance i fresh)
      ({ s with size := s.size + call.size.toUInt64 }.goto i (.allocInc call))
  | allocInc (i : Thread) (fresh : Option (Addr × AmpoolChunk)) (call : Call)
      (place : s.pc i = .allocInc call) :
      Move cfg s (.advance i fresh) ({ s with
        elementCount := s.elementCount + 1
        held := Function.update s.held call.chunk (some call.size) }.goto i .idle)
  | freeEnter (i : Thread) (fresh : Option (Addr × AmpoolChunk)) (chunk : Addr) (size : UInt32)
      (place : s.pc i = .freeEnter chunk size) : Move cfg s (.advance i fresh)
      (Pool.freeEnter cfg s i chunk size)
  | freeSection (i : Thread) (fresh : Option (Addr × AmpoolChunk)) (call : Call)
      (place : s.pc i = .freeSection call) :
      Move cfg s (.advance i fresh)
        ((s.setBucket call.bucket (bucketFreeSection (s.buckets call.bucket)
        call.chunk (s.memory call.chunk).size)).goto i
        (if 0 < (s.buckets call.bucket).stats.elementSize then .freeMagic call
          .start else .freeMemory call))
  | freeMagic (i : Thread) (fresh : Option (Addr × AmpoolChunk)) (call : Call) (set set' : MagicSet)
      (chunk : AmpoolChunk) (place : s.pc i = .freeMagic call set)
      (stepped : chunkMagicSet cfg.magic call.chunk (s.memory call.chunk) call.sizeMalloc
        false cfg.validate
        cfg.validate set = (chunk, set')) :
      Move cfg s (.advance i fresh)
        ((s.store call.chunk chunk).goto i (afterSet set' (.freeMagic call) (.freeSub call.size)))
  | freeMemory (i : Thread) (fresh : Option (Addr × AmpoolChunk)) (call : Call)
      (place : s.pc i = .freeMemory call) :
      Move cfg s (.advance i fresh)
        ({ s with mapped := Function.update s.mapped call.chunk false }.goto i (.freeSub call.size))
  | freeSub (i : Thread) (fresh : Option (Addr × AmpoolChunk)) (size : UInt32)
      (place : s.pc i = .freeSub size) :
      Move cfg s (.advance i fresh) ({ s with size := s.size - size.toUInt64 }.goto i .freeDec)
  | freeDec (i : Thread) (fresh : Option (Addr × AmpoolChunk)) (place : s.pc i = .freeDec) :
      Move cfg s (.advance i fresh) ({ s with elementCount := s.elementCount - 1 }.goto i .idle)

theorem advance_move {i : Thread} {fresh : Option (Addr × AmpoolChunk)}
    (fired : advance cfg s i fresh = some s') : Move cfg s (.advance i fresh) s' := by
  cases place : s.pc i with
  | idle => simp [advance, place] at fired
  | allocEnter size name =>
      simp only [advance, place] at fired
      by_cases nothing : size = 0
      · subst nothing
        rw [if_pos rfl] at fired
        cases fired
        exact .allocNothing i fresh name place
      rw [if_neg nothing] at fired
      by_cases old : ∃ block ∈ fresh, s.mapped block.1 = true
      · rw [if_pos old] at fired
        cases fired
      · rw [if_neg old] at fired
        cases fired
        refine .allocEnter i fresh size name place nothing fun block member => ?_
        simpa using fun mapped => old ⟨block, member, mapped⟩
  | allocClear call writes =>
      cases writes with
      | nil =>
          simp only [advance, place] at fired
          cases fired
          exact .allocCleared i fresh call place
      | cons w writes =>
          obtain ⟨k, value⟩ := w
          simp only [advance, place] at fired
          cases fired
          exact .allocClear i fresh call k value writes place
  | allocName call name =>
      simp only [advance, place] at fired
      cases fired
      exact .allocName i fresh call name place
  | allocSize call =>
      simp only [advance, place] at fired
      cases fired
      exact .allocSize i fresh call place
  | allocMagic call set =>
      simp only [advance, place] at fired
      cases fired
      exact .allocMagic i fresh call set _ _ place rfl
  | allocAdd call =>
      simp only [advance, place] at fired
      cases fired
      exact .allocAdd i fresh call place
  | allocInc call =>
      simp only [advance, place] at fired
      cases fired
      exact .allocInc i fresh call place
  | freeEnter chunk size =>
      simp only [advance, place] at fired
      cases fired
      exact .freeEnter i fresh chunk size place
  | freeSection call =>
      simp only [advance, place] at fired
      cases fired
      exact .freeSection i fresh call place
  | freeMagic call set =>
      simp only [advance, place] at fired
      cases fired
      exact .freeMagic i fresh call set _ _ place rfl
  | freeMemory call =>
      simp only [advance, place] at fired
      cases fired
      exact .freeMemory i fresh call place
  | freeSub size =>
      simp only [advance, place] at fired
      cases fired
      exact .freeSub i fresh size place
  | freeDec =>
      simp only [advance, place] at fired
      cases fired
      exact .freeDec i fresh place

theorem step_move (fired : step cfg s a = some s') : s.fault = none ∧ Move cfg s a s' := by
  unfold step at fired
  by_cases dead : s.fault.isSome = true
  · rw [if_pos dead] at fired
    cases fired
  rw [if_neg dead] at fired
  refine ⟨by simpa using dead, ?_⟩
  cases a with
  | alloc i size name =>
      cases place : s.pc i <;> simp only [place] at fired <;> cases fired
      exact .allocCall i size name place
  | free i chunk size =>
      cases place : s.pc i <;> simp only [place] at fired
      case idle =>
        by_cases held : s.held chunk = some size
        · rw [if_pos held] at fired
          cases fired
          exact .freeCall i chunk size place held
        · rw [if_neg held] at fired
          cases fired
      all_goals cases fired
  | write chunk offset value =>
      cases held : s.held chunk with
      | none => simp [held] at fired
      | some size =>
          simp only [held] at fired
          by_cases inside : offset < size.toNat
          · rw [if_pos inside] at fired
            cases fired
            exact .write chunk offset value size held inside
          · rw [if_neg inside] at fired
            cases fired
  | advance i fresh => exact advance_move fired

end Moves

end Libam.Pool
