import Libam.Pool.Holding
import Mathlib.Algebra.BigOperators.Group.List.Basic
import Mathlib.Data.UInt

/-! What a chunk counts for, and what `bucket_term` and `_ampool_pool_free` leave. -/

namespace Libam.Pool

section Sizes

def chunkSize (pool : AmpoolInternal) (c : Addr) : ℕ :=
  match pool.heap c with
  | none => 0
  | some block => block.chunk.size.toNat

def sizesOf (pool : AmpoolInternal) (chunks : List Addr) : ℕ := (chunks.map (chunkSize pool)).sum

variable {pool pool' : AmpoolInternal} {c : Addr} {block : Block}

theorem chunkSize_of_some (mapped : pool.heap c = some block) :
    chunkSize pool c = block.chunk.size.toNat := by
  rw [chunkSize, mapped]

theorem chunkSize_congr (same : pool'.heap c = pool.heap c) :
    chunkSize pool' c = chunkSize pool c := by
  rw [chunkSize, chunkSize, same]

theorem sizesOf_congr {chunks : List Addr}
    (same : ∀ c ∈ chunks, chunkSize pool' c = chunkSize pool c) :
    sizesOf pool' chunks = sizesOf pool chunks := by
  rw [sizesOf, sizesOf, List.map_congr_left same]

theorem sizesOf_cons (c : Addr) (chunks : List Addr) :
    sizesOf pool (c :: chunks) = chunkSize pool c + sizesOf pool chunks := by
  rw [sizesOf, List.map_cons, List.sum_cons, sizesOf]

theorem sizesOf_perm {chunks others : List Addr} (perm : chunks.Perm others) :
    sizesOf pool chunks = sizesOf pool others := (perm.map _).sum_eq

end Sizes

section Buckets

variable {cfg : Config} {s : AmpoolInternal} {b : BucketId} {isUsed : Bool} {chunks : List Addr}

def size64 (pool : AmpoolInternal) (c : Addr) : UInt64 := .ofNat (chunkSize pool c)

def AmpoolBucketStats.dropAll (stats : AmpoolBucketStats) (isUsed : Bool) (sizes : List UInt64) :
    AmpoolBucketStats :=
  sizes.foldl (fun stats size => stats.drop isUsed size) stats

theorem elementSize_dropAll (stats : AmpoolBucketStats) (isUsed : Bool) (sizes : List UInt64) :
    (stats.dropAll isUsed sizes).elementSize = stats.elementSize := by
  induction sizes generalizing stats with
  | nil => rfl
  | cons size sizes ih => exact (ih (stats.drop isUsed size)).trans rfl

structure Terminated (s : AmpoolInternal) (b : BucketId) (isUsed : Bool) (chunks : List Addr)
    (s' : AmpoolInternal) : Prop where
  size : s'.size = s.size
  elementCount : s'.elementCount = s.elementCount
  heap : ∀ d, s'.heap d = if d ∈ chunks then none else s.heap d
  others : ∀ b', b' ≠ b → s'.buckets b' = s.buckets b'
  list : (s'.buckets b).list (!isUsed) = (s.buckets b).list (!isUsed)
  stats : (s'.buckets b).stats = (s.buckets b).stats.dropAll isUsed (chunks.map (size64 s))

def dropped (s : AmpoolInternal) (b : BucketId) (isUsed : Bool) (c : Addr) (size : UInt64)
    (chunks : List Addr) : AmpoolInternal :=
  let bucket := s.buckets b
  let stats := bucket.stats.drop isUsed size
  (s.setBucket b (if isUsed then { bucket with usedList := chunks, stats := stats }
    else { bucket with freeList := chunks, stats := stats })).setBlock c none

theorem test_of_kept {block : Block} {c : Addr} (kept : Kept cfg b c isUsed block) :
    magicTest cfg c block (allocationSize b block.chunk) (!isUsed) = .ok () := by
  cases isUsed with
  | true => exact magicTest_marked kept.fits kept.capacity kept.marked
  | false => exact magicTest_poisoned kept.fits kept.capacity kept.poisoned.2

theorem bucketTermList_spec (element : (s.buckets b).stats.elementSize = bucketSize b)
    (nodup : chunks.Nodup)
    (kept : ∀ c ∈ chunks, ∃ block, s.heap c = some block ∧ Kept cfg b c isUsed block) :
    ∃ s', bucketTermList cfg b isUsed s chunks = .ok s' ∧ Terminated s b isUsed chunks s' := by
  induction chunks generalizing s with
  | nil => exact ⟨s, rfl, rfl, rfl, fun _ => by simp, fun _ _ => rfl, rfl, rfl⟩
  | cons c chunks ih =>
      obtain ⟨outside, nodup⟩ := List.nodup_cons.mp nodup
      obtain ⟨block, mapped, here⟩ := kept c List.mem_cons_self
      obtain ⟨next, defNext⟩ : ∃ next,
          next = dropped s b isUsed c block.chunk.size.toUInt64 chunks :=
        ⟨_, rfl⟩
      have heap (d : Addr) (other : d ≠ c) : next.heap d = s.heap d := by
        rw [defNext]
        exact Function.update_of_ne other ..
      have bucket : next.buckets b = if isUsed
          then { s.buckets b with
            usedList := chunks
            stats := (s.buckets b).stats.drop isUsed block.chunk.size.toUInt64 }
          else { s.buckets b with
            freeList := chunks
            stats := (s.buckets b).stats.drop isUsed block.chunk.size.toUInt64 } := by
        rw [defNext]
        exact Function.update_self ..
      have stats : (next.buckets b).stats = (s.buckets b).stats.drop isUsed
          block.chunk.size.toUInt64 := by
        rw [bucket]
        cases isUsed <;> rfl
      have apart (d : Addr) (member : d ∈ chunks) : d ≠ c := fun same => outside (same ▸ member)
      obtain ⟨after, run, spec⟩ := ih (s := next) (by rw [stats]; exact element) nodup
        fun d member => by
        rw [heap d (apart d member)]
        exact kept d (List.mem_cons_of_mem _ member)
      have test := test_of_kept here
      rw [allocationSize] at test
      refine ⟨after, ?_, ?_⟩
      · simp only [bucketTermList, AmpoolInternal.block, mapped, bind, Except.bind, element, test]
        rw [← run, defNext]
        rfl
      · refine ⟨?_, ?_, ?_, ?_, ?_, ?_⟩
        · rw [spec.size, defNext]
          rfl
        · rw [spec.elementCount, defNext]
          rfl
        · intro d
          rw [spec.heap]
          by_cases isHere : d = c
          · have gone : next.heap c = none := by
              rw [defNext]
              exact Function.update_self ..
            simp [isHere, gone]
          · simp [isHere, heap d isHere]
        · intro b' other
          rw [spec.others b' other, defNext]
          exact Function.update_of_ne other ..
        · rw [spec.list, bucket]
          cases isUsed <;> rfl
        · have sizes : chunks.map (size64 next) = chunks.map (size64 s) := by
            apply List.map_congr_left
            intro d member
            rw [size64, size64, chunkSize_congr (heap d (apart d member))]
          have first : size64 s c = block.chunk.size.toUInt64 := by
            rw [size64, chunkSize_of_some mapped, UInt64.ofNat_uInt32ToNat]
          rw [spec.stats, stats, sizes, List.map_cons, first]
          rfl

structure Emptied (s : AmpoolInternal) (b : BucketId) (s' : AmpoolInternal) : Prop where
  size : s'.size = s.size
  elementCount : s'.elementCount = s.elementCount
  heap : ∀ d, s'.heap d = if d ∈ (s.buckets b).usedList ++ (s.buckets b).freeList
    then none else s.heap d
  others : ∀ b', b' ≠ b → s'.buckets b' = s.buckets b'
  stats : (s'.buckets b).stats =
    ((s.buckets b).stats.dropAll true ((s.buckets b).usedList.map (size64 s))).dropAll false
      ((s.buckets b).freeList.map (size64 s))

theorem bucketTerm_kept (element : (s.buckets b).stats.elementSize = bucketSize b)
    (nodup : ((s.buckets b).usedList ++ (s.buckets b).freeList).Nodup)
    (kept : ∀ isUsed, ∀ c ∈ (s.buckets b).list isUsed,
      ∃ block, s.heap c = some block ∧ Kept cfg b c isUsed block) :
    ∃ s', bucketTerm cfg s b = .ok s' ∧ Emptied s b s' := by
  obtain ⟨middle, usedRun, used⟩ := bucketTermList_spec element nodup.of_append_left (kept true)
  have freeList : (middle.buckets b).freeList = (s.buckets b).freeList := used.list
  have left (d : Addr) (member : d ∈ (s.buckets b).freeList) : middle.heap d = s.heap d := by
    rw [used.heap, if_neg fun also => nodup.disjoint also member]
  have element' : (middle.buckets b).stats.elementSize = bucketSize b := by
    rw [used.stats, elementSize_dropAll, element]
  have keptFree : ∀ c ∈ (s.buckets b).freeList,
      ∃ block, middle.heap c = some block ∧ Kept cfg b c false block := by
    intro c member
    rw [left c member]
    exact kept false c member
  obtain ⟨after, freeRun, free⟩ := bucketTermList_spec element' nodup.of_append_right keptFree
  refine ⟨after, ?_, free.size.trans used.size,
    free.elementCount.trans used.elementCount, fun d => ?_,
    fun b' other => (free.others b' other).trans (used.others b' other), ?_⟩
  · simp only [bucketTerm, usedRun, bind, Except.bind, freeList, freeRun]
  · rw [free.heap, used.heap]
    by_cases inUsed : d ∈ (s.buckets b).usedList <;> by_cases inFree :
      d ∈ (s.buckets b).freeList <;>
      simp [inUsed, inFree]
  · have sizes : (s.buckets b).freeList.map (size64 middle) = (s.buckets b).freeList.map
        (size64 s) := by
      apply List.map_congr_left
      intro d member
      rw [size64, size64, chunkSize_congr (left d member)]
    rw [free.stats, used.stats, sizes]

theorem Sound.bucket_kept {pool : AmpoolInternal} (sound : Sound cfg pool)
    (bucket : s.buckets b = pool.buckets b)
    (heap : ∀ isUsed, ∀ c ∈ (pool.buckets b).list isUsed, s.heap c = pool.heap c) :
    (s.buckets b).stats.elementSize = bucketSize b ∧
      ((s.buckets b).usedList ++ (s.buckets b).freeList).Nodup ∧
      ∀ isUsed, ∀ c ∈ (s.buckets b).list isUsed,
        ∃ block, s.heap c = some block ∧ Kept cfg b c isUsed block := by
  rw [bucket]
  refine ⟨sound.sizes b, sound.nodup b, fun isUsed c member => ?_⟩
  rw [heap isUsed c member]
  exact sound.lists b isUsed c member

/-- `bucket_term` for a bucket of a sound pool, when this bucket and its chunks are still there. -/
theorem bucketTerm_spec {pool : AmpoolInternal} (sound : Sound cfg pool)
    (bucket : s.buckets b = pool.buckets b)
    (heap : ∀ isUsed, ∀ c ∈ (pool.buckets b).list isUsed, s.heap c = pool.heap c) :
    ∃ s', bucketTerm cfg s b = .ok s' ∧ Emptied s b s' := by
  obtain ⟨element, nodup, kept⟩ := sound.bucket_kept bucket heap
  exact bucketTerm_kept element nodup kept

theorem Emptied.heap_elsewhere {pool s' : AmpoolInternal} (emptied : Emptied s b s')
    (sound : Sound cfg pool) (same : s.buckets b = pool.buckets b) {b' : BucketId} (other : b' ≠ b)
    {c : Addr} (listed : c ∈ (pool.buckets b').list isUsed) : s'.heap c = s.heap c := by
  rw [emptied.heap, if_neg]
  rw [same]
  intro also
  rcases List.mem_append.mp also with inUsed | inFree
  · have there : c ∈ (pool.buckets b).list true := inUsed
    exact other (sound.unique listed there).1
  · have there : c ∈ (pool.buckets b).list false := inFree
    exact other (sound.unique listed there).1

theorem freeBuckets_spec {pool : AmpoolInternal} (sound : Sound cfg pool) {rest : List BucketId}
    (nodup : rest.Nodup) (buckets : ∀ b ∈ rest, s.buckets b = pool.buckets b)
    (heap : ∀ b ∈ rest, ∀ isUsed, ∀ c ∈ (pool.buckets b).list isUsed, s.heap c = pool.heap c)
    (deletedSize deletedCount : UInt64) :
    ∃ s', freeBuckets cfg rest s deletedSize deletedCount = .ok (s',
        deletedSize + (rest.map fun b => (pool.buckets b).stats.usedSize).sum,
        deletedCount + (rest.map fun b => (pool.buckets b).stats.usedElementCount).sum) ∧
      s'.size = s.size ∧ s'.elementCount = s.elementCount := by
  induction rest generalizing s deletedSize deletedCount with
  | nil => exact ⟨s, by simp [freeBuckets], rfl, rfl⟩
  | cons b rest ih =>
      obtain ⟨outside, nodup⟩ := List.nodup_cons.mp nodup
      have same := buckets b List.mem_cons_self
      obtain ⟨middle, run, emptied⟩ := bucketTerm_spec sound same (heap b List.mem_cons_self)
      have other (b' : BucketId) (member : b' ∈ rest) : b' ≠ b := fun same =>
        outside (same ▸ member)
      obtain ⟨after, restRun, size, count⟩ := ih nodup
        (fun b' member => by
          rw [emptied.others b' (other b' member)]
          exact buckets b' (List.mem_cons_of_mem _ member))
        (fun b' member isUsed c listed =>
          (emptied.heap_elsewhere sound same (other b' member) listed).trans
            (heap b' (List.mem_cons_of_mem _ member) isUsed c listed))
        (deletedSize + (s.buckets b).stats.usedSize)
        (deletedCount + (s.buckets b).stats.usedElementCount)
      refine ⟨after, ?_, size.trans emptied.size, count.trans emptied.elementCount⟩
      rw [same, UInt64.add_assoc, UInt64.add_assoc] at restRun
      simp only [freeBuckets, run, bind, Except.bind, List.map_cons, List.sum_cons, same]
      exact restRun

end Buckets

end Libam.Pool
