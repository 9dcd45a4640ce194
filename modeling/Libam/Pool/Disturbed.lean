import Libam.Pool.Counts

/-! Calls that meet a chunk whose marks were written over: the assertion of
`chunk_magic_test` fails. -/

namespace Libam.Pool

variable {cfg weaker : Config} {s : AmpoolInternal} {b : BucketId} {c : Addr} {isUsed : Bool}
  {block : Block}

section Tests

structure Disturbed (cfg weaker : Config) (b : BucketId) (c : Addr) (isUsed : Bool)
    (block : Block) : Prop where
  kept : Kept weaker b c isUsed block
  broken : ¬ Kept cfg b c isUsed block

theorem test_of_disturbed (disturbed : Disturbed cfg weaker b c isUsed block) :
    magicTest cfg c block (allocationSize b block.chunk) (!isUsed) = .error .assertion := by
  obtain ⟨kept, broken⟩ := disturbed
  rw [magicTest_eq kept.fits kept.capacity, if_neg]
  intro test
  refine broken ⟨kept.fits, kept.capacity, ?_⟩
  cases isUsed with
  | true => exact (test_marked_iff kept.fits).mp test
  | false => exact ⟨kept.poisoned.1, (test_poisoned_iff kept.fits).mp test⟩

end Tests

section Calls

variable {size : UInt32}

theorem bucketAlloc_disturbed (sound : Sound weaker s)
    (fits : Fits b size (sizeMalloc (bucketSize b) size)) {free : List Addr}
    (found : (s.buckets b).freeList = c :: free) (mapped : s.heap c = some block)
    (disturbed : Disturbed cfg weaker b c false block) (name : String)
    (fresh : Option (Addr × AmpoolChunk)) :
    bucketAlloc cfg s b size name fresh = .error .assertion := by
  have stepped := disturbed.kept.poisoned.1
  have same : allocationSize b block.chunk = sizeMalloc (bucketSize b) size := by
    rw [allocationSize, sizeMalloc, sizeMalloc, if_neg stepped, if_neg stepped]
  have test := test_of_disturbed disturbed
  rw [same, Bool.not_false] at test
  have fit := fits.fit
  simp only [bucketAlloc, sound.sizes, fit, Bool.not_true, Bool.false_eq_true, if_false,
    bind, Except.bind, takeChunk, found, AmpoolInternal.block, mapped, test]

theorem bucketFree_disturbed (sound : Sound weaker s) (mapped : s.heap c = some block)
    (disturbed : Disturbed cfg weaker b c true block) :
    bucketFree cfg s b c = .error .assertion := by
  have fit := disturbed.kept.fits.fit
  have test := test_of_disturbed disturbed
  rw [allocationSize] at fit test
  rw [Bool.not_true] at test
  simp only [bucketFree, AmpoolInternal.block, mapped, bind, Except.bind, sound.sizes, fit,
    Bool.not_true, Bool.false_eq_true, if_false, test]

end Calls

section Teardown

def Lost (cfg weaker : Config) (s : AmpoolInternal) (b : BucketId) (isUsed : Bool)
    (chunks : List Addr) : Prop :=
  ∃ c ∈ chunks, ∃ block, s.heap c = some block ∧ Disturbed cfg weaker b c isUsed block

theorem kept_of_not_lost {chunks : List Addr}
    (kept : ∀ c ∈ chunks, ∃ block, s.heap c = some block ∧ Kept weaker b c isUsed block)
    (whole : ¬ Lost cfg weaker s b isUsed chunks) :
    ∀ c ∈ chunks, ∃ block, s.heap c = some block ∧ Kept cfg b c isUsed block := by
  intro c member
  obtain ⟨block, mapped, here⟩ := kept c member
  refine ⟨block, mapped, ?_⟩
  by_contra broken
  exact whole ⟨c, member, block, mapped, here, broken⟩

theorem bucketTermList_disturbed {chunks : List Addr}
    (element : (s.buckets b).stats.elementSize = bucketSize b) (nodup : chunks.Nodup)
    (kept : ∀ c ∈ chunks, ∃ block, s.heap c = some block ∧ Kept weaker b c isUsed block)
    (lost : Lost cfg weaker s b isUsed chunks) :
    bucketTermList cfg b isUsed s chunks = .error .assertion := by
  induction chunks generalizing s with
  | nil =>
      obtain ⟨_, member, _⟩ := lost
      cases member
  | cons c chunks ih =>
      obtain ⟨outside, nodup⟩ := List.nodup_cons.mp nodup
      obtain ⟨block, mapped, here⟩ := kept c List.mem_cons_self
      by_cases intact : Kept cfg b c isUsed block
      · obtain ⟨d, member, other, there, disturbed⟩ := lost
        have later : d ∈ chunks := by
          rcases List.mem_cons.mp member with rfl | later
          · rw [mapped] at there
            cases there
            exact absurd intact disturbed.broken
          · exact later
        obtain ⟨next, defNext⟩ : ∃ next,
            next = dropped s b isUsed c block.chunk.size.toUInt64 chunks :=
          ⟨_, rfl⟩
        have heap (d : Addr) (later : d ∈ chunks) : next.heap d = s.heap d := by
          have other : d ≠ c := fun same => outside (same ▸ later)
          rw [defNext]
          exact Function.update_of_ne other ..
        have element' : (next.buckets b).stats.elementSize = bucketSize b := by
          rw [defNext, dropped]
          simp only [AmpoolInternal.setBlock, AmpoolInternal.setBucket, Function.update_self]
          cases isUsed <;> exact element
        have rest := ih (s := next) element' nodup
          (fun d later => by
            rw [heap d later]
            exact kept d (List.mem_cons_of_mem _ later))
          ⟨d, later, other, by rw [heap d later]; exact there, disturbed⟩
        have test := test_of_kept intact
        rw [allocationSize] at test
        simp only [bucketTermList, AmpoolInternal.block, mapped, bind, Except.bind, element, test]
        rw [← rest, defNext]
        rfl
      · have test := test_of_disturbed ⟨here, intact⟩
        rw [allocationSize] at test
        simp only [bucketTermList, AmpoolInternal.block, mapped, bind, Except.bind, element, test]

def Broken (cfg weaker : Config) (s : AmpoolInternal) (b : BucketId) : Prop :=
  ∃ isUsed, Lost cfg weaker s b isUsed ((s.buckets b).list isUsed)

theorem bucketTerm_broken (element : (s.buckets b).stats.elementSize = bucketSize b)
    (nodup : ((s.buckets b).usedList ++ (s.buckets b).freeList).Nodup)
    (kept : ∀ isUsed, ∀ c ∈ (s.buckets b).list isUsed,
      ∃ block, s.heap c = some block ∧ Kept weaker b c isUsed block)
    (broken : Broken cfg weaker s b) : bucketTerm cfg s b = .error .assertion := by
  obtain ⟨isUsed, lost⟩ := broken
  by_cases used : Lost cfg weaker s b true (s.buckets b).usedList
  · have run := bucketTermList_disturbed element nodup.of_append_left (kept true) used
    simp only [bucketTerm, run, bind, Except.bind]
  · cases isUsed with
    | true => exact absurd lost used
    | false =>
        obtain ⟨middle, usedRun, spec⟩ := bucketTermList_spec element nodup.of_append_left
          (kept_of_not_lost (kept true) used)
        have freeList : (middle.buckets b).freeList = (s.buckets b).freeList := spec.list
        have left (d : Addr) (member : d ∈ (s.buckets b).freeList) : middle.heap d = s.heap d := by
          rw [spec.heap, if_neg fun also => nodup.disjoint also member]
        have element' : (middle.buckets b).stats.elementSize = bucketSize b := by
          rw [spec.stats, elementSize_dropAll, element]
        obtain ⟨c, member, block, mapped, disturbed⟩ := lost
        have run := bucketTermList_disturbed (s := middle) element' nodup.of_append_right
          (fun d listed => by
            rw [left d listed]
            exact kept false d listed)
          ⟨c, member, block, by rw [left c member]; exact mapped, disturbed⟩
        simp only [bucketTerm, usedRun, bind, Except.bind, freeList, run]

/-- The loop over buckets that are still as they were, one of them with such a chunk. -/
theorem freeBuckets_broken {pool : AmpoolInternal} (sound : Sound weaker pool)
    {rest : List BucketId} (nodup : rest.Nodup) (buckets : ∀ b ∈ rest, s.buckets b = pool.buckets b)
    (heap : ∀ b ∈ rest, ∀ isUsed, ∀ c ∈ (pool.buckets b).list isUsed, s.heap c = pool.heap c)
    (broken : ∃ b ∈ rest, Broken cfg weaker pool b) (deletedSize deletedCount : UInt64) :
    freeBuckets cfg rest s deletedSize deletedCount = .error .assertion := by
  induction rest generalizing s deletedSize deletedCount with
  | nil =>
      obtain ⟨_, member, _⟩ := broken
      cases member
  | cons b rest ih =>
      obtain ⟨outside, nodup⟩ := List.nodup_cons.mp nodup
      have same := buckets b List.mem_cons_self
      have here := heap b List.mem_cons_self
      obtain ⟨element, once, kept⟩ := sound.bucket_kept same here
      have moved : Broken cfg weaker s b ↔ Broken cfg weaker pool b := by
        simp only [Broken, Lost, same]
        refine exists_congr fun isUsed => exists_congr fun c => and_congr_right fun member => ?_
        rw [here isUsed c member]
      by_cases bad : Broken cfg weaker s b
      · have run := bucketTerm_broken element once kept bad
        simp only [freeBuckets, run, bind, Except.bind]
      · obtain ⟨middle, run, emptied⟩ := bucketTerm_kept element once fun isUsed =>
          kept_of_not_lost (kept isUsed) fun lost => bad ⟨isUsed, lost⟩
        have other (b' : BucketId) (member : b' ∈ rest) : b' ≠ b := fun same =>
          outside (same ▸ member)
        obtain ⟨b', member, broken⟩ := broken
        have later : b' ∈ rest := by
          rcases List.mem_cons.mp member with rfl | later
          · exact absurd (moved.mpr broken) bad
          · exact later
        have restRun := ih nodup
          (fun b' member => by
            rw [emptied.others b' (other b' member)]
            exact buckets b' (List.mem_cons_of_mem _ member))
          (fun b' member isUsed c listed =>
            (emptied.heap_elsewhere sound same (other b' member) listed).trans
              (heap b' (List.mem_cons_of_mem _ member) isUsed c listed))
          ⟨b', later, broken⟩
          (deletedSize + (s.buckets b).stats.usedSize)
          (deletedCount + (s.buckets b).stats.usedElementCount)
        simp only [freeBuckets, run, bind, Except.bind, restRun]

end Teardown

namespace Clients

variable {pool : AmpoolInternal} {live : List Owned} {size : UInt32} {old : Owned}

theorem ampoolOpAlloc_disturbed (sound : Sound weaker pool) (positive : 0 < size.toNat)
    (bound : size ≤ maxSize) (bucket : ampoolGetBucket (alignSize size) = .ok b) {free : List Addr}
    (found : (pool.buckets b).freeList = c :: free) (mapped : pool.heap c = some block)
    (disturbed : Disturbed cfg weaker b c false block) (name : String)
    (fresh : Option (Addr × AmpoolChunk)) :
    ampoolOpAlloc cfg pool size name fresh = .error .assertion := by
  obtain ⟨b', fits⟩ := exists_fits positive bound
  cases bucket.symm.trans fits.bucket
  have nonzero : size ≠ 0 := by
    rintro rfl
    exact Nat.lt_irrefl 0 positive
  have run := bucketAlloc_disturbed sound fits found mapped disturbed name fresh
  simp only [ampoolOpAlloc, if_neg nonzero, bucket, bind, Except.bind, run]

theorem ampoolOpFree_disturbed (sound : Sound weaker pool)
    (mapped : pool.heap old.chunk = some block) (sized : block.chunk.size = old.size)
    (disturbed : Disturbed cfg weaker b old.chunk true block) :
    ampoolOpFree cfg pool old.chunk old.size = .error .assertion := by
  have found := disturbed.kept.fits.bucket
  rw [sized] at found
  have run := bucketFree_disturbed sound mapped disturbed
  simp only [ampoolOpFree, found, bind, Except.bind, run]

theorem ampoolPoolFree_broken (sound : Sound weaker pool) (broken : Broken cfg weaker pool b) :
    ampoolPoolFree cfg pool = .error .assertion := by
  have run := freeBuckets_broken sound allBuckets_nodup (fun _ _ => rfl) (fun _ _ _ _ _ => rfl)
    ⟨b, mem_allBuckets b, broken⟩ 0 0
  simp only [ampoolPoolFree, run, bind, Except.bind]

theorem sound_of_not_broken (sound : Sound weaker pool) (whole : ∀ b, ¬ Broken cfg weaker pool b) :
    Sound cfg pool :=
  ⟨sound.sizes, fun b isUsed => kept_of_not_lost (sound.lists b isUsed) fun lost =>
    whole b ⟨isUsed, lost⟩, sound.nodup, sound.apart, sound.inside⟩

end Clients

end Libam.Pool
