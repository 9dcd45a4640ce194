import Libam.Pool.Blocks
import Mathlib.Data.List.Nodup

/-! What the pool holds between calls: which blocks are in which lists of which buckets, and that
`bucket_alloc` and `bucket_free` keep this. -/

namespace Libam.Pool

variable {cfg : Config} {s : AmpoolInternal} {b : BucketId} {c : Addr} {size : UInt32}
  {name : String}

section Sound

def allocationSize (b : BucketId) (chunk : AmpoolChunk) : UInt32 :=
  sizeMalloc (bucketSize b) chunk.size

def AmpoolBucket.list (bucket : AmpoolBucket) (isUsed : Bool) : List Addr :=
  if isUsed then bucket.usedList else bucket.freeList

structure Kept (cfg : Config) (b : BucketId) (c : Addr) (isUsed : Bool) (block : Block) : Prop where
  fits : Fits b block.chunk.size (allocationSize b block.chunk)
  capacity : block.capacity = (allocationSize b block.chunk).toNat
  marks : if isUsed then Marked cfg c block.chunk (allocationSize b block.chunk)
    else bucketSize b ≠ 0 ∧ Poisoned cfg c block.chunk (allocationSize b block.chunk)

def Apart (c capacity d capacity' : ℕ) : Prop := dataPtr c capacity ≤ d ∨ dataPtr d capacity' ≤ c

structure Sound (cfg : Config) (s : AmpoolInternal) : Prop where
  sizes : ∀ b, (s.buckets b).stats.elementSize = bucketSize b
  lists : ∀ b isUsed, ∀ c ∈ (s.buckets b).list isUsed,
    ∃ block, s.heap c = some block ∧ Kept cfg b c isUsed block
  nodup : ∀ b, ((s.buckets b).usedList ++ (s.buckets b).freeList).Nodup
  apart : ∀ c block d block', s.heap c = some block → s.heap d = some block' → c ≠ d →
    Apart c block.capacity d block'.capacity
  inside : ∀ c block, s.heap c = some block → dataPtr c block.capacity ≤ 2 ^ 64

theorem sound_init : Sound cfg ampoolInternal where
  sizes := fun _ => rfl
  lists := fun b isUsed c member => by
    cases isUsed <;> cases member
  nodup := fun _ => List.nodup_nil
  apart := nofun
  inside := nofun

theorem Kept.bucket_eq {b' : BucketId} {isUsed isUsed' : Bool} {block : Block}
    (first : Kept cfg b c isUsed block) (second : Kept cfg b' c isUsed' block) : b = b' := by
  have same := first.fits.bucket
  rw [second.fits.bucket] at same
  exact (Except.ok.inj same).symm

theorem Kept.capacity_eq {d : Addr} {isUsed isUsed' : Bool} {block block' : Block}
    (kept : Kept cfg b c isUsed block) (kept' : Kept cfg b d isUsed' block')
    (stepped : bucketSize b ≠ 0) : block.capacity = block'.capacity := by
  rw [kept.capacity, kept'.capacity, allocationSize, allocationSize, sizeMalloc, sizeMalloc,
    if_neg stepped, if_neg stepped]

theorem Kept.marked {block : Block} (kept : Kept cfg b c true block) :
    Marked cfg c block.chunk (allocationSize b block.chunk) := by simpa using kept.marks

theorem Kept.poisoned {block : Block} (kept : Kept cfg b c false block) :
    bucketSize b ≠ 0 ∧ Poisoned cfg c block.chunk (allocationSize b block.chunk) := by
  simpa using kept.marks

theorem Kept.weaken {weaker : Config} {isUsed : Bool} {block : Block}
    (kept : Kept cfg b c isUsed block) (covers : cfg.Covers weaker) :
    Kept weaker b c isUsed block := by
  refine ⟨kept.fits, kept.capacity, ?_⟩
  cases isUsed with
  | true => exact kept.marked.weaken covers
  | false => exact ⟨kept.poisoned.1, kept.poisoned.2.weaken covers⟩

theorem Sound.unique (sound : Sound cfg s) {b' : BucketId} {isUsed isUsed' : Bool}
    (first : c ∈ (s.buckets b).list isUsed) (second : c ∈ (s.buckets b').list isUsed') :
    b = b' ∧ isUsed = isUsed' := by
  obtain ⟨block, here, kept⟩ := sound.lists b isUsed c first
  obtain ⟨block', here', kept'⟩ := sound.lists b' isUsed' c second
  rw [here] at here'
  cases here'
  obtain rfl := kept.bucket_eq kept'
  refine ⟨rfl, ?_⟩
  have disjoint := List.disjoint_of_nodup_append (sound.nodup b)
  cases isUsed <;> cases isUsed'
  · rfl
  · exact (disjoint second first).elim
  · exact (disjoint first second).elim
  · rfl

theorem Sound.change (sound : Sound cfg s) {bucket : AmpoolBucket} {value : Option Block}
    (element : bucket.stats.elementSize = bucketSize b)
    (elsewhere : ∀ b' isUsed, c ∈ (s.buckets b').list isUsed → b' = b)
    (lists : ∀ isUsed, ∀ d ∈ bucket.list isUsed, (d = c ∧ ∃ block, value = some block ∧
      Kept cfg b c isUsed block) ∨ (d ≠ c ∧ d ∈ (s.buckets b).list isUsed))
    (nodup : (bucket.usedList ++ bucket.freeList).Nodup)
    (room : ∀ block, value = some block → dataPtr c block.capacity ≤ 2 ^ 64 ∧
      ∀ d block', s.heap d = some block' → d ≠ c → Apart c block.capacity d block'.capacity) :
    Sound cfg ((s.setBucket b bucket).setBlock c value) := by
  have kept {d : Addr} (other : d ≠ c) :
      ((s.setBucket b bucket).setBlock c value).heap d = s.heap d := Function.update_of_ne other ..
  have here : ((s.setBucket b bucket).setBlock c value).heap c = value := Function.update_self ..
  have same : ((s.setBucket b bucket).setBlock c value).buckets b = bucket :=
    Function.update_self ..
  have others {b' : BucketId} (other : b' ≠ b) :
      ((s.setBucket b bucket).setBlock c value).buckets b' = s.buckets b' :=
    Function.update_of_ne other ..
  refine ⟨fun b' => ?_, fun b' isUsed d member => ?_, fun b' => ?_,
    fun d block e block' first second different => ?_, fun d block mapped => ?_⟩
  · by_cases isHere : b' = b
    · rw [isHere, same, element]
    · rw [others isHere, sound.sizes]
  · by_cases isHere : b' = b
    · subst isHere
      rw [same] at member
      rcases lists isUsed d member with ⟨rfl, block, rfl, keeps⟩ | ⟨other, old⟩
      · exact ⟨block, here, keeps⟩
      · rw [kept other]
        exact sound.lists b' isUsed d old
    · rw [others isHere] at member
      rw [kept fun same => isHere (elsewhere b' isUsed (same ▸ member))]
      exact sound.lists b' isUsed d member
  · by_cases isHere : b' = b
    · rw [isHere, same]
      exact nodup
    · rw [others isHere]
      exact sound.nodup b'
  · by_cases left : d = c
    · subst left
      have other : e ≠ d := fun same => different same.symm
      rw [here] at first
      rw [kept other] at second
      exact (room block first).2 e block' second other
    · rw [kept left] at first
      by_cases right : e = c
      · subst right
        rw [here] at second
        exact ((room block' second).2 d block first left).symm
      · rw [kept right] at second
        exact sound.apart d block e block' first second different
  · by_cases isHere : d = c
    · subst isHere
      rw [here] at mapped
      exact (room block mapped).1
    · rw [kept isHere] at mapped
      exact sound.inside d block mapped

theorem Sound.setBlock (sound : Sound cfg s) {isUsed : Bool} {block : Block}
    (member : c ∈ (s.buckets b).list isUsed) (keeps : Kept cfg b c isUsed block)
    (capacity : ∀ before, s.heap c = some before → block.capacity = before.capacity) :
    Sound cfg (s.setBlock c (some block)) := by
  have unchanged : s.setBucket b (s.buckets b) = s := by
    simp only [AmpoolInternal.setBucket, Function.update_eq_self]
  rw [← unchanged]
  obtain ⟨before, mapped, _⟩ := sound.lists b isUsed c member
  refine sound.change (sound.sizes b) (fun b' isUsed' also => (sound.unique also member).1)
    (fun isUsed' d also => ?_) (sound.nodup b) fun after isAfter => ?_
  · by_cases isHere : d = c
    · subst isHere
      obtain rfl := (sound.unique also member).2
      exact .inl ⟨rfl, block, rfl, keeps⟩
    · exact .inr ⟨isHere, also⟩
  · cases isAfter
    rw [capacity before mapped]
    exact ⟨sound.inside c before mapped, fun d other there different =>
      sound.apart c before d other mapped there different.symm⟩

end Sound

section Allocation

/-- What `malloc` promises: room for a chunk, and memory that is not in use. -/
def Unused (s : AmpoolInternal) (size : UInt32) (fresh : Option (Addr × AmpoolChunk)) : Prop :=
  ∀ c chunk, fresh = some (c, chunk) → dataPtr c (alignSize size).toNat ≤ 2 ^ 64 ∧
    ∀ d block, s.heap d = some block → Apart c (alignSize size).toNat d block.capacity

/-- The bucket after the end of the section of `bucket_alloc`. -/
def AmpoolBucket.take (bucket : AmpoolBucket) (c : Addr) (size : UInt32) : AmpoolBucket :=
  { bucket with
    usedList := c :: bucket.usedList
    stats := bucket.stats.setUsed (bucket.stats.usedElementCount + 1)
      (bucket.stats.usedSize + size.toUInt64) }

/-- Where `bucket_alloc` finds a chunk, and the bucket before the chunk goes to its used list. -/
inductive Source (s : AmpoolInternal) (b : BucketId) (size : UInt32)
    (fresh : Option (Addr × AmpoolChunk)) : Addr → AmpoolBucket → Prop
  | reuse {c : Addr} {free : List Addr} (found : (s.buckets b).freeList = c :: free) :
      Source s b size fresh c { s.buckets b with freeList := free }
  | malloc {c : Addr} {chunk : AmpoolChunk} (empty : (s.buckets b).freeList = [])
      (given : fresh = some (c, chunk)) : Source s b size fresh c
        { s.buckets b with stats := (s.buckets b).stats.countTotal size.toUInt64 }

variable {fresh : Option (Addr × AmpoolChunk)} {bucket : AmpoolBucket} {block : Block}

theorem Fits.aligned {allocationSize : UInt32} (fits : Fits b size allocationSize) :
    allocationSize = alignSize size := by
  cases b with
  | oversized => exact fits.sizeMalloc.symm
  | step i =>
      have nonzero : bucketSize (.step i) ≠ 0 := by simp [bucketSize_eq_zero]
      have element := bucketSize_step i
      have whole : allocationSize.toNat = (i + 1) * 16 := by
        rw [← fits.sizeMalloc, Pool.sizeMalloc, if_neg nonzero, UInt64.toNat_toUInt32, element]
        omega
      have fit := fits.fit
      simp only [sizesFit, Bool.and_eq_true, decide_eq_true_eq] at fit
      have above := fit.1.1.2
      rw [UInt32.lt_iff_toNat_lt, UInt32.toNat_sub_of_le _ _ (UInt32.le_iff_toNat_le.mpr (by
        rw [whole, show ampoolAlign.toNat = 16 from rfl]
        omega)), whole, show ampoolAlign.toNat = 16 from rfl] at above
      have below := fits.size_le
      rw [← UInt32.toNat_inj, alignSize_toNat fits.bound, whole]
      omega

theorem unused_none : Unused s size none := fun _ _ given => by cases given

theorem Unused.not_mapped (unused : Unused s size fresh) {chunk : AmpoolChunk}
    (given : fresh = some (c, chunk)) : s.heap c = none := by
  cases mapped : s.heap c with
  | none => rfl
  | some block =>
      have apart := (unused c chunk given).2 c block mapped
      simp only [Apart, dataPtr, sizeofAmpoolChunk] at apart
      omega

theorem Sound.mapped (sound : Sound cfg s) {isUsed : Bool}
    (member : c ∈ (s.buckets b).list isUsed) : s.heap c ≠ none := by
  obtain ⟨block, mapped, _⟩ := sound.lists b isUsed c member
  rw [mapped]
  exact Option.some_ne_none block

theorem mem_freeList {free : List Addr} (found : (s.buckets b).freeList = c :: free) :
    c ∈ (s.buckets b).list false := by
  show c ∈ (s.buckets b).freeList
  rw [found]
  exact List.mem_cons_self

theorem Source.not_used (source : Source s b size fresh c bucket) (sound : Sound cfg s)
    (unused : Unused s size fresh) (b' : BucketId) : c ∉ (s.buckets b').usedList := by
  intro member
  have listed : c ∈ (s.buckets b').list true := member
  cases source with
  | reuse found => cases (sound.unique listed (mem_freeList found)).2
  | malloc _ given => exact sound.mapped listed (unused.not_mapped given)

theorem Source.used_eq (source : Source s b size fresh c bucket) :
    bucket.usedList = (s.buckets b).usedList ∧
      bucket.stats.usedSize = (s.buckets b).stats.usedSize ∧
      bucket.stats.usedElementCount = (s.buckets b).stats.usedElementCount := by
  cases source <;> exact ⟨rfl, rfl, rfl⟩

theorem Source.elsewhere (source : Source s b size fresh c bucket) (sound : Sound cfg s)
    (unused : Unused s size fresh) {b' : BucketId} {isUsed : Bool}
    (listed : c ∈ (s.buckets b').list isUsed) : b' = b := by
  cases source with
  | reuse found => exact (sound.unique listed (mem_freeList found)).1
  | malloc _ given => exact (sound.mapped listed (unused.not_mapped given)).elim

theorem Source.sound (source : Source s b size fresh c bucket) (sound : Sound cfg s)
    (unused : Unused s size fresh) (kept : Kept cfg b c true block)
    (sized : block.chunk.size = size) :
    Sound cfg ((s.setBucket b (bucket.take c size)).setBlock c (some block)) := by
  have notUsed := source.not_used sound unused b
  cases source with
  | @reuse free found =>
      have listed := mem_freeList found
      have nodup := sound.nodup b
      rw [found] at nodup
      have rotated : (c :: ((s.buckets b).usedList ++ free)).Nodup :=
        (List.perm_middle.nodup_iff).mp nodup
      have notFree : c ∉ free := fun member =>
        (List.nodup_cons.mp rotated).1 (List.mem_append_right _ member)
      refine sound.change (sound.sizes b) (fun b' isUsed also => (sound.unique also listed).1)
        (fun isUsed d member => ?_) rotated fun after isAfter => ?_
      · cases isUsed with
        | true =>
            rcases List.mem_cons.mp member with isNew | old
            · exact .inl ⟨isNew, block, rfl, kept⟩
            · exact .inr ⟨fun isNew => notUsed (isNew ▸ old), old⟩
        | false =>
            have rest : d ∈ free := member
            have old : d ∈ (s.buckets b).freeList := found ▸ List.mem_cons_of_mem _ rest
            exact .inr ⟨fun isNew => notFree (isNew ▸ rest), old⟩
      · cases isAfter
        obtain ⟨before, mapped, free⟩ := sound.lists b false c listed
        have same : block.capacity = before.capacity := by
          rw [kept.capacity, free.capacity, allocationSize, allocationSize, sizeMalloc, sizeMalloc,
            if_neg free.poisoned.1, if_neg free.poisoned.1]
        rw [same]
        exact ⟨sound.inside c before mapped, fun d other there different =>
          sound.apart c before d other mapped there different.symm⟩
  | malloc empty given =>
      have absent := unused.not_mapped given
      refine sound.change (sound.sizes b) (fun b' isUsed also => (sound.mapped also absent).elim)
        (fun isUsed d member => ?_) ?_ fun after isAfter => ?_
      · cases isUsed with
        | true =>
            rcases List.mem_cons.mp member with isNew | old
            · exact .inl ⟨isNew, block, rfl, kept⟩
            · exact .inr ⟨fun isNew => notUsed (isNew ▸ old), old⟩
        | false =>
            have old : d ∈ (s.buckets b).list false := member
            exact .inr ⟨fun isNew => sound.mapped (isNew ▸ old) absent, old⟩
      · refine List.nodup_cons.mpr ⟨?_, sound.nodup b⟩
        show c ∉ (s.buckets b).usedList ++ (s.buckets b).freeList
        rw [empty, List.append_nil]
        exact notUsed
      · cases isAfter
        have room := unused c _ given
        rw [kept.capacity, kept.fits.aligned, sized]
        exact ⟨room.1, fun d other there _ => room.2 d other there⟩

/-- The chunk that a call of `bucket_alloc` would use again is as `free` left it. -/
def Reusable (cfg : Config) (s : AmpoolInternal) (b : BucketId) : Prop :=
  ∀ c free block, (s.buckets b).freeList = c :: free → s.heap c = some block →
    Poisoned cfg c block.chunk (allocationSize b block.chunk)

theorem Sound.reusable (sound : Sound cfg s) (b : BucketId) : Reusable cfg s b := by
  intro c free block found mapped
  obtain ⟨before, here, kept⟩ := sound.lists b false c (mem_freeList found)
  rw [mapped] at here
  cases here
  exact kept.poisoned.2

theorem takeChunk_spec (b : BucketId) (size : UInt32) (fresh : Option (Addr × AmpoolChunk))
    {weaker : Config} (sound : Sound weaker s) (reusable : Reusable cfg s b) :
    ((s.buckets b).freeList = [] ∧ fresh = none ∧
      takeChunk cfg s b size (sizeMalloc (bucketSize b) size) fresh = .ok (s, none)) ∨
    ∃ c bucket before, Source s b size fresh c bucket ∧
      before.capacity = (sizeMalloc (bucketSize b) size).toNat ∧
      takeChunk cfg s b size (sizeMalloc (bucketSize b) size) fresh =
        .ok ((s.setBucket b (bucket.take c size)).setBlock c (some before), some c) := by
  cases found : (s.buckets b).freeList with
  | nil =>
      cases given : fresh with
      | none =>
          left
          refine ⟨rfl, rfl, ?_⟩
          simp only [takeChunk, found]
      | some pair =>
          right
          obtain ⟨c, chunk⟩ := pair
          refine ⟨c, _, ⟨chunk, (sizeMalloc (bucketSize b) size).toNat⟩, .malloc found rfl, rfl, ?_⟩
          simp only [takeChunk, found]
          rfl
  | cons c free =>
      right
      obtain ⟨before, mapped, kept⟩ := sound.lists b false c (mem_freeList found)
      have stepped := kept.poisoned.1
      have poisoned := reusable c free before found mapped
      have same : allocationSize b before.chunk = sizeMalloc (bucketSize b) size := by
        rw [allocationSize, sizeMalloc, sizeMalloc, if_neg stepped, if_neg stepped]
      have test := magicTest_poisoned kept.fits kept.capacity poisoned
      rw [same] at test
      refine ⟨c, _, before, .reuse found, same ▸ kept.capacity, ?_⟩
      have heap : ∀ bucket, (s.setBucket b bucket).setBlock c
          (some before) = s.setBucket b bucket := by
        intro bucket
        simp only [AmpoolInternal.setBlock, AmpoolInternal.setBucket, ← mapped,
          Function.update_eq_self]
      rw [heap]
      simp only [takeChunk, found, AmpoolInternal.block, mapped, bind, Except.bind, test]
      rfl

structure Prepared (cfg : Config) (b : BucketId) (c : Addr) (size : UInt32) (name : String)
    (block : Block) : Prop where
  kept : Kept cfg b c true block
  sized : block.chunk.size = size
  named : block.chunk.name = name
  zero : ∀ i, i < (min32 size ampoolMaxMemset).toNat → block.chunk.data i = 0

theorem Prepared.weaken {weaker : Config} (prepared : Prepared cfg b c size name block)
    (covers : cfg.Covers weaker) : Prepared weaker b c size name block :=
  ⟨prepared.kept.weaken covers, prepared.sized, prepared.named, prepared.zero⟩

theorem min32_toNat (a b : UInt32) : (min32 a b).toNat = min a.toNat b.toNat := by
  rw [min32]
  split
  · rename_i less
    rw [UInt32.lt_iff_toNat_lt] at less
    omega
  · rename_i most
    rw [UInt32.lt_iff_toNat_lt] at most
    omega

theorem prepare_spec (cfg : Config) (c : Addr) {before : Block}
    (fits : Fits b size (sizeMalloc (bucketSize b) size))
    (capacity : before.capacity = (sizeMalloc (bucketSize b) size).toNat) (name : String) :
    ∃ marked block, Prepared cfg b c size name block ∧
      magicSet cfg c { before with chunk := { before.chunk with name := name, size := size } }
        (sizeMalloc (bucketSize b) size) true = .ok marked ∧
      marked.storeAll (memsetZero 0 (min32 size ampoolMaxMemset).toNat) = .ok block := by
  have whole := fits.size_le
  obtain ⟨chunk, setRun, keptSize, keptName, marked, _⟩ := magicSet_used cfg c
    (show Fits b (Block.mk { before.chunk with name := name, size := size }
      before.capacity).chunk.size _
      from fits) capacity
  obtain ⟨data, zeroRun, zeroed, beyond⟩ := storeRange_spec ⟨chunk, before.capacity⟩
    (i := 0) (n := (min32 size ampoolMaxMemset).toNat) (fun _ => 0) (fun _ => mem_map_memsetZero)
    (fun w member => memsetZero_value member) (by
      rw [min32_toNat]
      show _ ≤ before.capacity
      omega)
  have sized : chunk.size = size := keptSize
  have shape : allocationSize b { chunk with data := data } = sizeMalloc (bucketSize b) size := by
    rw [allocationSize]
    simp only [sized]
  refine ⟨_, _, ⟨⟨?_, ?_, ?_⟩, sized, keptName, fun i below => ?_⟩, setRun, zeroRun⟩
  · show Fits b chunk.size (allocationSize b { chunk with data := data })
    rw [shape, sized]
    exact fits
  · show before.capacity = (allocationSize b { chunk with data := data }).toNat
    rw [shape, capacity]
  · show Marked cfg c { chunk with data := data } (allocationSize b { chunk with data := data })
    rw [shape]
    refine ⟨marked.magic, fun valid i above => ?_⟩
    have past : chunk.size.toNat ≤ i := above.1
    have kept := beyond i (.inr (by rw [min32_toNat, ← sized]; omega))
    exact kept.trans (marked.bytes valid i above)
  · exact zeroed i (Nat.zero_le i) (by omega)

/-- A call of `bucket_alloc` ends without a fault. Without memory it leaves the pool as it is. -/
theorem bucketAlloc_spec {weaker : Config} (covers : cfg.Covers weaker) (sound : Sound weaker s)
    (reusable : Reusable cfg s b) (fits : Fits b size (sizeMalloc (bucketSize b) size))
    (unused : Unused s size fresh) (name : String) :
    ((s.buckets b).freeList = [] ∧ fresh = none ∧
      bucketAlloc cfg s b size name fresh = .ok (s, none)) ∨
    ∃ c bucket block, Source s b size fresh c bucket ∧ Prepared cfg b c size name block ∧
      bucketAlloc cfg s b size name fresh =
        .ok ((s.setBucket b (bucket.take c size)).setBlock c (some block), some c) ∧
      Sound weaker ((s.setBucket b (bucket.take c size)).setBlock c (some block)) := by
  have fit := fits.fit
  rcases takeChunk_spec b size fresh sound reusable with
    ⟨empty, absent, run⟩ | ⟨c, bucket, before, source, capacity, run⟩
  · refine .inl ⟨empty, absent, ?_⟩
    simp only [bucketAlloc, sound.sizes, fit, Bool.not_true, Bool.false_eq_true, if_false, bind,
      Except.bind, run]
    rfl
  · right
    obtain ⟨marked, block, prepared, setRun, zeroRun⟩ :=
      prepare_spec cfg c fits capacity name
    refine ⟨c, bucket, block, source, prepared, ?_,
      source.sound sound unused (prepared.kept.weaken covers) prepared.sized⟩
    have here : ((s.setBucket b (bucket.take c size)).setBlock c (some before)).heap
        c = some before :=
      Function.update_self ..
    have again (x : Option Block) :
        ((s.setBucket b (bucket.take c size)).setBlock c (some before)).setBlock c x =
          (s.setBucket b (bucket.take c size)).setBlock c x := by
      simp only [AmpoolInternal.setBlock, Function.update_idem]
    simp only [bucketAlloc, sound.sizes, fit, Bool.not_true, Bool.false_eq_true, if_false, bind,
      Except.bind, run, AmpoolInternal.block, here, setRun, zeroRun, pure, Except.pure, again]

end Allocation

section Release

variable {block : Block}

def AmpoolInternal.release (s : AmpoolInternal) (b : BucketId) (c : Addr) (size : UInt32)
    (value : Option Block) : AmpoolInternal :=
  (s.setBucket b (bucketFreeSection (s.buckets b) c size)).setBlock c value

/-- What is left of a block that is freed: in a stepped bucket its poisoned chunk, else nothing. -/
def Left (cfg : Config) (b : BucketId) (c : Addr) (size : UInt32) (value : Option Block) : Prop :=
  if bucketSize b = 0 then value = none
  else ∃ block, value = some block ∧ Kept cfg b c false block ∧ block.chunk.size = size

theorem Sound.release (sound : Sound cfg s) (member : c ∈ (s.buckets b).usedList)
    (mapped : s.heap c = some block) {value : Option Block} (left : Left cfg b c size value) :
    Sound cfg (s.release b c size value) := by
  have listed : c ∈ (s.buckets b).list true := member
  obtain ⟨found, here, kept⟩ := sound.lists b true c listed
  rw [mapped] at here
  cases here
  have nodup := sound.nodup b
  have once : (s.buckets b).usedList.Nodup := nodup.of_append_left
  have notFree : c ∉ (s.buckets b).freeList := fun also => nodup.disjoint member also
  have erased {d : Addr} (also : d ∈ (s.buckets b).usedList.erase c) :
      d ≠ c ∧ d ∈ (s.buckets b).list true := once.mem_erase_iff.mp also
  have element : (bucketFreeSection (s.buckets b) c size).stats.elementSize = bucketSize b :=
    sound.sizes b
  have elsewhere (b' : BucketId) (isUsed : Bool) (also : c ∈ (s.buckets b').list isUsed) : b' = b :=
    (sound.unique also listed).1
  rw [Left] at left
  by_cases oversized : bucketSize b = 0
  · rw [if_pos oversized] at left
    subst left
    have freeList : (bucketFreeSection (s.buckets b) c size).freeList = (s.buckets b).freeList := by
      rw [bucketFreeSection, sound.sizes, oversized]
      rfl
    refine sound.change element elsewhere (fun isUsed d also => .inr ?_) ?_ nofun
    · cases isUsed with
      | true => exact erased also
      | false =>
          have free : d ∈ (s.buckets b).freeList := freeList ▸ also
          exact ⟨fun same => notFree (same ▸ free), free⟩
    · rw [freeList]
      exact nodup.sublist (List.Sublist.append_right List.erase_sublist _)
  · rw [if_neg oversized] at left
    obtain ⟨after, rfl, keptFree, sized⟩ := left
    have freeList : (bucketFreeSection (s.buckets b) c size).freeList = c ::
        (s.buckets b).freeList := by
      rw [bucketFreeSection, sound.sizes, if_pos (UInt64.pos_iff_ne_zero.mpr oversized)]
    refine sound.change element elsewhere (fun isUsed d also => ?_) ?_ fun last isLast => ?_
    · cases isUsed with
      | true => exact .inr (erased also)
      | false =>
          have free : d ∈ c :: (s.buckets b).freeList := freeList ▸ also
          rcases List.mem_cons.mp free with isFreed | old
          · exact .inl ⟨isFreed, after, rfl, keptFree⟩
          · exact .inr ⟨fun same => notFree (same ▸ old), old⟩
    · rw [freeList]
      apply (List.perm_middle.nodup_iff).mpr
      exact ((List.perm_cons_erase member).append_right _).nodup_iff.mp nodup
    · cases isLast
      have same : after.capacity = block.capacity := by
        rw [keptFree.capacity, kept.capacity, allocationSize, allocationSize,
          sizeMalloc, sizeMalloc, if_neg oversized, if_neg oversized]
      rw [same]
      exact ⟨sound.inside c block mapped, fun d other there different =>
        sound.apart c block d other mapped there different.symm⟩

theorem Left.weaken {weaker : Config} {value : Option Block} (left : Left cfg b c size value)
    (covers : cfg.Covers weaker) : Left weaker b c size value := by
  rw [Left] at left ⊢
  split
  · rwa [if_pos ‹_›] at left
  · rw [if_neg ‹_›] at left
    obtain ⟨block, isLeft, kept, sized⟩ := left
    exact ⟨block, isLeft, kept.weaken covers, sized⟩

theorem bucketFree_spec {weaker : Config} (covers : cfg.Covers weaker) (sound : Sound weaker s)
    (member : c ∈ (s.buckets b).usedList) (mapped : s.heap c = some block)
    (marked : Marked cfg c block.chunk (allocationSize b block.chunk)) :
    ∃ value, Left cfg b c block.chunk.size value ∧
      bucketFree cfg s b c = .ok (s.release b c block.chunk.size value) ∧
      Sound weaker (s.release b c block.chunk.size value) := by
  obtain ⟨found, here, kept⟩ := sound.lists b true c member
  rw [mapped] at here
  cases here
  have fit := kept.fits.fit
  have test := magicTest_marked kept.fits kept.capacity marked
  rw [allocationSize] at fit test
  by_cases oversized : bucketSize b = 0
  · have left : Left cfg b c block.chunk.size none := by rw [Left, if_pos oversized]
    refine ⟨none, left, ?_, sound.release member mapped (left.weaken covers)⟩
    have small : ¬ 0 < bucketSize b := by
      rw [oversized]
      exact UInt64.lt_irrefl 0
    simp only [bucketFree, AmpoolInternal.block, mapped, bind, Except.bind, sound.sizes, fit,
      Bool.not_true, Bool.false_eq_true, if_false, test, if_neg small, pure, Except.pure]
    rfl
  · obtain ⟨chunk, setRun, sized, poisoned⟩ := magicSet_free cfg c kept.fits kept.capacity
    have shape : allocationSize b chunk = allocationSize b block.chunk := by
      rw [allocationSize, allocationSize, sized]
    have keptFree : Kept cfg b c false ⟨chunk, block.capacity⟩ := by
      refine ⟨?_, ?_, ?_⟩
      · show Fits b chunk.size (allocationSize b chunk)
        rw [shape, sized]
        exact kept.fits
      · show block.capacity = (allocationSize b chunk).toNat
        rw [shape, kept.capacity]
      · show if false then _ else bucketSize b ≠ 0 ∧ Poisoned cfg c chunk (allocationSize b chunk)
        rw [shape]
        exact ⟨oversized, poisoned⟩
    have left : Left cfg b c block.chunk.size (some ⟨chunk, block.capacity⟩) := by
      rw [Left, if_neg oversized]
      exact ⟨_, rfl, keptFree, sized⟩
    refine ⟨_, left, ?_, sound.release member mapped (left.weaken covers)⟩
    have stepped : 0 < bucketSize b := UInt64.pos_iff_ne_zero.mpr oversized
    rw [allocationSize] at setRun
    simp only [bucketFree, AmpoolInternal.block, mapped, bind, Except.bind, sound.sizes, fit,
      Bool.not_true, Bool.false_eq_true, if_false, test, if_pos stepped, pure, Except.pure, setRun]
    rfl

end Release

end Libam.Pool
