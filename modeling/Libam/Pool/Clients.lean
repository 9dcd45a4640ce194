import Libam.Concurrency.Interleaving
import Libam.Pool.Holding

/-! Sequences of calls on one pool by clients that write only to their own blocks: which blocks they
own, and what is in them. -/

namespace Libam.Pool.Clients

open Libam.Interleaving

structure Owned where
  chunk : Addr
  size : UInt32
  name : String
  deriving DecidableEq, Repr

structure Client where
  pool : AmpoolInternal
  live : List Owned

def start : Client := ⟨ampoolInternal, []⟩

inductive Op
  | alloc (size : UInt32) (name : String) (fresh : Option (Addr × AmpoolChunk))
  | free (old : Owned)
  | realloc (old : Owned) (size : UInt32) (name : String) (fresh : Option (Addr × AmpoolChunk))
  | write (owned : Owned) (i : ℕ) (value : UInt8)

def own (live : List Owned) (taken : Option Addr) (size : UInt32) (name : String) : List Owned :=
  match taken with
  | none => live
  | some c => ⟨c, size, name⟩ :: live

def apply (cfg : Config) (s : Client) : Op → Except Fault (Client × Option Addr)
  | .alloc size name fresh => do
      let (pool, taken) ← ampoolOpAlloc cfg s.pool size name fresh
      return (⟨pool, own s.live taken size name⟩, taken)
  | .free old => do
      let pool ← ampoolOpFree cfg s.pool old.chunk old.size
      return (⟨pool, s.live.erase old⟩, none)
  | .realloc old size name fresh => do
      let (pool, taken) ← ampoolOpRealloc cfg s.pool old.chunk old.size size name fresh
      return (⟨pool, own (s.live.erase old) taken size name⟩, taken)
  | .write owned i value => do
      let block ← s.pool.block owned.chunk
      let block ← block.storeByte (i, value)
      return (⟨s.pool.setBlock owned.chunk (some block), s.live⟩, none)

/-- Sizes from 1 to 2^32 - 16, calls with live blocks and their sizes, writes inside of them. -/
def Ready (s : Client) (op : Op) (_ : Client) : Prop :=
  match op with
  | .alloc size _ fresh => 0 < size.toNat ∧ size ≤ maxSize ∧ Unused s.pool size fresh
  | .free old => old ∈ s.live
  | .realloc old size _ fresh =>
      old ∈ s.live ∧ 0 < size.toNat ∧ size ≤ maxSize ∧ Unused s.pool size fresh
  | .write owned i _ => owned ∈ s.live ∧ i < owned.size.toNat

def step (cfg : Config) (s : Client) (op : Op) : Option Client :=
  match apply cfg s op with
  | .ok (s, _) => some s
  | .error _ => none

section Ownership

variable {cfg : Config} {s : Client} {pool : AmpoolInternal} {live : List Owned} {size : UInt32}
  {name : String} {fresh : Option (Addr × AmpoolChunk)}

structure Owns (pool : AmpoolInternal) (live : List Owned) : Prop where
  nodup : (live.map Owned.chunk).Nodup
  used : ∀ c, c ∈ live.map Owned.chunk ↔ ∃ b, c ∈ (pool.buckets b).usedList
  blocks : ∀ owned ∈ live, ∃ block, pool.heap owned.chunk = some block ∧
    block.chunk.size = owned.size ∧ block.chunk.name = owned.name

structure Inv (cfg : Config) (s : Client) : Prop where
  sound : Sound cfg s.pool
  owns : Owns s.pool s.live

theorem inv_start : Inv cfg start where
  sound := sound_init
  owns := ⟨List.nodup_nil, fun _ => ⟨nofun, fun ⟨_, member⟩ => nomatch member⟩, nofun⟩

theorem Owns.held (owns : Owns pool live) (sound : Sound cfg pool) {owned : Owned}
    (member : owned ∈ live) : ∃ b block, owned.chunk ∈ (pool.buckets b).usedList ∧
      pool.heap owned.chunk = some block ∧ Kept cfg b owned.chunk true block ∧
      block.chunk.size = owned.size ∧ block.chunk.name = owned.name := by
  obtain ⟨block, mapped, size, name⟩ := owns.blocks owned member
  obtain ⟨b, used⟩ := (owns.used owned.chunk).mp (List.mem_map_of_mem member)
  obtain ⟨found, here, kept⟩ := sound.lists b true owned.chunk used
  rw [mapped] at here
  cases here
  exact ⟨b, block, used, mapped, kept, size, name⟩

theorem chunk_ne_of_mem_erase (nodup : (live.map Owned.chunk).Nodup) {old owned : Owned}
    (member : old ∈ live) (rest : owned ∈ live.erase old) : owned.chunk ≠ old.chunk := by
  have perm := (List.perm_cons_erase member).map Owned.chunk
  have split := perm.nodup_iff.mp nodup
  intro same
  exact (List.nodup_cons.mp split).1 (same ▸ List.mem_map_of_mem rest)

end Ownership

section Calls

variable {cfg : Config} {pool pool' : AmpoolInternal} {live : List Owned} {b : BucketId} {c : Addr}
  {size : UInt32} {name : String} {fresh : Option (Addr × AmpoolChunk)} {bucket : AmpoolBucket}
  {block : Block} {old : Owned} {value : Option Block}

structure Took (cfg : Config) (pool : AmpoolInternal) (size : UInt32) (name : String)
    (fresh : Option (Addr × AmpoolChunk)) (b : BucketId) (bucket : AmpoolBucket) (c : Addr)
    (block : Block) (pool' : AmpoolInternal) : Prop where
  source : Source pool b size fresh c bucket
  prepared : Prepared cfg b c size name block
  sound : Sound cfg pool'
  after : pool' = { (pool.setBucket b (bucket.take c size)).setBlock c (some block) with
    size := pool.size + size.toUInt64, elementCount := pool.elementCount + 1 }

structure Gave (cfg : Config) (pool : AmpoolInternal) (old : Owned) (b : BucketId)
    (value : Option Block) (pool' : AmpoolInternal) : Prop where
  used : old.chunk ∈ (pool.buckets b).usedList
  left : Left cfg b old.chunk old.size value
  sound : Sound cfg pool'
  after : pool' = { pool.release b old.chunk old.size value with
    size := pool.size - old.size.toUInt64, elementCount := pool.elementCount - 1 }

theorem sound_counters (sound : Sound cfg pool) (size elementCount : UInt64) :
    Sound cfg { pool with size := size, elementCount := elementCount } :=
  ⟨sound.sizes, sound.lists, sound.nodup, sound.apart, sound.inside⟩

variable {weaker : Config}

/-- A call of `alloc`, where at least the chunk that it may use again is as `free` left it. -/
theorem ampoolOpAlloc_covered (covers : cfg.Covers weaker) (sound : Sound weaker pool)
    (positive : 0 < size.toNat) (bound : size ≤ maxSize) (unused : Unused pool size fresh)
    (reusable : ∀ b, ampoolGetBucket (alignSize size) = .ok b → Reusable cfg pool b)
    (name : String) :
    (fresh = none ∧ ampoolOpAlloc cfg pool size name fresh = .ok (pool, none)) ∨
    ∃ b bucket c block pool', Took weaker pool size name fresh b bucket c block pool' ∧
      Prepared cfg b c size name block ∧ ampoolOpAlloc cfg pool size name fresh = .ok
      (pool', some c) := by
  obtain ⟨b, fits⟩ := exists_fits positive bound
  have nonzero : size ≠ 0 := by
    rintro rfl
    exact Nat.lt_irrefl 0 positive
  rcases bucketAlloc_spec covers sound (reusable b fits.bucket) fits unused name with
    ⟨_, absent, run⟩ | ⟨c, bucket, block, source, prepared, run, after⟩
  · refine .inl ⟨absent, ?_⟩
    simp only [ampoolOpAlloc, if_neg nonzero, fits.bucket, bind, Except.bind, run]
    rfl
  · refine .inr ⟨b, bucket, c, block, _,
      ⟨source, prepared.weaken covers, sound_counters after _ _, rfl⟩, prepared, ?_⟩
    simp only [ampoolOpAlloc, if_neg nonzero, fits.bucket, bind, Except.bind, run]
    rfl

theorem ampoolOpAlloc_spec (sound : Sound cfg pool) (positive : 0 < size.toNat)
    (bound : size ≤ maxSize) (unused : Unused pool size fresh) (name : String) :
    (fresh = none ∧ ampoolOpAlloc cfg pool size name fresh = .ok (pool, none)) ∨
    ∃ b bucket c block pool', Took cfg pool size name fresh b bucket c block pool' ∧
      ampoolOpAlloc cfg pool size name fresh = .ok (pool', some c) := by
  rcases ampoolOpAlloc_covered cfg.covers_refl sound positive bound unused
    (fun b _ => sound.reusable b) name with
    refused | ⟨b, bucket, c, block, pool', took, _, run⟩
  · exact .inl refused
  · exact .inr ⟨b, bucket, c, block, pool', took, run⟩

theorem ampoolOpFree_covered (covers : cfg.Covers weaker) (owns : Owns pool live)
    (sound : Sound weaker pool)
    (member : old ∈ live) (marked : ∀ b block, pool.heap old.chunk = some block →
      Kept weaker b old.chunk true block → Marked cfg old.chunk block.chunk
      (allocationSize b block.chunk)) :
    ∃ b value pool', Gave weaker pool old b value pool' ∧ Left cfg b old.chunk old.size value ∧
      ampoolOpFree cfg pool old.chunk old.size = .ok pool' := by
  obtain ⟨b, block, used, mapped, kept, sized, _⟩ := owns.held sound member
  obtain ⟨value, left, run, after⟩ := bucketFree_spec covers sound used mapped
    (marked b block mapped kept)
  rw [sized] at left run after
  have found := kept.fits.bucket
  rw [sized] at found
  refine ⟨b, value, _, ⟨used, left.weaken covers, sound_counters after _ _, rfl⟩, left, ?_⟩
  simp only [ampoolOpFree, found, bind, Except.bind, run]
  rfl

theorem ampoolOpFree_spec (owns : Owns pool live) (sound : Sound cfg pool) (member : old ∈ live) :
    ∃ b value pool', Gave cfg pool old b value pool' ∧
      ampoolOpFree cfg pool old.chunk old.size = .ok pool' := by
  obtain ⟨b, value, pool', gave, _, run⟩ := ampoolOpFree_covered cfg.covers_refl owns sound member
    fun b block _ kept => kept.marked
  exact ⟨b, value, pool', gave, run⟩

theorem Took.heap_of_ne (took : Took cfg pool size name fresh b bucket c block pool') {d : Addr}
    (other : d ≠ c) : pool'.heap d = pool.heap d := by
  rw [took.after]
  exact Function.update_of_ne other ..

theorem Took.heap_self (took : Took cfg pool size name fresh b bucket c block pool') :
    pool'.heap c = some block := by
  rw [took.after]
  exact Function.update_self ..

theorem Gave.heap_of_ne (gave : Gave cfg pool old b value pool') {d : Addr}
    (other : d ≠ old.chunk) : pool'.heap d = pool.heap d := by
  rw [gave.after]
  exact Function.update_of_ne other ..

theorem Took.buckets_self (took : Took cfg pool size name fresh b bucket c block pool') :
    pool'.buckets b = bucket.take c size := by
  rw [took.after]
  exact Function.update_self ..

theorem Took.buckets_of_ne (took : Took cfg pool size name fresh b bucket c block pool')
    {b' : BucketId} (other : b' ≠ b) : pool'.buckets b' = pool.buckets b' := by
  rw [took.after]
  exact Function.update_of_ne other ..

theorem Took.usedList_self (took : Took cfg pool size name fresh b bucket c block pool') :
    (pool'.buckets b).usedList = c :: (pool.buckets b).usedList := by
  rw [took.buckets_self, ← took.source.used_eq.1]
  rfl

theorem Gave.buckets_self (gave : Gave cfg pool old b value pool') :
    pool'.buckets b = bucketFreeSection (pool.buckets b) old.chunk old.size := by
  rw [gave.after]
  exact Function.update_self ..

theorem Gave.buckets_of_ne (gave : Gave cfg pool old b value pool') {b' : BucketId}
    (other : b' ≠ b) : pool'.buckets b' = pool.buckets b' := by
  rw [gave.after]
  exact Function.update_of_ne other ..

theorem Gave.usedList_self (gave : Gave cfg pool old b value pool') :
    (pool'.buckets b).usedList = (pool.buckets b).usedList.erase old.chunk := by
  rw [gave.buckets_self]
  rfl

theorem Took.mem_used (took : Took cfg pool size name fresh b bucket c block pool') (d : Addr) :
    (∃ b', d ∈ (pool'.buckets b').usedList) ↔ d = c ∨ ∃ b', d ∈ (pool.buckets b').usedList := by
  have here := took.usedList_self
  constructor
  · rintro ⟨b', member⟩
    by_cases isHere : b' = b
    · rw [isHere, here] at member
      exact (List.mem_cons.mp member).imp_right fun old => ⟨b, old⟩
    · exact .inr ⟨b', took.buckets_of_ne isHere ▸ member⟩
  · rintro (rfl | ⟨b', member⟩)
    · exact ⟨b, here ▸ List.mem_cons_self⟩
    · by_cases isHere : b' = b
      · exact ⟨b, here ▸ List.mem_cons_of_mem _ (isHere ▸ member)⟩
      · exact ⟨b', (took.buckets_of_ne isHere).symm ▸ member⟩

theorem Gave.mem_used (gave : Gave cfg pool old b value pool') (sound : Sound cfg pool) (d : Addr) :
    (∃ b', d ∈ (pool'.buckets b').usedList) ↔
      d ≠ old.chunk ∧ ∃ b', d ∈ (pool.buckets b').usedList := by
  have here := gave.usedList_self
  have once : (pool.buckets b).usedList.Nodup := (sound.nodup b).of_append_left
  constructor
  · rintro ⟨b', member⟩
    by_cases isHere : b' = b
    · rw [isHere, here, once.mem_erase_iff] at member
      exact ⟨member.1, b, member.2⟩
    · rw [gave.buckets_of_ne isHere] at member
      refine ⟨fun same => isHere ?_, b', member⟩
      have first : old.chunk ∈ (pool.buckets b').list true := same ▸ member
      have second : old.chunk ∈ (pool.buckets b).list true := gave.used
      exact (sound.unique first second).1
  · rintro ⟨different, b', member⟩
    by_cases isHere : b' = b
    · exact ⟨b, here ▸ once.mem_erase_iff.mpr ⟨different, isHere ▸ member⟩⟩
    · exact ⟨b', (gave.buckets_of_ne isHere).symm ▸ member⟩

theorem Took.not_live (took : Took cfg pool size name fresh b bucket c block pool')
    (owns : Owns pool live) (sound : Sound cfg pool) (unused : Unused pool size fresh) :
    c ∉ live.map Owned.chunk := by
  rw [owns.used]
  rintro ⟨b', member⟩
  exact took.source.not_used sound unused b' member

theorem Took.owns (took : Took cfg pool size name fresh b bucket c block pool')
    (owns : Owns pool live) (sound : Sound cfg pool) (unused : Unused pool size fresh) :
    Owns pool' (⟨c, size, name⟩ :: live) := by
  have outside := took.not_live owns sound unused
  refine ⟨List.nodup_cons.mpr ⟨outside, owns.nodup⟩, fun d => ?_, fun owned member => ?_⟩
  · rw [took.mem_used d, ← owns.used d]
    exact List.mem_cons
  · rcases List.mem_cons.mp member with rfl | older
    · exact ⟨block, took.heap_self, took.prepared.sized, took.prepared.named⟩
    · have other : owned.chunk ≠ c := fun same => outside (same ▸ List.mem_map_of_mem older)
      rw [took.heap_of_ne other]
      exact owns.blocks owned older

theorem Gave.owns (gave : Gave cfg pool old b value pool') (owns : Owns pool live)
    (sound : Sound cfg pool) (member : old ∈ live) : Owns pool' (live.erase old) := by
  have perm := (List.perm_cons_erase member).map Owned.chunk
  have split := List.nodup_cons.mp (perm.nodup_iff.mp owns.nodup)
  refine ⟨split.2, fun d => ?_, fun owned rest => ?_⟩
  · rw [gave.mem_used sound d, ← owns.used d, perm.mem_iff, List.map_cons, List.mem_cons]
    constructor
    · exact fun rest => ⟨fun same => split.1 (same ▸ rest), .inr rest⟩
    · exact fun ⟨different, either⟩ => either.resolve_left different
  · rw [gave.heap_of_ne (chunk_ne_of_mem_erase owns.nodup member rest)]
    exact owns.blocks owned (List.mem_of_mem_erase rest)

theorem Owns.setBlock (owns : Owns pool live) {owned : Owned} (member : owned ∈ live)
    (sized : block.chunk.size = owned.size) (named : block.chunk.name = owned.name) :
    Owns (pool.setBlock owned.chunk (some block)) live := by
  refine ⟨owns.nodup, owns.used, fun other also => ?_⟩
  by_cases same : other.chunk = owned.chunk
  · obtain rfl := List.inj_on_of_nodup_map owns.nodup also member same
    exact ⟨block, Function.update_self .., sized, named⟩
  · have kept : (pool.setBlock owned.chunk (some block)).heap other.chunk = pool.heap other.chunk :=
      Function.update_of_ne same ..
    rw [kept]
    exact owns.blocks other also

theorem kept_withData {data : ℕ → UInt8} (kept : Kept cfg b c true block)
    (beyond : ∀ i, block.chunk.size.toNat ≤ i → data i = block.chunk.data i) :
    Kept cfg b c true (block.withData data) := by
  refine ⟨kept.fits, kept.capacity, ?_⟩
  rw [if_pos rfl]
  refine ⟨kept.marked.magic, fun valid i above => ?_⟩
  exact (beyond i above.1).trans (kept.marked.bytes valid i above)

structure Copied (cfg : Config) (b : BucketId) (c : Addr) (size oldSize : UInt32) (name : String)
    (oldData : ℕ → UInt8) (block : Block) : Prop where
  kept : Kept cfg b c true block
  sized : block.chunk.size = size
  named : block.chunk.name = name
  copied : ∀ i, i < min oldSize.toNat size.toNat → block.chunk.data i = oldData i
  zero : ∀ i, min oldSize.toNat size.toNat ≤ i → i < size.toNat → block.chunk.data i = 0

theorem copy_spec (prepared : Prepared cfg b c size name block) (oldSize : UInt32)
    (data : ℕ → UInt8) :
    ∃ middle after, block.storeAll (memcpyFrom data 0 (min32 oldSize size).toNat) = .ok middle ∧
      middle.storeAll (memsetZero (min32 oldSize size).toNat
        (size.toNat - (min32 oldSize size).toNat)) = .ok after ∧
      Copied cfg b c size oldSize name data after ∧ after.capacity = block.capacity := by
  obtain ⟨kept, sized, named, _⟩ := prepared
  have whole := kept.fits.size_le
  rw [sized, ← kept.capacity] at whole
  have least := min32_toNat oldSize size
  obtain ⟨data₁, copyRun, copied, rest₁⟩ := storeRange_spec block data
    (fun _ => mem_map_memcpyFrom) (fun w member => memcpyFrom_value member)
    (show 0 + (min32 oldSize size).toNat ≤ block.capacity by omega)
  obtain ⟨data₂, zeroRun, zeroed, rest₂⟩ := storeRange_spec (block.withData data₁) (fun _ => 0)
    (fun _ => mem_map_memsetZero) (fun w member => memsetZero_value member)
    (show (min32 oldSize size).toNat + (size.toNat - (min32 oldSize size).toNat) ≤ block.capacity
      by omega)
  have beyond (i : ℕ) (past : block.chunk.size.toNat ≤ i) : data₂ i = block.chunk.data i := by
    rw [sized] at past
    have second : data₂ i = data₁ i := rest₂ i (by omega)
    rw [second]
    exact rest₁ i (by omega)
  have marked : Kept cfg b c true (block.withData data₂) := kept_withData kept beyond
  refine ⟨_, _, copyRun, zeroRun, ⟨marked, sized, named, fun i below => ?_,
    fun i low high => ?_⟩, rfl⟩
  · have second : data₂ i = data₁ i := rest₂ i (by omega)
    exact second.trans (copied i (Nat.zero_le i) (by omega))
  · exact zeroed i (by omega) (by omega)

theorem Took.used (took : Took cfg pool size name fresh b bucket c block pool') :
    c ∈ (pool'.buckets b).list true := by
  rw [took.after]
  show c ∈ (Function.update pool.buckets b (bucket.take c size) b).usedList
  rw [Function.update_self]
  exact List.mem_cons_self

/-- A call of `realloc`: the old block is freed, and its data are in the new one if there is one. -/
theorem ampoolOpRealloc_spec (owns : Owns pool live) (sound : Sound cfg pool) (member : old ∈ live)
    (positive : 0 < size.toNat) (bound : size ≤ maxSize) (unused : Unused pool size fresh)
    (name : String) :
    (fresh = none ∧ ∃ b value pool', Gave cfg pool old b value pool' ∧
      ampoolOpRealloc cfg pool old.chunk old.size size name fresh = .ok (pool', none)) ∨
    ∃ b bucket c block pool₁ oldBlock after b' value pool',
      Took cfg pool size name fresh b bucket c block pool₁ ∧
      pool.heap old.chunk = some oldBlock ∧
      Copied cfg b c size old.size name oldBlock.chunk.data after ∧
      Sound cfg (pool₁.setBlock c (some after)) ∧
      Owns (pool₁.setBlock c (some after)) (⟨c, size, name⟩ :: live) ∧
      Gave cfg (pool₁.setBlock c (some after)) old b' value pool' ∧
      ampoolOpRealloc cfg pool old.chunk old.size size name fresh = .ok (pool', some c) := by
  rcases ampoolOpAlloc_spec sound positive bound unused name with
    ⟨absent, allocRun⟩ | ⟨b, bucket, c, block, pool₁, took, allocRun⟩
  · obtain ⟨b, value, pool', gave, freeRun⟩ := ampoolOpFree_spec owns sound member
    refine .inl ⟨absent, b, value, pool', gave, ?_⟩
    simp only [ampoolOpRealloc, bind, Except.bind, allocRun, pure, Except.pure, freeRun]
  · right
    obtain ⟨_, oldBlock, _, mapped, kept, sized, _⟩ := owns.held sound member
    have other : old.chunk ≠ c := fun same =>
      took.not_live owns sound unused (same ▸ List.mem_map_of_mem member)
    obtain ⟨middle, after, copyRun, zeroRun, copied, capacity⟩ :=
      copy_spec took.prepared old.size oldBlock.chunk.data
    have sound₁ : Sound cfg (pool₁.setBlock c (some after)) :=
      took.sound.setBlock took.used copied.kept fun before there => by
        rw [took.heap_self] at there
        cases there
        exact capacity
    have newest : (⟨c, size, name⟩ : Owned) ∈ (⟨c, size, name⟩ : Owned) :: live :=
      List.mem_cons_self
    have owns₁ : Owns (pool₁.setBlock c (some after)) (⟨c, size, name⟩ :: live) :=
      (took.owns owns sound unused).setBlock newest copied.sized copied.named
    obtain ⟨b', value, pool', gave, freeRun⟩ :=
      ampoolOpFree_spec owns₁ sound₁ (List.mem_cons_of_mem _ member)
    refine ⟨b, bucket, c, block, pool₁, oldBlock, after, b', value, pool', took, mapped,
      copied, sound₁,
      owns₁, gave, ?_⟩
    have readable : oldBlock.readable 0 (min32 old.size size).toNat = true := by
      apply readable_of_le oldBlock
      have whole := kept.fits.size_le
      rw [sized] at whole
      rw [kept.capacity, min32_toNat]
      omega
    have oldHere : pool₁.heap old.chunk = some oldBlock := by rw [took.heap_of_ne other, mapped]
    simp only [ampoolOpRealloc, bind, Except.bind, allocRun, AmpoolInternal.block,
      oldHere, readable,
      Bool.not_true, Bool.false_eq_true, if_false, took.heap_self, copyRun, zeroRun,
      pure, Except.pure, freeRun]

end Calls

section Outcomes

variable {cfg : Config} {s s' : Client} {op : Op} {taken : Option Addr}

inductive Outcome (cfg : Config) (s : Client) : Op → Client → Option Addr → Prop
  | refused {size : UInt32} {name : String} : Outcome cfg s (.alloc size name none) s none
  | allocated {size : UInt32} {name : String} {fresh : Option (Addr × AmpoolChunk)} {b : BucketId}
      {bucket : AmpoolBucket} {c : Addr} {block : Block} {pool' : AmpoolInternal}
      (unused : Unused s.pool size fresh)
      (took : Took cfg s.pool size name fresh b bucket c block pool') :
      Outcome cfg s (.alloc size name fresh) ⟨pool', ⟨c, size, name⟩ :: s.live⟩ (some c)
  | freed {old : Owned} {b : BucketId} {value : Option Block} {pool' : AmpoolInternal}
      (member : old ∈ s.live) (gave : Gave cfg s.pool old b value pool') :
      Outcome cfg s (.free old) ⟨pool', s.live.erase old⟩ none
  | lost {old : Owned} {size : UInt32} {name : String} {b : BucketId} {value : Option Block}
      {pool' : AmpoolInternal} (member : old ∈ s.live) (gave : Gave cfg s.pool old b value pool') :
      Outcome cfg s (.realloc old size name none) ⟨pool', s.live.erase old⟩ none
  | moved {old : Owned} {size : UInt32} {name : String} {fresh : Option (Addr × AmpoolChunk)}
      {b b' : BucketId} {bucket : AmpoolBucket} {c : Addr} {block oldBlock after : Block}
      {value : Option Block} {pool₁ pool' : AmpoolInternal}
      (member : old ∈ s.live) (unused : Unused s.pool size fresh)
      (took : Took cfg s.pool size name fresh b bucket c block pool₁)
      (mapped : s.pool.heap old.chunk = some oldBlock)
      (copied : Copied cfg b c size old.size name oldBlock.chunk.data after)
      (sound : Sound cfg (pool₁.setBlock c (some after)))
      (owns : Owns (pool₁.setBlock c (some after)) (⟨c, size, name⟩ :: s.live))
      (gave : Gave cfg (pool₁.setBlock c (some after)) old b' value pool') :
      Outcome cfg s (.realloc old size name fresh)
      ⟨pool', ⟨c, size, name⟩ :: s.live.erase old⟩ (some c)
  | written {owned : Owned} {i : ℕ} {value : UInt8} {b : BucketId} {block : Block}
      (member : owned ∈ s.live) (inside : i < owned.size.toNat)
      (used : owned.chunk ∈ (s.pool.buckets b).usedList)
      (mapped : s.pool.heap owned.chunk = some block) (kept : Kept cfg b owned.chunk true block)
      (sized : block.chunk.size = owned.size) (named : block.chunk.name = owned.name) :
      Outcome cfg s (.write owned i value)
        ⟨s.pool.setBlock owned.chunk
          (some (block.withData (Function.update block.chunk.data i value))),
          s.live⟩ none

theorem apply_spec (inv : Inv cfg s) (ready : Ready s op s) :
    ∃ s' taken, apply cfg s op = .ok (s', taken) ∧ Outcome cfg s op s' taken := by
  obtain ⟨sound, owns⟩ := inv
  cases op with
  | alloc size name fresh =>
      obtain ⟨positive, bound, unused⟩ := ready
      rcases ampoolOpAlloc_spec sound positive bound unused name with
        ⟨absent, run⟩ | ⟨b, bucket, c, block, pool', took, run⟩
      · subst absent
        refine ⟨s, none, ?_, .refused⟩
        simp only [apply, bind, Except.bind, run, pure, Except.pure, own]
      · refine ⟨_, _, ?_, .allocated unused took⟩
        simp only [apply, bind, Except.bind, run, pure, Except.pure, own]
  | free old =>
      obtain ⟨b, value, pool', gave, run⟩ := ampoolOpFree_spec owns sound ready
      refine ⟨_, _, ?_, .freed ready gave⟩
      simp only [apply, bind, Except.bind, run, pure, Except.pure]
  | realloc old size name fresh =>
      obtain ⟨member, positive, bound, unused⟩ := ready
      rcases ampoolOpRealloc_spec owns sound member positive bound unused name with
        ⟨absent, b, value, pool', gave, run⟩ | ⟨b, bucket, c, block, pool₁, oldBlock,
          after, b', value, pool', took, mapped, copied, sound₁, owns₁, gave, run⟩
      · subst absent
        refine ⟨_, _, ?_, .lost member gave⟩
        simp only [apply, bind, Except.bind, run, pure, Except.pure, own]
      · refine ⟨_, _, ?_, .moved member unused took mapped copied sound₁ owns₁ gave⟩
        simp only [apply, bind, Except.bind, run, pure, Except.pure, own]
  | write owned i value =>
      obtain ⟨member, inside⟩ := ready
      obtain ⟨b, block, used, mapped, kept, sized, named⟩ := owns.held sound member
      refine ⟨_, _, ?_, .written member inside used mapped kept sized named⟩
      have room : i < block.capacity := by
        have whole := kept.fits.size_le
        rw [sized, ← kept.capacity] at whole
        omega
      simp only [apply, AmpoolInternal.block, mapped, bind, Except.bind, Block.storeByte,
        room, if_true, pure, Except.pure]
      rfl

theorem erase_cons_of_live {live : List Owned} {old new : Owned} (member : old ∈ live)
    (outside : new.chunk ∉ live.map Owned.chunk) :
    (new :: live).erase old = new :: live.erase old := by
  refine List.erase_cons_tail (fun same => outside ?_)
  rw [eq_of_beq same]
  exact List.mem_map_of_mem member

theorem Outcome.inv (outcome : Outcome cfg s op s' taken) (inv : Inv cfg s) : Inv cfg s' := by
  obtain ⟨sound, owns⟩ := inv
  cases outcome with
  | refused => exact ⟨sound, owns⟩
  | allocated unused took => exact ⟨took.sound, took.owns owns sound unused⟩
  | freed member gave => exact ⟨gave.sound, gave.owns owns sound member⟩
  | lost member gave => exact ⟨gave.sound, gave.owns owns sound member⟩
  | moved member unused took mapped copied sound₁ owns₁ gave =>
      have after := gave.owns owns₁ sound₁ (List.mem_cons_of_mem _ member)
      rw [erase_cons_of_live member (took.not_live owns sound unused)] at after
      exact ⟨gave.sound, after⟩
  | @written owned i value b block member inside used mapped kept sized named =>
      have beyond (k : ℕ) (past : block.chunk.size.toNat ≤ k) :
          Function.update block.chunk.data i value k = block.chunk.data k := by
        refine Function.update_of_ne (fun same => ?_) ..
        rw [sized] at past
        omega
      have listed : owned.chunk ∈ (s.pool.buckets b).list true := used
      refine ⟨sound.setBlock listed (kept_withData kept beyond) fun before there => ?_,
        owns.setBlock member sized named⟩
      rw [mapped] at there
      cases there
      rfl

theorem step_outcome (inv : Inv cfg s) (ready : Ready s op s') (fired : step cfg s op = some s') :
    ∃ taken, Outcome cfg s op s' taken := by
  obtain ⟨s₁, taken, run, outcome⟩ := apply_spec inv ready
  simp only [step, run, Option.some.injEq] at fired
  exact ⟨taken, fired ▸ outcome⟩

theorem inv_of_run {ops : List Op} (inv : Inv cfg s) (run : Run (step cfg) Ready s ops s') :
    Inv cfg s' := by
  apply run.invariant (Inv cfg) inv
  intro before op after inv fired ready
  obtain ⟨taken, outcome⟩ := step_outcome inv ready fired
  exact outcome.inv inv

theorem run_inv {ops : List Op} (run : Run (step cfg) Ready start ops s) : Inv cfg s :=
  inv_of_run inv_start run

end Outcomes

section Placement

variable {cfg : Config} {pool pool' : AmpoolInternal} {s s' : Client} {op : Op}
  {taken : Option Addr} {limit : ℕ}

/-- All chunks end at or below an address. -/
def EndsBelow (pool : AmpoolInternal) (limit : ℕ) : Prop :=
  ∀ c block, pool.heap c = some block → dataPtr c block.capacity ≤ limit

/-- The end of all chunks when `malloc` has given this memory above them. -/
def endOf (limit : ℕ) (size : UInt32) : Option (Addr × AmpoolChunk) → ℕ
  | none => limit
  | some (c, _) => dataPtr c (alignSize size).toNat

def endAfter (limit : ℕ) : Op → ℕ
  | .alloc size _ fresh | .realloc _ size _ fresh => endOf limit size fresh
  | _ => limit

def placedAbove (limit : ℕ) (size : UInt32) : Option (Addr × AmpoolChunk) → Bool
  | none => true
  | some (c, _) => limit ≤ c && dataPtr c (alignSize size).toNat ≤ 2 ^ 64

def readyAbove (limit : ℕ) (s : Client) : Op → Bool
  | .alloc size _ fresh => 0 < size.toNat && size ≤ maxSize && placedAbove limit size fresh
  | .free old => s.live.contains old
  | .realloc old size _ fresh =>
      s.live.contains old && 0 < size.toNat && size ≤ maxSize && placedAbove limit size fresh
  | .write owned i _ => s.live.contains owned && i < owned.size.toNat

/-- Whether every call of the list is ready, with all memory of `malloc` in ascending order. -/
def orderly (cfg : Config) : ℕ → Client → List Op → Bool
  | _, _, [] => true
  | limit, s, op :: ops => readyAbove limit s op &&
      match step cfg s op with
      | none => true
      | some s' => orderly cfg (endAfter limit op) s' ops

theorem EndsBelow.unused {size : UInt32} {fresh : Option (Addr × AmpoolChunk)}
    (below : EndsBelow pool limit) (placed : placedAbove limit size fresh = true) :
    Unused pool size fresh := by
  intro c chunk given
  subst given
  simp only [placedAbove, Bool.and_eq_true, decide_eq_true_eq] at placed
  exact ⟨placed.2, fun d block mapped => .inr ((below d block mapped).trans placed.1)⟩

theorem EndsBelow.ready (below : EndsBelow s.pool limit) (checked : readyAbove limit s op = true) :
    Ready s op s' := by
  cases op with
  | alloc size name fresh =>
      simp only [readyAbove, Bool.and_eq_true, decide_eq_true_eq] at checked
      exact ⟨checked.1.1, checked.1.2, below.unused checked.2⟩
  | free old => simpa [readyAbove, Ready] using checked
  | realloc old size name fresh =>
      simp only [readyAbove, Bool.and_eq_true, decide_eq_true_eq, List.contains_iff_mem] at checked
      exact ⟨checked.1.1.1, checked.1.1.2, checked.1.2, below.unused checked.2⟩
  | write owned i value => simpa [readyAbove, Ready] using checked

theorem le_endOf {size : UInt32} {fresh : Option (Addr × AmpoolChunk)}
    (placed : placedAbove limit size fresh = true) : limit ≤ endOf limit size fresh := by
  cases fresh with
  | none => exact le_rfl
  | some given =>
      simp only [placedAbove, Bool.and_eq_true, decide_eq_true_eq] at placed
      simp only [endOf, dataPtr]
      omega

theorem Took.endsBelow {size : UInt32} {name : String} {fresh : Option (Addr × AmpoolChunk)}
    {b : BucketId} {bucket : AmpoolBucket} {c : Addr} {block : Block}
    (took : Took cfg pool size name fresh b bucket c block pool') (sound : Sound cfg pool)
    (below : EndsBelow pool limit) (placed : placedAbove limit size fresh = true) :
    EndsBelow pool' (endOf limit size fresh) := by
  have raised := le_endOf placed
  intro d held mapped
  by_cases same : d = c
  · subst same
    cases took.heap_self.symm.trans mapped
    cases took.source with
    | reuse found =>
        obtain ⟨before, there, kept⟩ := sound.lists b false d (mem_freeList found)
        rw [took.prepared.kept.capacity_eq kept kept.poisoned.1]
        exact (below d before there).trans raised
    | malloc empty given =>
        rw [took.prepared.kept.capacity, took.prepared.kept.fits.aligned, took.prepared.sized,
          given]
        exact le_rfl
  · rw [took.heap_of_ne same] at mapped
    exact (below d held mapped).trans raised

theorem Gave.endsBelow {old : Owned} {b : BucketId} {value : Option Block}
    (gave : Gave cfg pool old b value pool') (sound : Sound cfg pool)
    (below : EndsBelow pool limit) : EndsBelow pool' limit := by
  intro d held mapped
  by_cases same : d = old.chunk
  · subst same
    have here : pool'.heap old.chunk = value := by rw [gave.after]; exact Function.update_self ..
    have left := gave.left
    rw [Left] at left
    split at left
    · rw [here, left] at mapped
      cases mapped
    · rename_i stepped
      obtain ⟨block, isBlock, kept, _⟩ := left
      obtain ⟨before, there, used⟩ := sound.lists b true old.chunk gave.used
      cases (here.trans isBlock).symm.trans mapped
      rw [kept.capacity_eq used stepped]
      exact below old.chunk before there
  · rw [gave.heap_of_ne same] at mapped
    exact below d held mapped

theorem EndsBelow.setBlock {c : Addr} {before after : Block} (below : EndsBelow pool limit)
    (mapped : pool.heap c = some before) (capacity : after.capacity = before.capacity) :
    EndsBelow (pool.setBlock c (some after)) limit := by
  intro d held here
  change Function.update pool.heap c (some after) d = some held at here
  by_cases same : d = c
  · subst same
    rw [Function.update_self] at here
    cases here
    rw [capacity]
    exact below d before mapped
  · rw [Function.update_of_ne same] at here
    exact below d held here

theorem Outcome.endsBelow (outcome : Outcome cfg s op s' taken) (inv : Inv cfg s)
    (below : EndsBelow s.pool limit) (checked : readyAbove limit s op = true) :
    EndsBelow s'.pool (endAfter limit op) := by
  cases outcome with
  | refused => exact below
  | allocated unused took =>
      simp only [readyAbove, Bool.and_eq_true] at checked
      exact took.endsBelow inv.sound below checked.2
  | freed member gave => exact gave.endsBelow inv.sound below
  | lost member gave => exact gave.endsBelow inv.sound below
  | @moved old size name fresh b b' bucket c block oldBlock after value pool₁ pool' member unused
      took mapped copied sound owns gave =>
      simp only [readyAbove, Bool.and_eq_true] at checked
      have capacity : after.capacity = block.capacity := by
        rw [copied.kept.capacity, took.prepared.kept.capacity, allocationSize, allocationSize,
          copied.sized, took.prepared.sized]
      have between := took.endsBelow inv.sound below checked.2
      exact gave.endsBelow sound (between.setBlock took.heap_self capacity)
  | written member inside used mapped kept sized named => exact below.setBlock mapped rfl

theorem run_of_above (inv : Inv cfg s) (below : EndsBelow s.pool limit) {prior ops : List Op}
    (run : Run (step cfg) Ready start prior s) (checked : orderly cfg limit s ops = true) :
    ∃ s', Run (step cfg) Ready start (prior ++ ops) s' := by
  induction ops generalizing s limit prior with
  | nil => exact ⟨s, by simpa using run⟩
  | cons op ops ih =>
      simp only [orderly, Bool.and_eq_true] at checked
      have ready : Ready s op s := below.ready checked.1
      obtain ⟨next, taken, applied, outcome⟩ := apply_spec inv ready
      have fired : step cfg s op = some next := by rw [step, applied]
      have rest := checked.2
      rw [fired] at rest
      have longer := ih (outcome.inv inv) (outcome.endsBelow inv below checked.1)
        (run.snoc fired (below.ready checked.1)) rest
      simpa using longer

theorem run_of_orderly {ops : List Op} (checked : orderly cfg 0 start ops = true) :
    ∃ s, Run (step cfg) Ready start ops s :=
  run_of_above inv_start (fun _ _ mapped => by cases mapped) .nil checked

theorem ready_of_orderly {ops : List Op} {op : Op}
    (checked : orderly cfg 0 start (ops ++ [op]) = true) :
    ∃ s, Run (step cfg) Ready start ops s ∧ Ready s op s := by
  obtain ⟨s', run⟩ := run_of_orderly checked
  obtain ⟨s, earlier, _, ready⟩ := run.unsnoc
  exact ⟨s, earlier, ready⟩

end Placement

end Libam.Pool.Clients
